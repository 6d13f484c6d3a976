import Finastate.Library.AssocMap
import Mathlib.Data.List.Sort
import Mathlib.Order.Basic

/-!
# Ordered maps

A map over ordered keys is the list of its pairs in the order of the keys.
`insert` keeps the order and replaces the value of a key that is there, and
`extend` inserts pairs one after the other. In a sorted map reading is
membership, and pairs with keys above all others end up at the end.
-/

namespace SortedMap

variable {κ ν : Type*} [LinearOrder κ]

/-- The keys are pairwise distinct and in their order. -/
def Sorted (m : List (κ × ν)) : Prop := m.Pairwise fun p q => p.1 < q.1

def insert : List (κ × ν) → κ → ν → List (κ × ν)
  | [], k, v => [(k, v)]
  | p :: m, k, v =>
      if k < p.1 then (k, v) :: p :: m
      else if k = p.1 then (k, v) :: m
      else p :: insert m k v

def extend (m items : List (κ × ν)) : List (κ × ν) :=
  items.foldl (fun m item => insert m item.1 item.2) m

theorem mem_insert {m : List (κ × ν)} {k : κ} {v : ν} {p : κ × ν} (h : p ∈ insert m k v) :
    p = (k, v) ∨ p ∈ m := by
  induction m with
  | nil => simpa [insert] using h
  | cons q m ih =>
      unfold insert at h
      split at h
      · simpa using h
      · split at h
        · rcases List.mem_cons.1 h with h | h
          · exact Or.inl h
          · exact Or.inr (List.mem_cons_of_mem _ h)
        · rcases List.mem_cons.1 h with h | h
          · exact Or.inr (h ▸ List.mem_cons_self)
          · exact (ih h).imp_right (List.mem_cons_of_mem _)

theorem mem_extend {m items : List (κ × ν)} {p : κ × ν} (h : p ∈ extend m items) :
    p ∈ m ∨ p ∈ items := by
  induction items generalizing m with
  | nil => exact Or.inl h
  | cons item items ih =>
      rcases ih h with hp | hp
      · rcases mem_insert hp with rfl | hp
        · exact Or.inr List.mem_cons_self
        · exact Or.inl hp
      · exact Or.inr (List.mem_cons_of_mem _ hp)

theorem Sorted.insert {m : List (κ × ν)} (h : Sorted m) (k : κ) (v : ν) :
    Sorted (insert m k v) := by
  induction m with
  | nil => exact List.pairwise_singleton _ _
  | cons q m ih =>
      have htail := List.pairwise_cons.1 h
      unfold SortedMap.insert
      split
      · next hlt =>
        refine List.pairwise_cons.2 ⟨fun p hp => ?_, h⟩
        rcases List.mem_cons.1 hp with rfl | hp
        · exact hlt
        · exact hlt.trans (htail.1 p hp)
      · next hnot =>
        split
        · next heq =>
          refine List.pairwise_cons.2 ⟨fun p hp => ?_, htail.2⟩
          rw [heq]
          exact htail.1 p hp
        · next hne =>
          refine List.pairwise_cons.2 ⟨fun p hp => ?_, ih htail.2⟩
          rcases mem_insert hp with rfl | hp
          · exact lt_of_le_of_ne (not_lt.1 hnot) (Ne.symm hne)
          · exact htail.1 p hp

theorem Sorted.extend {m : List (κ × ν)} (h : Sorted m) (items : List (κ × ν)) :
    Sorted (extend m items) := by
  induction items generalizing m with
  | nil => exact h
  | cons item items ih => exact ih (h.insert item.1 item.2)

theorem Sorted.nodup_keys {m : List (κ × ν)} (h : Sorted m) : (m.map Prod.fst).Nodup :=
  (List.pairwise_map.2 h).imp ne_of_lt

/-- The last key is the highest one. -/
theorem Sorted.le_getLast {m : List (κ × ν)} (h : Sorted m) {last : κ × ν}
    (hlast : m.getLast? = some last) {p : κ × ν} (hp : p ∈ m) : p.1 ≤ last.1 := by
  obtain ⟨init, rfl⟩ := List.getLast?_eq_some_iff.1 hlast
  rcases List.mem_append.1 hp with hp | hp
  · exact ((List.pairwise_append.1 h).2.2 p hp last List.mem_cons_self).le
  · rw [List.mem_singleton.1 hp]

/-- A pair with a key above all others goes to the end. -/
theorem insert_of_forall_lt {m : List (κ × ν)} {k : κ} (h : ∀ p ∈ m, p.1 < k) (v : ν) :
    insert m k v = m ++ [(k, v)] := by
  induction m with
  | nil => rfl
  | cons q m ih =>
      have hq := h q List.mem_cons_self
      rw [insert, if_neg (not_lt.2 hq.le), if_neg hq.ne',
        ih fun p hp => h p (List.mem_cons_of_mem _ hp)]
      rfl

/-- A pair with a key below all others goes to the front. -/
theorem insert_of_forall_gt {m : List (κ × ν)} {k : κ} (h : ∀ p ∈ m, k < p.1) (v : ν) :
    insert m k v = (k, v) :: m := by
  cases m with
  | nil => rfl
  | cons q m => rw [insert, if_pos (h q List.mem_cons_self)]

/-- Pairs in their order above all others go to the end. -/
theorem extend_of_sorted_append {m items : List (κ × ν)} (h : Sorted (m ++ items)) :
    extend m items = m ++ items := by
  induction items generalizing m with
  | nil => simp [extend]
  | cons item items ih =>
      have hlt : ∀ p ∈ m, p.1 < item.1 := fun p hp =>
        (List.pairwise_append.1 h).2.2 p hp item List.mem_cons_self
      have hsorted : Sorted ((m ++ [(item.1, item.2)]) ++ items) := by
        simpa using h
      have hfold : extend m (item :: items) = extend (insert m item.1 item.2) items := rfl
      rw [hfold, insert_of_forall_lt hlt, ih hsorted]
      simp

theorem extend_nil_of_sorted {items : List (κ × ν)} (h : Sorted items) :
    extend [] items = items :=
  extend_of_sorted_append (by simpa using h)

/-- In a sorted map a key has one value. -/
theorem Sorted.eq_of_mem {m : List (κ × ν)} (h : Sorted m) {k : κ} {v w : ν}
    (hv : (k, v) ∈ m) (hw : (k, w) ∈ m) : v = w := by
  induction m with
  | nil => cases hv
  | cons q m ih =>
      obtain ⟨hlt, htail⟩ := List.pairwise_cons.1 h
      rcases List.mem_cons.1 hv with rfl | hv'
      · rcases List.mem_cons.1 hw with hw' | hw'
        · exact (Prod.mk.inj hw').2.symm
        · exact absurd (hlt _ hw') (lt_irrefl _)
      · rcases List.mem_cons.1 hw with rfl | hw'
        · exact absurd (hlt _ hv') (lt_irrefl _)
        · exact ih htail hv' hw'

/-- A relation along a sorted map holds between a pair and one with a higher key. -/
theorem Sorted.rel_of_lt {m : List (κ × ν)} (h : Sorted m) {R : κ × ν → κ × ν → Prop}
    (hR : m.Pairwise R) {p q : κ × ν} (hp : p ∈ m) (hq : q ∈ m) (hlt : p.1 < q.1) : R p q := by
  induction m with
  | nil => cases hp
  | cons r m ih =>
      obtain ⟨hkeys, htail⟩ := List.pairwise_cons.1 h
      obtain ⟨hrel, hRtail⟩ := List.pairwise_cons.1 hR
      rcases List.mem_cons.1 hp with rfl | hp'
      · rcases List.mem_cons.1 hq with rfl | hq'
        · exact absurd hlt (lt_irrefl _)
        · exact hrel q hq'
      · rcases List.mem_cons.1 hq with rfl | hq'
        · exact absurd (hlt.trans (hkeys p hp')) (lt_irrefl _)
        · exact ih htail hRtail hp' hq'

/-! ## Lookup

Sorted maps are read as association lists are, and two of them with the same
content are the same list. -/

section Lookup

variable [DecidableEq κ]

theorem get?_insert (m : List (κ × ν)) (k k' : κ) (v : ν) :
    AssocMap.get? (insert m k v) k' = if k' = k then some v else AssocMap.get? m k' := by
  induction m with
  | nil => simp [insert, eq_comm]
  | cons p m ih =>
      unfold insert
      split
      · simp [eq_comm]
      · split
        · next heq =>
          by_cases hk : k' = k
          · simp [hk]
          · have hne : p.1 ≠ k' := by
              rw [← heq]
              exact Ne.symm hk
            simp [hk, hne, Ne.symm hk]
        · next hne =>
          rw [AssocMap.get?_cons, ih, AssocMap.get?_cons]
          by_cases hk : k' = k
          · simp [hk, Ne.symm hne]
          · simp [hk]

theorem Sorted.erase {m : List (κ × ν)} (h : Sorted m) (k : κ) :
    Sorted (AssocMap.erase m k) := h.filter _

theorem Sorted.ext {m m' : List (κ × ν)} (h : Sorted m) (h' : Sorted m')
    (hget : ∀ k, AssocMap.get? m k = AssocMap.get? m' k) : m = m' := by
  have hmem : ∀ p, p ∈ m ↔ p ∈ m' := fun p => by
    rw [← AssocMap.get?_eq_some_iff h.nodup_keys, hget,
      AssocMap.get?_eq_some_iff h'.nodup_keys]
  have hperm : m.Perm m' :=
    (List.perm_ext_iff_of_nodup h.nodup_keys.of_map h'.nodup_keys.of_map).2 hmem
  exact hperm.eq_of_pairwise
    (fun p q _ _ hpq hqp => absurd (hpq.trans hqp) (lt_irrefl _)) h h'

end Lookup

/-! ## Maps without gaps -/

/-- The keys are the numbers right above `base`. -/
def Contiguous {ν : Type*} (base : Nat) (m : List (Nat × ν)) : Prop :=
  m.map Prod.fst = List.range' (base + 1) m.length

namespace Contiguous

variable {ν : Type*} {base : Nat} {m items : List (Nat × ν)}

theorem nil : Contiguous base ([] : List (Nat × ν)) := rfl

theorem cons_iff {p : Nat × ν} :
    Contiguous base (p :: m) ↔ p.1 = base + 1 ∧ Contiguous (base + 1) m := by
  unfold Contiguous
  rw [List.map_cons, List.length_cons, List.range'_succ, List.cons.injEq]

theorem of_keys_eq {m' : List (Nat × ν)} (h : Contiguous base m)
    (hkeys : m'.map Prod.fst = m.map Prod.fst) : Contiguous base m' := by
  have hlength := congrArg List.length hkeys
  rw [List.length_map, List.length_map] at hlength
  unfold Contiguous at h ⊢
  rw [hkeys, h, hlength]

/-- The numbers from one on, with one value. -/
theorem range' (base n : Nat) (v : ν) :
    Contiguous base ((List.range' (base + 1) n).map fun number => (number, v)) := by
  simp [Contiguous, Function.comp_def]

theorem append (h : Contiguous base m) (hitems : Contiguous (base + m.length) items) :
    Contiguous base (m ++ items) := by
  unfold Contiguous at h hitems ⊢
  rw [List.map_append, h, hitems, List.length_append, Nat.add_right_comm base m.length 1,
    List.range'_append_1]

theorem mem (h : Contiguous base m) {p : Nat × ν} (hp : p ∈ m) :
    base < p.1 ∧ p.1 ≤ base + m.length := by
  have hkey : p.1 ∈ List.range' (base + 1) m.length := by
    rw [← h]
    exact List.mem_map_of_mem hp
  rw [List.mem_range'_1] at hkey
  omega

theorem sorted (h : Contiguous base m) : Sorted m := by
  have hkeys : (m.map Prod.fst).Pairwise (· < ·) := by
    rw [h]
    exact List.pairwise_lt_range'
  exact List.pairwise_map.1 hkeys

theorem last (h : Contiguous base m) {p : Nat × ν} (hp : m.getLast? = some p) :
    p.1 = base + m.length := by
  have hlast := congrArg List.getLast? h
  rw [List.getLast?_map, hp, List.getLast?_range'] at hlast
  split at hlast
  · exact nomatch hlast
  · have hkey := Option.some.inj hlast
    omega

theorem filter_lt (h : Contiguous base m) (start : Nat) :
    (m.filter fun p => p.1 < start) = m.take (start - (base + 1)) := by
  induction m generalizing base with
  | nil => simp
  | cons p m ih =>
      obtain ⟨hp, hm⟩ := cons_iff.1 h
      by_cases hlt : p.1 < start
      · have hstart : start - (base + 1) = start - (base + 1 + 1) + 1 := by omega
        simp [hlt, hstart, ih hm]
      · have hstart : start - (base + 1) = 0 := by omega
        have hrest : ∀ q ∈ m, ¬ q.1 < start := fun q hq => by
          have hq := (hm.mem hq).1
          omega
        simpa [hlt, hstart] using hrest

theorem filter_gt (h : Contiguous base m) {start : Nat} (hstart : base ≤ start) :
    (m.filter fun p => start < p.1) = m.drop (start - base) := by
  induction m generalizing base with
  | nil => simp
  | cons p m ih =>
      obtain ⟨hp, hm⟩ := cons_iff.1 h
      by_cases hlt : start < p.1
      · have hsame : start - base = 0 := by omega
        have hrest : ∀ q ∈ m, start < q.1 := fun q hq => by
          have hq := (hm.mem hq).1
          omega
        simpa [hlt, hsame] using hrest
      · have hnext : start - base = start - (base + 1) + 1 := by omega
        simp [hlt, hnext, ih hm (by omega)]

theorem take (h : Contiguous base m) (n : Nat) : Contiguous base (m.take n) := by
  unfold Contiguous at h ⊢
  rw [List.map_take, h, List.length_take]
  rcases le_total n m.length with hn | hn
  · rw [List.take_range'_of_length_ge hn, min_eq_left hn]
  · rw [List.take_range'_of_length_le hn, min_eq_right hn]

theorem drop (h : Contiguous base m) (n : Nat) :
    Contiguous (base + n) (m.drop n) := by
  unfold Contiguous at h ⊢
  rw [List.map_drop, h, List.length_drop, List.drop_range', Nat.mul_one, Nat.add_right_comm]

/-- The pairs above a later base. -/
theorem above (h : Contiguous base m) {start : Nat} (hstart : base ≤ start) :
    Contiguous start (m.filter fun p => start < p.1) := by
  have hbase : base + (start - base) = start := by omega
  have hdrop := h.drop (start - base)
  rwa [hbase, ← h.filter_gt hstart] at hdrop

end Contiguous

end SortedMap
