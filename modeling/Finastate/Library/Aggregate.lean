import Finastate.Library.Weights
import Mathlib.Algebra.BigOperators.Group.Finset.Piecewise

/-!
# Adding up weights by key

A list of pairs `(key, weight)` may name a key more than once. `sumOf` is the
sum of all weights of a key, `carriers` are the keys that have one, in the order
in which they first get it. `Aggregates` says that a list is the sums of another
one, and there is one such list.
-/

namespace Weights

variable {α : Type*} [DecidableEq α] {members output : List (α × ℕ)} {a : α}

/-- The sum of the weights listed for `a`. -/
def sumOf (members : List (α × ℕ)) (a : α) : ℕ :=
  (members.map fun m => if m.1 = a then m.2 else 0).sum

/-- The keys with a weight, in the order of their first one. -/
def carriers (members : List (α × ℕ)) : List α :=
  ((members.filter fun m => 0 < m.2).map Prod.fst).eraseDups

@[simp] theorem sumOf_nil (a : α) : sumOf [] a = 0 := rfl

@[simp] theorem sumOf_cons (m : α × ℕ) (members : List (α × ℕ)) (a : α) :
    sumOf (m :: members) a = (if m.1 = a then m.2 else 0) + sumOf members a := by
  simp [sumOf]

theorem sumOf_append (members members' : List (α × ℕ)) (a : α) :
    sumOf (members ++ members') a = sumOf members a + sumOf members' a := by
  simp [sumOf]

theorem sumOf_concat (members : List (α × ℕ)) (m : α × ℕ) (a : α) :
    sumOf (members ++ [m]) a = sumOf members a + if m.1 = a then m.2 else 0 := by
  rw [sumOf_append, sumOf_cons, sumOf_nil, Nat.add_zero]

theorem mem_carriers_iff : a ∈ carriers members ↔ 0 < sumOf members a := by
  simp only [carriers, List.mem_eraseDups, List.mem_map, List.mem_filter, decide_eq_true_eq]
  induction members with
  | nil => simp
  | cons m members ih =>
      rw [sumOf_cons]
      constructor
      · rintro ⟨m', ⟨hmem, hpos⟩, rfl⟩
        rcases List.mem_cons.1 hmem with rfl | hrest
        · rw [if_pos rfl]
          exact Nat.add_pos_left hpos _
        · exact Nat.add_pos_right _ (ih.1 ⟨m', ⟨hrest, hpos⟩, rfl⟩)
      · intro hpos
        by_cases hm : m.1 = a ∧ 0 < m.2
        · exact ⟨m, ⟨List.mem_cons_self, hm.2⟩, hm.1⟩
        · have hzero : (if m.1 = a then m.2 else 0) = 0 := by
            split
            · next hkey => exact Nat.eq_zero_of_not_pos fun hm' => hm ⟨hkey, hm'⟩
            · rfl
          rw [hzero, Nat.zero_add] at hpos
          obtain ⟨m', ⟨hmem, hpos'⟩, hkey⟩ := ih.2 hpos
          exact ⟨m', ⟨List.mem_cons_of_mem m hmem, hpos'⟩, hkey⟩

theorem mem_map_fst_of_sumOf_pos (h : 0 < sumOf members a) : a ∈ members.map Prod.fst := by
  have hmem := mem_carriers_iff.2 h
  rw [carriers, List.mem_eraseDups] at hmem
  exact List.map_subset Prod.fst (List.filter_subset_self members) hmem

theorem carriers_concat_zero {m : α × ℕ} (h : ¬ 0 < m.2) :
    carriers (members ++ [m]) = carriers members := by
  simp [carriers, List.filter_append, h]

theorem carriers_concat_of_mem {m : α × ℕ} (h : 0 < m.2) (hmem : m.1 ∈ carriers members) :
    carriers (members ++ [m]) = carriers members := by
  rw [carriers, List.mem_eraseDups] at hmem
  simp only [carriers, List.filter_append, List.map_append, List.eraseDups_append]
  simp [h, List.removeAll, hmem]

theorem carriers_concat_of_notMem {m : α × ℕ} (h : 0 < m.2) (hmem : m.1 ∉ carriers members) :
    carriers (members ++ [m]) = carriers members ++ [m.1] := by
  rw [carriers, List.mem_eraseDups] at hmem
  simp only [carriers, List.filter_append, List.map_append, List.eraseDups_append]
  simp [h, List.removeAll, hmem, List.eraseDups_cons]

theorem nodup_carriers (members : List (α × ℕ)) : (carriers members).Nodup := by
  induction members using List.reverseRecOn with
  | nil => exact List.nodup_nil
  | append_singleton members m ih =>
      by_cases hpos : 0 < m.2
      · by_cases hmem : m.1 ∈ carriers members
        · rw [carriers_concat_of_mem hpos hmem]
          exact ih
        · rw [carriers_concat_of_notMem hpos hmem]
          rw [← List.concat_eq_append]
          exact (List.nodup_concat _ _).2 ⟨hmem, ih⟩
      · rw [carriers_concat_zero hpos]
        exact ih

/-- Each sum as the weight of its key. -/
def sums (members : List (α × ℕ)) : List (α × ℕ) :=
  (carriers members).map fun a => (a, sumOf members a)

theorem map_fst_sums (members : List (α × ℕ)) :
    (sums members).map Prod.fst = carriers members := by
  rw [sums, List.map_map]
  exact List.map_id _

theorem sums_concat_zero {m : α × ℕ} (h : ¬ 0 < m.2) : sums (members ++ [m]) = sums members := by
  rw [sums, carriers_concat_zero h]
  refine List.map_congr_left fun a _ => congrArg _ ?_
  rw [sumOf_concat, Nat.eq_zero_of_not_pos h, ite_self, Nat.add_zero]

theorem sums_concat_of_mem {m : α × ℕ} (h : 0 < m.2) (hmem : m.1 ∈ carriers members) :
    sums (members ++ [m]) = (carriers members).map fun a =>
      (a, if m.1 = a then sumOf members a + m.2 else sumOf members a) := by
  rw [sums, carriers_concat_of_mem h hmem]
  refine List.map_congr_left fun a _ => congrArg _ ?_
  rw [sumOf_concat]
  split
  · rfl
  · rfl

theorem sums_concat_of_notMem {m : α × ℕ} (h : 0 < m.2) (hmem : m.1 ∉ carriers members) :
    sums (members ++ [m]) = sums members ++ [m] := by
  have hzero : sumOf members m.1 = 0 :=
    Nat.eq_zero_of_not_pos fun hpos => hmem (mem_carriers_iff.2 hpos)
  rw [sums, carriers_concat_of_notMem h hmem, List.map_append]
  congr 1
  · refine List.map_congr_left fun a ha => congrArg _ ?_
    have hne : m.1 ≠ a := fun heq => hmem (heq ▸ ha)
    rw [sumOf_concat, if_neg hne, Nat.add_zero]
  · rw [List.map_singleton, sumOf_concat, if_pos rfl, hzero, Nat.zero_add]

/-- The sums over a set that has all keys with a weight. -/
theorem sum_sumOf {s : Finset α} (h : ∀ m ∈ members, 0 < m.2 → m.1 ∈ s) :
    ∑ a ∈ s, sumOf members a = total members := by
  induction members with
  | nil => simp [total]
  | cons m members ih =>
      have hrest := ih fun m' hm' => h m' (List.mem_cons_of_mem m hm')
      have hone : ∑ a ∈ s, (if m.1 = a then m.2 else 0) = m.2 := by
        rw [Finset.sum_ite_eq]
        split
        · rfl
        · next hnot =>
          exact (Nat.eq_zero_of_not_pos fun hpos => hnot (h m List.mem_cons_self hpos)).symm
      simp only [sumOf_cons, Finset.sum_add_distrib, hone, hrest]
      rfl

theorem total_sums (members : List (α × ℕ)) : total (sums members) = total members := by
  rw [total, sums, List.map_map]
  have hsum := List.sum_toFinset (sumOf members) (nodup_carriers members)
  refine hsum.symm.trans (sum_sumOf fun m hm hpos => ?_)
  rw [List.mem_toFinset, mem_carriers_iff]
  have hle : (if m.1 = m.1 then m.2 else 0) ≤ sumOf members m.1 :=
    List.le_sum_of_mem (List.mem_map_of_mem hm)
  rw [if_pos rfl] at hle
  exact hpos.trans_le hle

/-- Every key with a weight is there once, in the order of the first weights,
with the sum of its weights. -/
structure Aggregates (members output : List (α × ℕ)) : Prop where
  once : (output.map Prod.fst).Nodup
  mem : ∀ a, a ∈ output.map Prod.fst ↔ sumOf members a ≠ 0
  order : output.map Prod.fst = carriers members
  weight : ∀ m ∈ output, m.2 = sumOf members m.1
  total : total output = total members

theorem aggregates_sums (members : List (α × ℕ)) : Aggregates members (sums members) where
  once := by
    rw [map_fst_sums]
    exact nodup_carriers members
  mem a := by
    rw [map_fst_sums, mem_carriers_iff, Nat.pos_iff_ne_zero]
  order := map_fst_sums members
  weight m hm := by
    obtain ⟨a, -, rfl⟩ := List.mem_map.1 hm
    rfl
  total := total_sums members

theorem aggregates_iff : Aggregates members output ↔ output = sums members := by
  constructor
  · intro h
    have hself : ∀ m ∈ output, (m.1, sumOf members m.1) = m := fun m hm =>
      Prod.ext rfl (h.weight m hm).symm
    rw [sums, ← h.order, List.map_map]
    exact ((List.map_congr_left hself).trans (List.map_id output)).symm
  · rintro rfl
    exact aggregates_sums members

end Weights
