import Mathlib.Data.List.Count
import Mathlib.Data.List.Nodup
import Mathlib.Tactic.Common

/-!
# Linked maps

A hash map whose entries are linked in the order in which their keys were last
inserted. It is the list of its entries, oldest first, with every key once.
Inserting a key that is there moves it to the end.
-/

structure LinkedMap (κ ν : Type*) where
  entries : List (κ × ν)
  nodup : (entries.map Prod.fst).Nodup

namespace LinkedMap

variable {κ ν : Type*}

@[ext] theorem ext {m m' : LinkedMap κ ν} (h : m.entries = m'.entries) : m = m' := by
  cases m
  cases m'
  cases h
  rfl

def empty : LinkedMap κ ν := ⟨[], List.nodup_nil⟩

def keys (m : LinkedMap κ ν) : List κ := m.entries.map Prod.fst

section

variable {m : LinkedMap κ ν} {k : κ} {v : ν} {e : κ × ν} (p : κ × ν → Bool)

theorem mem_keys_of_mem (h : e ∈ m.entries) : e.1 ∈ m.keys := List.mem_map_of_mem h

theorem mem_keys : k ∈ m.keys ↔ ∃ v, (k, v) ∈ m.entries := by simp [keys]

/-- Every key has one entry. -/
theorem eq_of_mem {v' : ν} (h : (k, v) ∈ m.entries) (h' : (k, v') ∈ m.entries) : v = v' := by
  have heq := List.inj_on_of_nodup_map m.nodup h h' rfl
  exact congrArg Prod.snd heq

/-- How many entries satisfy `p`. -/
def count (m : LinkedMap κ ν) : Nat := m.entries.countP p

theorem count_pos_iff : 0 < m.count p ↔ ∃ e ∈ m.entries, p e = true := List.countP_pos_iff

theorem count_true (m : LinkedMap κ ν) : m.count (fun _ => true) = m.entries.length :=
  congrFun List.countP_true m.entries

theorem length_congr {m' : LinkedMap κ ν} (h : ∀ k, k ∈ m.keys ↔ k ∈ m'.keys) :
    m.entries.length = m'.entries.length := by
  have hperm : m.keys.Perm m'.keys := (List.perm_ext_iff_of_nodup m.nodup m'.nodup).2 h
  simpa [keys] using hperm.length_eq

/-- The entries that satisfy `p`. -/
def retain (m : LinkedMap κ ν) (p : κ → ν → Bool) : LinkedMap κ ν where
  entries := m.entries.filter fun e => p e.1 e.2
  nodup := m.nodup.sublist (List.filter_sublist.map _)

@[simp] theorem mem_entries_retain {p : κ → ν → Bool} :
    e ∈ (m.retain p).entries ↔ e ∈ m.entries ∧ p e.1 e.2 = true := List.mem_filter

theorem mem_keys_retain {p : κ → Bool} :
    k ∈ (m.retain fun k _ => p k).keys ↔ k ∈ m.keys ∧ p k = true := by
  simp only [mem_keys, mem_entries_retain, exists_and_right]

end

variable [DecidableEq κ]

instance [DecidableEq ν] : DecidableEq (LinkedMap κ ν) :=
  fun _ _ => decidable_of_iff _ LinkedMap.ext_iff.symm

def get? (m : LinkedMap κ ν) (k : κ) : Option ν :=
  (m.entries.find? fun e => e.1 = k).map Prod.snd

def contains (m : LinkedMap κ ν) (k : κ) : Bool := decide (k ∈ m.keys)

def remove (m : LinkedMap κ ν) (k : κ) : LinkedMap κ ν where
  entries := m.entries.filter fun e => e.1 ≠ k
  nodup := m.nodup.sublist (List.filter_sublist.map _)

def insert (m : LinkedMap κ ν) (k : κ) (v : ν) : LinkedMap κ ν where
  entries := (m.remove k).entries ++ [(k, v)]
  nodup := by
    rw [List.map_append, List.map_singleton, List.nodup_append]
    refine ⟨(m.remove k).nodup, List.nodup_singleton k, ?_⟩
    rintro a ha b hb rfl
    obtain ⟨e, he, rfl⟩ := List.mem_map.1 ha
    have hne := (List.mem_filter.1 he).2
    simp only [decide_eq_true_eq] at hne
    exact hne (List.mem_singleton.1 hb)

/-- The pairs of a list, inserted one by one. -/
def extend (m : LinkedMap κ ν) (items : List (κ × ν)) : LinkedMap κ ν :=
  items.foldl (fun m e => m.insert e.1 e.2) m

variable {m : LinkedMap κ ν} {k k' : κ} {v : ν} {e : κ × ν}

@[simp] theorem contains_iff : m.contains k = true ↔ k ∈ m.keys := decide_eq_true_iff

@[simp] theorem mem_entries_remove : e ∈ (m.remove k).entries ↔ e ∈ m.entries ∧ e.1 ≠ k := by
  simp [remove]

@[simp] theorem mem_entries_insert :
    e ∈ (m.insert k v).entries ↔ e ∈ m.entries ∧ e.1 ≠ k ∨ e = (k, v) := by
  simp [insert]

@[simp] theorem mem_keys_remove : k' ∈ (m.remove k).keys ↔ k' ∈ m.keys ∧ k' ≠ k := by
  simp only [mem_keys, mem_entries_remove]
  constructor
  · rintro ⟨v, hv, hne⟩
    exact ⟨⟨v, hv⟩, hne⟩
  · rintro ⟨⟨v, hv⟩, hne⟩
    exact ⟨v, hv, hne⟩

@[simp] theorem mem_keys_insert : k' ∈ (m.insert k v).keys ↔ k' ∈ m.keys ∨ k' = k := by
  simp only [mem_keys, mem_entries_insert, Prod.mk.injEq]
  constructor
  · rintro ⟨w, ⟨hw, -⟩ | ⟨rfl, -⟩⟩
    · exact Or.inl ⟨w, hw⟩
    · exact Or.inr rfl
  · rintro (⟨w, hw⟩ | rfl)
    · by_cases hk : k' = k
      · exact ⟨v, Or.inr ⟨hk, rfl⟩⟩
      · exact ⟨w, Or.inl ⟨hw, hk⟩⟩
    · exact ⟨v, Or.inr ⟨rfl, rfl⟩⟩

theorem get?_eq_some_iff : m.get? k = some v ↔ (k, v) ∈ m.entries := by
  rw [get?, Option.map_eq_some_iff]
  constructor
  · rintro ⟨e, he, rfl⟩
    have hk : e.1 = k := by simpa using List.find?_some he
    exact hk ▸ List.mem_of_find?_eq_some he
  · intro hmem
    have hsome : (m.entries.find? fun e => e.1 = k).isSome := by
      rw [List.find?_isSome]
      exact ⟨(k, v), hmem, by simp⟩
    obtain ⟨e, he⟩ := Option.isSome_iff_exists.1 hsome
    have hk : e.1 = k := by simpa using List.find?_some he
    have hmem' : (k, e.2) ∈ m.entries := hk ▸ List.mem_of_find?_eq_some he
    exact ⟨e, he, eq_of_mem hmem' hmem⟩

theorem get?_eq_none_iff : m.get? k = none ↔ k ∉ m.keys := by
  rw [mem_keys, ← not_iff_not, not_not, ← ne_eq, Option.ne_none_iff_exists']
  exact exists_congr fun v => get?_eq_some_iff

theorem remove_of_notMem (h : k ∉ m.keys) : m.remove k = m := by
  apply LinkedMap.ext
  apply List.filter_eq_self.2
  intro e he
  simp only [decide_eq_true_eq]
  rintro rfl
  exact h (mem_keys_of_mem he)

/-! ## Counting -/

section Count

variable (p : κ × ν → Bool)

/-- An entry is removed and counted no more. -/
theorem count_remove_of_mem (h : (k, v) ∈ m.entries) :
    (m.remove k).count p + (if p (k, v) then 1 else 0) = m.count p := by
  obtain ⟨entries, hnodup⟩ := m
  simp only [count, remove] at h ⊢
  induction entries with
  | nil => cases h
  | cons e entries ih =>
      obtain ⟨he, hrest⟩ := List.nodup_cons.1 hnodup
      rcases List.mem_cons.1 h with rfl | hmem
      · have hkeep : entries.filter (fun e => e.1 ≠ k) = entries := by
          apply List.filter_eq_self.2
          intro e hmem
          simp only [decide_eq_true_eq]
          rintro rfl
          have hkey : e.1 ∈ entries.map Prod.fst := List.mem_map_of_mem hmem
          exact he hkey
        rw [List.filter_cons_of_neg (by simp), hkeep, List.countP_cons]
      · have hne : e.1 ≠ k := by
          rintro rfl
          have hkey : (e.1, v).1 ∈ entries.map Prod.fst := List.mem_map_of_mem hmem
          exact he hkey
        have hih := ih hrest hmem
        rw [List.filter_cons_of_pos (by simpa using hne), List.countP_cons, List.countP_cons, ← hih]
        omega

theorem count_remove_of_notMem (h : k ∉ m.keys) : (m.remove k).count p = m.count p := by
  rw [remove_of_notMem h]

theorem count_insert (m : LinkedMap κ ν) (k : κ) (v : ν) :
    (m.insert k v).count p = (m.remove k).count p + (if p (k, v) then 1 else 0) := by
  simp [count, insert, List.countP_append, List.countP_singleton]

/-- A new entry is counted. -/
theorem count_insert_of_notMem (h : k ∉ m.keys) :
    (m.insert k v).count p = m.count p + (if p (k, v) then 1 else 0) := by
  rw [count_insert, count_remove_of_notMem p h]

theorem length_remove (h : k ∈ m.keys) :
    (m.remove k).entries.length + 1 = m.entries.length := by
  obtain ⟨v, hv⟩ := mem_keys.1 h
  have hcount := count_remove_of_mem (fun _ => true) hv
  rw [count_true, count_true] at hcount
  exact hcount

theorem length_insert_le (m : LinkedMap κ ν) (k : κ) (v : ν) :
    (m.insert k v).entries.length ≤ m.entries.length + 1 := by
  have hle : (m.remove k).entries.length ≤ m.entries.length := List.length_filter_le _ _
  rw [insert, List.length_append]
  exact Nat.succ_le_succ hle

/-- It does not matter whether a key is removed before it is inserted. -/
theorem insert_remove_self (m : LinkedMap κ ν) (k : κ) (v : ν) :
    (m.remove k).insert k v = m.insert k v := by
  apply LinkedMap.ext
  simp [insert, remove]

end Count

end LinkedMap
