import Mathlib.Data.List.Sort
import Mathlib.Order.Bounds.Basic

/-!
# How many entries reach a value

In a list in descending order the entry at a position is the greatest value that
more entries reach than there are before it. So the middle entry is the greatest
value that more than half of the entries reach, for lists of even and of odd
length.
-/

namespace Reached

variable {α : Type*} [LinearOrder α] {l l' : List α} {i : α} {k : ℕ}

/-- The number of entries that are at least `i`. -/
def count (l : List α) (i : α) : ℕ := l.countP fun a => i ≤ a

@[simp] theorem count_cons (a : α) (l : List α) (i : α) :
    count (a :: l) i = count l i + if i ≤ a then 1 else 0 := by
  simp [count, List.countP_cons]

/-- A lower value is reached by no fewer entries. -/
theorem count_antitone (l : List α) : Antitone (count l) := fun _ _ hle =>
  List.countP_mono_left fun _ _ ha => decide_eq_true (hle.trans (of_decide_eq_true ha))

theorem count_eq_zero_iff : count l i = 0 ↔ ∀ a ∈ l, a < i := by
  simp [count, List.countP_eq_zero]

theorem count_perm (h : l.Perm l') (i : α) : count l i = count l' i :=
  h.countP_eq _

/-- An entry of a descending list is reached by those before it and itself. -/
theorem le_getElem_iff (h : l.SortedGE) (hk : k < l.length) : i ≤ l[k] ↔ k < count l i := by
  have hpairwise := h.pairwise
  clear h
  induction l generalizing k with
  | nil => exact absurd hk (Nat.not_lt_zero k)
  | cons a l ih =>
      have hhead : ∀ b ∈ l, b ≤ a := fun b hb => List.rel_of_pairwise_cons hpairwise hb
      have htail := hpairwise.of_cons
      by_cases ha : i ≤ a
      · rw [count_cons, if_pos ha]
        cases k with
        | zero => simp [ha]
        | succ k =>
            rw [List.getElem_cons_succ]
            exact (ih (Nat.lt_of_succ_lt_succ hk) htail).trans Nat.succ_lt_succ_iff.symm
      · have hnone : count (a :: l) i = 0 := by
          rw [count_eq_zero_iff]
          intro b hb
          rcases List.mem_cons.1 hb with rfl | hb
          · exact not_le.1 ha
          · exact (hhead b hb).trans_lt (not_le.1 ha)
        have hle : (a :: l)[k] ≤ a := by
          rcases List.mem_cons.1 (List.getElem_mem hk) with heq | hmem
          · exact heq.le
          · exact hhead _ hmem
        rw [hnone]
        exact iff_of_false (fun hi => ha (hi.trans hle)) (Nat.not_lt_zero k)

/-- More than half of the entries are at least `i`. -/
def ByMajority (l : List α) (i : α) : Prop := l.length < 2 * count l i

instance (l : List α) (i : α) : Decidable (ByMajority l i) :=
  inferInstanceAs (Decidable (_ < _))

theorem ByMajority.of_le {j : α} (h : ByMajority l i) (hle : j ≤ i) : ByMajority l j :=
  Nat.lt_of_lt_of_le h (Nat.mul_le_mul_left 2 (count_antitone l hle))

theorem byMajority_perm (h : l.Perm l') : ByMajority l i ↔ ByMajority l' i := by
  rw [ByMajority, ByMajority, h.length_eq, count_perm h]

/-- The middle entry of a descending list. -/
theorem le_getElem_half_iff (h : l.SortedGE) (hk : l.length / 2 < l.length) :
    i ≤ l[l.length / 2] ↔ ByMajority l i := by
  rw [le_getElem_iff h hk, ByMajority]
  omega

theorem isGreatest_getElem_half (h : l.SortedGE) (hk : l.length / 2 < l.length) :
    IsGreatest {i | ByMajority l i} l[l.length / 2] :=
  ⟨(le_getElem_half_iff h hk).1 le_rfl, fun _ hi => (le_getElem_half_iff h hk).2 hi⟩

end Reached
