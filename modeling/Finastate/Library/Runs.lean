import Mathlib.Data.List.Chain
import Mathlib.Data.List.Flatten
import Mathlib.Data.List.Perm.Subperm
import Mathlib.Tactic.Common

/-!
# Runs of numbers and their ranges

An ascending list of numbers is cut into runs, and each run is written down as
its first number and its length. The ranges are apart whatever the runs are.
They cover what the list has, and nothing else, if and only if no run has a gap.
-/

namespace Runs

/-- From the first number on, as many numbers as the range has. -/
def Covers (range : ℕ × ℕ) (n : ℕ) : Prop := range.1 ≤ n ∧ n < range.1 + range.2

instance (range : ℕ × ℕ) (n : ℕ) : Decidable (Covers range n) :=
  inferInstanceAs (Decidable (_ ∧ _))

/-- The first range ends where the second begins, or before. -/
def Before (range range' : ℕ × ℕ) : Prop := range.1 + range.2 ≤ range'.1

theorem Before.not_covers {range range' : ℕ × ℕ} (h : Before range range') {n : ℕ}
    (hn : Covers range n) : ¬ Covers range' n :=
  fun hn' => absurd (hn.2.trans_le (h.trans hn'.1)) (lt_irrefl n)

def toRange (run : List ℕ) : ℕ × ℕ := (run.headI, run.length)

/-- Every number is followed by the next one. -/
def Consecutive (run : List ℕ) : Prop := run.IsChain fun a b => b = a + 1

theorem consecutive_nil : Consecutive [] := List.isChain_nil

theorem consecutive_concat {run : List ℕ} {n : ℕ} :
    Consecutive (run ++ [n]) ↔ Consecutive run ∧ ∀ a ∈ run.getLast?, n = a + 1 := by
  simp [Consecutive, List.isChain_append]

theorem consecutive_range' (n size : ℕ) : Consecutive (List.range' n size) :=
  List.isChain_range' n size 1

theorem Consecutive.eq_range' {run : List ℕ} (h : Consecutive run) :
    run = List.range' run.headI run.length := by
  induction run with
  | nil => rfl
  | cons a run ih =>
      cases run with
      | nil => rfl
      | cons b run =>
          obtain ⟨rfl, hrun⟩ := List.isChain_cons_cons.1 h
          have hih := ih hrun
          rw [List.headI_cons] at hih
          rw [List.headI_cons, List.length_cons, List.range'_succ, ← hih]

theorem Consecutive.mem_iff {run : List ℕ} (h : Consecutive run) {n : ℕ} :
    n ∈ run ↔ Covers (toRange run) n := by
  have hrange : n ∈ run ↔ n ∈ List.range' run.headI run.length := by rw [← h.eq_range']
  exact hrange.trans List.mem_range'_1

/-- A run that ends below a number has no more numbers than there is room for. -/
theorem headI_add_length_le {run : List ℕ} (hne : run ≠ []) (hrun : run.Pairwise (· < ·)) {m : ℕ}
    (hm : ∀ n ∈ run, n < m) : run.headI + run.length ≤ m := by
  induction run with
  | nil => exact absurd rfl hne
  | cons a run ih =>
      cases run with
      | nil => exact hm a List.mem_cons_self
      | cons b run =>
          obtain ⟨ha, htail⟩ := List.pairwise_cons.1 hrun
          have hlt : a < b := ha b List.mem_cons_self
          have hle := ih (List.cons_ne_nil b run) htail fun n hn => hm n (List.mem_cons_of_mem _ hn)
          simp only [List.headI_cons, List.length_cons] at hle ⊢
          omega

/-- A run that has all numbers of its range has no gap. -/
theorem consecutive_of_covers {run : List ℕ} (hrun : run.Pairwise (· < ·))
    (hcovers : ∀ n, Covers (toRange run) n → n ∈ run) : Consecutive run := by
  have hsub : List.range' run.headI run.length ⊆ run := fun n hn =>
    hcovers n (List.mem_range'_1.1 hn)
  have hperm : (List.range' run.headI run.length).Perm run :=
    (List.subperm_of_subset List.nodup_range' hsub).perm_of_length_le (by simp)
  have heq : List.range' run.headI run.length = run :=
    hperm.eq_of_pairwise (fun a b _ _ hab hba => absurd (hab.trans hba) (lt_irrefl a))
      List.pairwise_lt_range' hrun
  rw [← heq]
  exact consecutive_range' _ _

section Cut

variable {runs : List (List ℕ)}

theorem head_mem_flatten {run : List ℕ} (hne : [] ∉ runs) (hrun : run ∈ runs) :
    run.headI ∈ runs.flatten := by
  cases run with
  | nil => exact absurd hrun hne
  | cons a run => exact List.mem_flatten.2 ⟨a :: run, hrun, List.mem_cons_self⟩

/-- The ranges of the runs are in their order and apart. -/
theorem pairwise_before (hne : [] ∉ runs) (hsorted : runs.flatten.Pairwise (· < ·)) :
    (runs.map toRange).Pairwise Before := by
  induction runs with
  | nil => exact List.Pairwise.nil
  | cons run runs ih =>
      obtain ⟨hrun, hrest, hlt⟩ := List.pairwise_append.1 hsorted
      have hne' : [] ∉ runs := fun h => hne (List.mem_cons_of_mem _ h)
      refine List.pairwise_cons.2 ⟨fun range hrange => ?_, ih hne' hrest⟩
      obtain ⟨run', hrun', rfl⟩ := List.mem_map.1 hrange
      have hnil : run ≠ [] := fun h => hne (h ▸ List.mem_cons_self)
      exact headI_add_length_le hnil hrun fun n hn =>
        hlt n hn _ (head_mem_flatten hne' hrun')

/-- What a later run covers is above an earlier run. -/
theorem lt_of_covers {run : List ℕ} (hne : [] ∉ runs)
    (hlt : ∀ a ∈ run, ∀ b ∈ runs.flatten, a < b) {range : ℕ × ℕ}
    (hrange : range ∈ runs.map toRange) {n : ℕ} (hn : Covers range n) : ∀ a ∈ run, a < n := by
  intro a ha
  obtain ⟨run', hrun', rfl⟩ := List.mem_map.1 hrange
  exact (hlt a ha _ (head_mem_flatten hne hrun')).trans_le hn.1

/-- The ranges cover the numbers of the list and no others. -/
def Exact (runs : List (List ℕ)) : Prop :=
  ∀ n, (∃ range ∈ runs.map toRange, Covers range n) ↔ n ∈ runs.flatten

theorem exact_of_consecutive (h : ∀ run ∈ runs, Consecutive run) : Exact runs := by
  intro n
  simp only [List.mem_map, exists_exists_and_eq_and, List.mem_flatten]
  constructor
  · rintro ⟨run, hrun, hn⟩
    exact ⟨run, hrun, (h run hrun).mem_iff.2 hn⟩
  · rintro ⟨run, hrun, hn⟩
    exact ⟨run, hrun, (h run hrun).mem_iff.1 hn⟩

theorem Exact.consecutive (hne : [] ∉ runs) (hsorted : runs.flatten.Pairwise (· < ·))
    (h : Exact runs) : ∀ run ∈ runs, Consecutive run := by
  induction runs with
  | nil => simp
  | cons run runs ih =>
      obtain ⟨hrun, hrest, hlt⟩ := List.pairwise_append.1 hsorted
      have hne' : [] ∉ runs := fun h => hne (List.mem_cons_of_mem _ h)
      have hnil : run ≠ [] := fun h => hne (h ▸ List.mem_cons_self)
      -- what the range of the first run covers is below the other runs
      have hfirst : Consecutive run := by
        refine consecutive_of_covers hrun fun n hn => ?_
        rcases List.mem_append.1 ((h n).1 ⟨toRange run, List.mem_cons_self, hn⟩) with hmem | hmem
        · exact hmem
        · have hle := headI_add_length_le hnil hrun fun a ha => hlt a ha n hmem
          exact absurd (hn.2.trans_le hle) (lt_irrefl n)
      have hexact : Exact runs := by
        intro n
        constructor
        · rintro ⟨range, hrange, hn⟩
          have habove := lt_of_covers hne' hlt hrange hn
          rcases List.mem_append.1 ((h n).1 ⟨range, List.mem_cons_of_mem _ hrange, hn⟩) with
            hmem | hmem
          · exact absurd (habove n hmem) (lt_irrefl n)
          · exact hmem
        · intro hn
          obtain ⟨range, hrange, hcovers⟩ := (h n).2 (List.mem_append_right run hn)
          rcases List.mem_cons.1 hrange with rfl | hrange
          · exact absurd (hlt n (hfirst.mem_iff.2 hcovers) n hn) (lt_irrefl n)
          · exact ⟨range, hrange, hcovers⟩
      intro run' hrun'
      rcases List.mem_cons.1 hrun' with rfl | hrun'
      · exact hfirst
      · exact ih hne' hrest hexact run' hrun'

theorem exact_iff (hne : [] ∉ runs) (hsorted : runs.flatten.Pairwise (· < ·)) :
    Exact runs ↔ ∀ run ∈ runs, Consecutive run :=
  ⟨fun h => h.consecutive hne hsorted, exact_of_consecutive⟩

end Cut

end Runs
