import Mathlib.Algebra.BigOperators.Group.Finset.Basic
import Mathlib.Algebra.BigOperators.Group.Finset.Piecewise
import Mathlib.Algebra.Order.BigOperators.Group.Finset
import Mathlib.Algebra.Order.Ring.Nat
import Mathlib.Tactic.Common

/-!
# Weighted members and their quorums

A list of pairs `(member, weight)` is read as a map in which a later pair
replaces an earlier one with the same key. When the keys are pairwise distinct
the weights of all keys add up to the total of the list, and a set of members
is measured by the sum of its weights. Two sets that both reach a threshold
`q` with `total + f < 2 * q` meet outside every set of weight at most `f`.
-/

namespace Weights

variable {α : Type*} [DecidableEq α]

/-- The weight listed for `a`; the last pair with this key counts. -/
def weight? : List (α × Nat) → α → Option Nat
  | [], _ => none
  | (b, w) :: members, a =>
      match weight? members a with
      | some v => some v
      | none => if b = a then some w else none

/-- The weight of a set of members. -/
def weightOf (members : List (α × Nat)) (s : Finset α) : Nat :=
  ∑ a ∈ s, (weight? members a).getD 0

/-- The sum of the listed weights. -/
def total (members : List (α × Nat)) : Nat := (members.map Prod.snd).sum

theorem weight?_eq_none_iff (members : List (α × Nat)) (a : α) :
    weight? members a = none ↔ a ∉ members.map Prod.fst := by
  induction members with
  | nil => simp [weight?]
  | cons m members ih =>
      obtain ⟨b, w⟩ := m
      cases h : weight? members a with
      | none =>
          have hnot := ih.1 h
          rw [List.map_cons, List.mem_cons, not_or]
          by_cases hb : b = a
          · simp [weight?, h, hb]
          · simp [weight?, h, hb, hnot, Ne.symm hb]
      | some v =>
          have hmem : a ∈ members.map Prod.fst := by
            by_contra hnot
            rw [ih.2 hnot] at h
            cases h
          simp only [weight?, h, List.map_cons, List.mem_cons, hmem, or_true,
            not_true_eq_false, reduceCtorEq]

theorem weight?_of_mem {members : List (α × Nat)} {a : α} {w : Nat}
    (hnodup : (members.map Prod.fst).Nodup) (hmem : (a, w) ∈ members) :
    weight? members a = some w := by
  induction members with
  | nil => cases hmem
  | cons m members ih =>
      obtain ⟨b, v⟩ := m
      rw [List.map_cons, List.nodup_cons] at hnodup
      rcases List.mem_cons.1 hmem with heq | hrest
      · obtain ⟨rfl, rfl⟩ := Prod.mk.inj heq
        have hnone := (weight?_eq_none_iff members a).2 hnodup.1
        simp [weight?, hnone]
      · simp [weight?, ih hnodup.2 hrest]

/-- With distinct keys the keys of a part of the list weigh the sum of that
part. -/
theorem weightOf_sublist {members part : List (α × Nat)}
    (hnodup : (members.map Prod.fst).Nodup) (hpart : part.Sublist members) :
    weightOf members (part.map Prod.fst).toFinset = total part := by
  have hweight : ∀ m ∈ part, (weight? members m.1).getD 0 = m.2 := by
    intro m hm
    rw [weight?_of_mem (a := m.1) (w := m.2) hnodup (hpart.subset hm), Option.getD_some]
  rw [weightOf, List.sum_toFinset _ (hnodup.sublist (hpart.map _)), List.map_map, total]
  exact congrArg List.sum (List.map_congr_left hweight)

theorem weightOf_mono (members : List (α × Nat)) {s t : Finset α} (h : s ⊆ t) :
    weightOf members s ≤ weightOf members t :=
  Finset.sum_le_sum_of_subset h

theorem weightOf_insert (members : List (α × Nat)) {s : Finset α} {a : α} (h : a ∉ s) :
    weightOf members (insert a s) = (weight? members a).getD 0 + weightOf members s :=
  Finset.sum_insert h

/-- Only the keys of the list weigh anything. -/
theorem weightOf_le_of_keys (members : List (α × Nat)) {s t : Finset α}
    (h : ∀ a ∈ s, a ∈ members.map Prod.fst → a ∈ t) :
    weightOf members s ≤ weightOf members t := by
  have hsplit : weightOf members (s ∩ t) = weightOf members s := by
    apply Finset.sum_subset Finset.inter_subset_left
    intro a ha hnot
    have hkey : a ∉ members.map Prod.fst := by
      intro hmem
      exact hnot (Finset.mem_inter.2 ⟨ha, h a ha hmem⟩)
    rw [(weight?_eq_none_iff members a).2 hkey, Option.getD_none]
  rw [← hsplit]
  exact weightOf_mono members Finset.inter_subset_right

/-- A key that is listed again weighs what its last pair says. -/
theorem weightOf_le_total (members : List (α × Nat)) (s : Finset α) :
    weightOf members s ≤ total members := by
  induction members with
  | nil => simp [weightOf, weight?, total]
  | cons m members ih =>
      obtain ⟨b, w⟩ := m
      have hadd : ∀ a ∈ s, (weight? ((b, w) :: members) a).getD 0 ≤
          (if b = a then w else 0) + (weight? members a).getD 0 := by
        intro a _
        cases h : weight? members a with
        | none => by_cases hb : b = a <;> simp [weight?, h, hb]
        | some v => simp [weight?, h]
      have hone : ∑ a ∈ s, (if b = a then w else 0) ≤ w := by
        rw [Finset.sum_ite_eq]
        split
        · exact le_rfl
        · exact Nat.zero_le w
      calc weightOf ((b, w) :: members) s
          ≤ ∑ a ∈ s, ((if b = a then w else 0) + (weight? members a).getD 0) :=
            Finset.sum_le_sum hadd
        _ = ∑ a ∈ s, (if b = a then w else 0) + weightOf members s := Finset.sum_add_distrib
        _ ≤ w + total members := Nat.add_le_add hone ih

theorem weightOf_union_add_inter (members : List (α × Nat)) (s t : Finset α) :
    weightOf members (s ∪ t) + weightOf members (s ∩ t) =
      weightOf members s + weightOf members t :=
  Finset.sum_union_inter

/-- Two quorums have members of more than `f` in common. -/
theorem lt_weightOf_inter_of_quorums {members : List (α × Nat)} {f q : Nat}
    (hq : total members + f < 2 * q) {s t : Finset α} (hs : q ≤ weightOf members s)
    (ht : q ≤ weightOf members t) : f < weightOf members (s ∩ t) := by
  have hunion := weightOf_le_total members (s ∪ t)
  have hsum := weightOf_union_add_inter members s t
  omega

/-- Two quorums share a member outside any set of weight at most `f`. -/
theorem exists_mem_inter_of_quorums {members : List (α × Nat)} {f q : Nat}
    (hq : total members + f < 2 * q) {s t faulty : Finset α} (hs : q ≤ weightOf members s)
    (ht : q ≤ weightOf members t) (hfaulty : weightOf members faulty ≤ f) :
    ∃ a, a ∈ s ∧ a ∈ t ∧ a ∉ faulty := by
  by_contra hno
  have hsub : s ∩ t ⊆ faulty := by
    intro a ha
    rw [Finset.mem_inter] at ha
    by_contra hnot
    exact hno ⟨a, ha.1, ha.2, hnot⟩
  have hinter := weightOf_mono members hsub
  have hcommon := lt_weightOf_inter_of_quorums hq hs ht
  omega

end Weights
