import Mathlib.Algebra.BigOperators.Finprod
import Mathlib.Algebra.BigOperators.Group.Finset.Piecewise

/-!
# Ledgers

A ledger gives every account a balance and its total is the sum over all
accounts. When only some accounts change, the total stays as it is exactly when
these hold the same together as before. So moving an amount from one account to
another keeps the total.
-/

namespace Ledger

variable {ι : Type*} {before after : ι → ℕ} {sender recipient : ι} {value : ℕ}

/-- The sum of all balances. -/
noncomputable def total (balance : ι → ℕ) : ℕ := ∑ᶠ i, balance i

/-- Two ledgers that agree outside of a set are carried by the same accounts there. -/
theorem support_subset_union {f g : ι → ℕ} {s : Set ι} (h : ∀ i ∉ s, g i = f i) :
    Function.support f ⊆ Function.support g ∪ s := by
  intro i hi
  by_cases hs : i ∈ s
  · exact Or.inr hs
  · left
    rw [Function.mem_support] at hi ⊢
    rwa [h i hs]

section Frame

variable {s : Finset ι}

theorem support_finite_iff (hframe : ∀ i ∉ s, after i = before i) :
    (Function.support after).Finite ↔ (Function.support before).Finite := by
  constructor
  · intro hfin
    exact (hfin.union s.finite_toSet).subset (support_subset_union hframe)
  · intro hfin
    exact (hfin.union s.finite_toSet).subset
      (support_subset_union fun i hi => (hframe i hi).symm)

/-- What the total changes by is what the accounts of the set change by together. -/
theorem total_add_sum (hframe : ∀ i ∉ s, after i = before i)
    (hfin : (Function.support before).Finite) :
    total after + ∑ i ∈ s, before i = total before + ∑ i ∈ s, after i := by
  classical
  have hcover : Function.support before ⊆ ↑(hfin.toFinset ∪ s) := by
    intro i hi
    simp [Function.mem_support.1 hi]
  have hcover' : Function.support after ⊆ ↑(hfin.toFinset ∪ s) := by
    have hunion := support_subset_union fun i hi => (hframe i hi).symm
    simpa using hunion
  have hsubset : s ⊆ hfin.toFinset ∪ s := Finset.subset_union_right
  have hrest : ∑ i ∈ (hfin.toFinset ∪ s) \ s, after i =
      ∑ i ∈ (hfin.toFinset ∪ s) \ s, before i :=
    Finset.sum_congr rfl fun i hi => hframe i (Finset.mem_sdiff.1 hi).2
  rw [total, total, finsum_eq_sum_of_support_subset _ hcover,
    finsum_eq_sum_of_support_subset _ hcover', ← Finset.sum_sdiff hsubset,
    ← Finset.sum_sdiff (f := before) hsubset, hrest]
  exact Nat.add_right_comm _ _ _

theorem total_eq_iff (hframe : ∀ i ∉ s, after i = before i)
    (hfin : (Function.support before).Finite) :
    total after = total before ↔ ∑ i ∈ s, after i = ∑ i ∈ s, before i := by
  have hadd := total_add_sum hframe hfin
  omega

/-- This direction needs no finiteness: the balances before have finite support exactly
when those after do. -/
theorem total_eq_of_sum_eq (hframe : ∀ i ∉ s, after i = before i)
    (hsum : ∑ i ∈ s, after i = ∑ i ∈ s, before i) : total after = total before := by
  by_cases hfin : (Function.support before).Finite
  · exact (total_eq_iff hframe hfin).2 hsum
  · have hafter : ¬ (Function.support after).Finite := fun h =>
      hfin ((support_finite_iff hframe).1 h)
    rw [total, total, finsum_of_infinite_support hfin, finsum_of_infinite_support hafter]

end Frame

/-- `value` goes from the one account to the other and no other balance
changes. -/
structure Moved (before after : ι → ℕ) (sender recipient : ι) (value : ℕ) : Prop where
  ne : sender ≠ recipient
  debit : after sender + value = before sender
  credit : after recipient = before recipient + value
  frame : ∀ i, i ≠ sender → i ≠ recipient → after i = before i

/-- A move keeps the total. -/
theorem Moved.total_eq (h : Moved before after sender recipient value) :
    total after = total before := by
  classical
  have hframe : ∀ i ∉ ({sender, recipient} : Finset ι), after i = before i := by
    intro i hi
    rw [Finset.mem_insert, Finset.mem_singleton, not_or] at hi
    exact h.frame i hi.1 hi.2
  refine total_eq_of_sum_eq hframe ?_
  have hdebit := h.debit
  have hcredit := h.credit
  rw [Finset.sum_pair h.ne, Finset.sum_pair h.ne]
  omega

end Ledger
