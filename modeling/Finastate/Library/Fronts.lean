import Mathlib.Data.List.Infix
import Mathlib.Tactic.Common

/-!
# Keys with a front and a back

A key is the front of its family followed by a back of its own. Two families
never share a key if their fronts diverge somewhere, or if all their backs
have one length but their fronts do not.
-/

namespace Fronts

variable {α : Type*}

/-- Neither list is a front part of the other. -/
def Diverge (a b : List α) : Prop := ¬ a <+: b ∧ ¬ b <+: a

instance [DecidableEq α] (a b : List α) : Decidable (Diverge a b) :=
  inferInstanceAs (Decidable (¬ a <+: b ∧ ¬ b <+: a))

theorem Diverge.append_ne {a b : List α} (h : Diverge a b) (s t : List α) : a ++ s ≠ b ++ t := by
  intro heq
  have ha : a <+: b ++ t := heq ▸ List.prefix_append a s
  have hb : b <+: b ++ t := List.prefix_append b t
  rcases List.prefix_or_prefix_of_prefix ha hb with hab | hba
  · exact h.1 hab
  · exact h.2 hba

theorem Diverge.ne {a b : List α} (h : Diverge a b) : a ≠ b := by
  rintro rfl
  exact h.1 (List.prefix_refl a)

variable {ι κ : Type*}

/-- The fronts of two families diverge, or they have different lengths while
the backs of both are of one shape. -/
def Separated (front : ι → List α) (shape : ι → κ) : Prop :=
  ∀ i j, i ≠ j → Diverge (front i) (front j) ∨
    shape i = shape j ∧ (front i).length ≠ (front j).length

theorem Separated.injective {front : ι → List α} {shape : ι → κ} (h : Separated front shape) :
    Function.Injective front := by
  intro i j heq
  by_contra hij
  rcases h i j hij with hdiverge | ⟨-, hlength⟩
  · exact hdiverge.ne heq
  · exact hlength (congrArg List.length heq)

theorem Separated.diverge {front : ι → List α} {shape : ι → κ} (h : Separated front shape)
    {i j : ι} (hshape : shape i ≠ shape j) : Diverge (front i) (front j) := by
  rcases h i j (fun hij => hshape (congrArg shape hij)) with hdiverge | ⟨heq, -⟩
  · exact hdiverge
  · exact absurd heq hshape

/-- A key determines its family and its back. -/
theorem Separated.append_inj {front : ι → List α} {shape : ι → κ} (h : Separated front shape)
    {i j : ι} {s t : List α} (hlength : i ≠ j → shape i = shape j → s.length = t.length)
    (heq : front i ++ s = front j ++ t) : i = j ∧ s = t := by
  by_cases hij : i = j
  · subst hij
    exact ⟨rfl, List.append_cancel_left heq⟩
  · rcases h i j hij with hdiverge | ⟨hshape, hne⟩
    · exact absurd heq (hdiverge.append_ne s t)
    · have hlen := congrArg List.length heq
      rw [List.length_append, List.length_append, hlength hij hshape] at hlen
      exact absurd (Nat.add_right_cancel hlen) hne

end Fronts
