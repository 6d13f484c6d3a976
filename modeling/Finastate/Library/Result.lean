import Mathlib.Tactic.Common

/-!
# Results

How a computation that may fail is taken apart: a sequence succeeds exactly
when each of its parts does.
-/

namespace Result

theorem bind_eq_ok {ε α β : Type*} {x : Except ε α} {f : α → Except ε β} {b : β} :
    x.bind f = .ok b ↔ ∃ a, x = .ok a ∧ f a = .ok b := by
  cases x with
  | error e =>
      constructor
      · intro h
        cases h
      · rintro ⟨a, ha, -⟩
        cases ha
  | ok a => simp [Except.bind]

/-- An error of no part is no error of the whole. -/
theorem bind_ne_error {ε α β : Type*} {x : Except ε α} {f : α → Except ε β} {e : ε}
    (hx : x ≠ .error e) (hf : ∀ a, f a ≠ .error e) : x.bind f ≠ .error e := by
  cases x with
  | error e' =>
      rintro ⟨⟩
      exact hx rfl
  | ok a => exact hf a

theorem map_bind {ε α β γ : Type*} (x : Except ε α) (f : α → Except ε β) (g : β → γ) :
    (x.bind f).map g = x.bind fun a => (f a).map g := by
  cases x with
  | error e => rfl
  | ok a => rfl

/-- What follows is only reached from a result. -/
theorem bind_congr {ε α β : Type*} {x : Except ε α} {f g : α → Except ε β}
    (h : ∀ a, x = .ok a → f a = g a) : x.bind f = x.bind g := by
  cases x with
  | error e => rfl
  | ok a => exact h a rfl

/-- The result of a computation that succeeds. -/
def get {ε α : Type*} : (x : Except ε α) → x.isOk = true → α
  | .ok a, _ => a

theorem eq_ok_get {ε α : Type*} (x : Except ε α) (h : x.isOk = true) : x = .ok (get x h) := by
  cases x with
  | error e => cases h
  | ok a => rfl

end Result
