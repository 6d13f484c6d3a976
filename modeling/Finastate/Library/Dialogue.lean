import Mathlib.Logic.Basic

/-!
# Dialogues

A program that acts through calls of its environment is a dialogue: it asks,
goes on with the answer, and in the end has a result or stops. An environment
(`Env`) says on states of any type which calls a program may make and how they
are answered. `Ends` is what a dialogue meets when it makes only these calls and
its result, if it has one, meets the postcondition. It is read off the dialogue
call by call, and composes along `bind`. `Returns` is the same for dialogues
whose result may be an error, which ends them early.
-/

universe u

inductive Dialogue (C R ε α : Type u) : Type u
  | ret (a : α)
  | stop (e : ε)
  | ask (c : C) (next : R → Dialogue C R ε α)

namespace Dialogue

variable {C R ε δ α β σ : Type u}

def bind : Dialogue C R ε α → (α → Dialogue C R ε β) → Dialogue C R ε β
  | ret a, f => f a
  | stop e, _ => stop e
  | ask c next, f => ask c fun r => (next r).bind f

instance : Monad (Dialogue C R ε) where
  pure := ret
  bind := bind

/-- The calls that are allowed in a state, and their answers. -/
structure Env (C R σ : Type u) where
  may : C → σ → Prop
  answers : C → σ → R → σ → Prop

variable (env : Env C R σ)

def Ends : Dialogue C R ε α → σ → (α → σ → Prop) → Prop
  | ret a, s, Q => Q a s
  | stop _, _, _ => True
  | ask c next, s, Q => env.may c s ∧ ∀ r s', env.answers c s r s' → (next r).Ends s' Q

variable {env} {s : σ} {Q Q' : α → σ → Prop}

theorem Ends.mono {d : Dialogue C R ε α} (h : d.Ends env s Q) (hQ : ∀ a s', Q a s' → Q' a s') :
    d.Ends env s Q' := by
  induction d generalizing s with
  | ret a => exact hQ a s h
  | stop e => trivial
  | ask c next ih => exact ⟨h.1, fun r s' hr => ih r (h.2 r s' hr)⟩

theorem ends_bind {d : Dialogue C R ε α} {f : α → Dialogue C R ε β} {P : β → σ → Prop} :
    (d >>= f).Ends env s P ↔ d.Ends env s fun a s' => (f a).Ends env s' P := by
  induction d generalizing s with
  | ret a => exact Iff.rfl
  | stop e => exact Iff.rfl
  | ask c next ih =>
      exact and_congr_right fun _ =>
        forall_congr' fun r => forall_congr' fun s' => imp_congr_right fun _ => ih r

variable (env) in
/-- The result of a dialogue, if it is not an error, meets the postcondition. -/
def Returns (d : ExceptT δ (Dialogue C R ε) α) (s : σ) (Q : α → σ → Prop) : Prop :=
  Ends env d.run s fun r s' => ∀ a, r = .ok a → Q a s'

theorem Returns.mono {d : ExceptT δ (Dialogue C R ε) α} (h : Returns env d s Q)
    (hQ : ∀ a s', Q a s' → Q' a s') : Returns env d s Q' :=
  Ends.mono h fun _ s' hr a ha => hQ a s' (hr a ha)

theorem returns_pure {a : α} :
    Returns env (pure a : ExceptT δ (Dialogue C R ε) α) s Q ↔ Q a s :=
  ⟨fun h => h a rfl, fun h _ ha => Except.ok.inj ha ▸ h⟩

theorem returns_throw {e : δ} : Returns env (throw e : ExceptT δ (Dialogue C R ε) α) s Q := by
  rintro a ⟨⟩

theorem returns_bind {d : ExceptT δ (Dialogue C R ε) α}
    {f : α → ExceptT δ (Dialogue C R ε) β} {P : β → σ → Prop} :
    Returns env (d >>= f) s P ↔ Returns env d s fun a s' => Returns env (f a) s' P := by
  refine ends_bind.trans ⟨fun h => Ends.mono h ?_, fun h => Ends.mono h ?_⟩
  · rintro _ s' hr a rfl
    exact hr
  · intro r s' hr
    cases r with
    | ok a => exact hr a rfl
    | error e =>
        rintro b ⟨⟩

theorem returns_lift {d : Dialogue C R ε α} :
    Returns env (liftM d : ExceptT δ (Dialogue C R ε) α) s Q ↔ d.Ends env s Q := by
  refine ends_bind.trans ⟨fun h => Ends.mono h fun a s' hr => hr a rfl, fun h => Ends.mono h ?_⟩
  rintro a s' hr _ ⟨⟩
  exact hr

end Dialogue
