import Finastate.Contract.Alike

/-!
# Faults of contract runs

A run of contracts that ends in a system error, or in the unwinding of a panic,
leaves no receipt: the error goes up through every caller, and through the batch.
`Fault` names the places where such an error comes from, a step at which the
code of a contract traps or a host function cannot answer.
-/

namespace Finastate.Vm

/-- Nothing on the way up makes a receipt of the error. -/
def VMError.isSystem : VMError → Bool
  | .application _ => false
  | .system _ => true
  | .panic => true

/-- The code ends by itself in an error of the library that is none of the
application, such as a trap. -/
def Process.Traps (process : Process) : Prop :=
  ∃ e : VMError, process = .done (.error e) ∧ e.isSystem

end Finastate.Vm

namespace Finastate.Contract

open Executor Vm Relation

namespace Machine

variable (vm : VM)

/-- The code that goes on if the next host function succeeds. -/
def next? (m : Machine) : Option Process :=
  match m.process with
  | .call c next => (hostCall vm c m.state m.world).result.toOption.map next
  | .execute c next =>
      match enterNested vm c m.world with
      | (w, .error e) => (finishNested vm c m.state w (.error e)).result.toOption.map next
      | (_, .ok (process, _)) => some process
  | .done r =>
      match m.frames with
      | [] => none
      | f :: _ =>
          (finishNested vm f.call f.state m.world.leave
            (r.map fun _ => m.state.output)).result.toOption.map f.next

/-- Where an error comes from that no receipt records: a host function fails
with it (an entry that does not decode), the contract that is called cannot be
looked up, an error aware call fails when there is no nested context to drain, or
the code traps after the step. -/
inductive Fault (m : Machine) : Prop
  | host {c : HostCall} {next : Reply → Process} {e : VMError} (hprocess : m.process = .call c next)
      (hresult : (hostCall vm c m.state m.world).result = .error e) (he : e.isSystem)
  | lookup {c : NestedCall} {next : Reply → Process} {w : CallStack} {e : VMError}
      (hprocess : m.process = .execute c next) (henter : enterNested vm c m.world = (w, .error e))
      (he : e.isSystem)
  | missing {c : NestedCall} {next : Reply → Process} {w : CallStack} {e : VMError}
      (hprocess : m.process = .execute c next) (henter : enterNested vm c m.world = (w, .error e))
      (hea : c.errorShareId.isSome) (hnested : w.nested = [])
  | trap {process : Process} (hnext : m.next? vm = some process) (htraps : process.Traps)

variable {vm} {m m' m₀ : Machine}

theorem traps_resume {o : Outcome} {next : Reply → Process} {frames : List Frame} :
    (resume o next frames).process.Traps ↔
      (∃ process, o.result.toOption.map next = some process ∧ process.Traps) ∨
        ∃ e : VMError, o.result = .error e ∧ e.isSystem := by
  rw [resume]
  cases o.result with
  | ok reply => simp [Except.toOption]
  | error e => simp [Except.toOption, Process.Traps]

/-- Sharing data fails with errors of the application only. -/
theorem not_isSystem_vecToShare {config : VMConfig} {s s' : State} {shareId : Nat} {data : Bytes}
    {e : VMError} (h : s.vecToShare config shareId data = (s', .error e)) :
    e.isSystem = false := by
  unfold State.vecToShare at h
  split at h
  · cases h
    rfl
  · dsimp only at h
    split at h
    · cases h
      rfl
    · cases h

theorem not_isSystem_share {config : VMConfig} {s : State} {w : CallStack} {shareId : Nat}
    {data : Bytes} {reply : Reply} {e : VMError}
    (h : (s.share config w shareId data reply).result = .error e) : e.isSystem = false := by
  unfold State.share at h
  generalize hshare : s.vecToShare config shareId data = out at h
  obtain ⟨s', r⟩ := out
  cases r with
  | ok u => cases h
  | error e' =>
      cases h
      exact not_isSystem_vecToShare hshare

theorem makeErrorAware_isSystem {config : VMConfig} {s : State} {w : CallStack}
    {result : VMResult Unit} {errorShareId : Nat} {e : VMError} (he : e.isSystem) :
    (s.makeErrorAware config w result errorShareId).result = .error e ↔ result = .error e := by
  constructor
  · intro h
    unfold State.makeErrorAware at h
    split at h
    · cases h
    · rw [not_isSystem_share h] at he
      cases he
    · exact congrArg Except.error (Except.error.inj h)
  · rintro rfl
    cases e with
    | application e => cases he
    | system e => rfl
    | panic => rfl

/-- A system error of a callee is one of the call, error aware or not, as long
as there is a nested context. -/
theorem finishNested_isSystem {c : NestedCall} {s : State} {w : CallStack} {result : VMResult Bytes}
    {e : VMError} (he : e.isSystem) (hnested : w.nested ≠ []) :
    (finishNested vm c s w result).result = .error e ↔ result = .error e := by
  have hexecute : ∀ {s' w' r}, finishExecute vm c s w result = (s', w', r) →
      (r = .error e ↔ result = .error e) ∧ w'.nested ≠ [] := by
    intro s' w' r hfinish
    unfold finishExecute at hfinish
    cases result with
    | error e' =>
        cases hfinish
        simp [hnested]
    | ok data =>
        simp only at hfinish
        split at hfinish
        · next s₁ e₁ hshare =>
          cases hfinish
          have hsystem := not_isSystem_vecToShare hshare
          refine ⟨⟨fun h => ?_, nofun⟩, hnested⟩
          rw [Except.error.inj h, he] at hsystem
          cases hsystem
        · split at hfinish
          · next happly =>
            unfold CallStack.nestedApply at happly
            split at happly
            · next hnil => exact absurd hnil hnested
            · cases happly
          · next happly =>
            cases hfinish
            unfold CallStack.nestedApply at happly
            split at happly
            · cases happly
            · cases happly
              simp
  unfold finishNested
  generalize hfinish : finishExecute vm c s w result = out
  obtain ⟨s', w', r⟩ := out
  obtain ⟨hiff, hnested'⟩ := hexecute hfinish
  rw [← hiff]
  cases hea : c.errorShareId with
  | none =>
      cases r with
      | ok u => simp [Except.map]
      | error e' => simp [Except.map]
  | some errorShareId =>
      cases r with
      | ok u => simp [State.makeErrorAware]
      | error e' =>
          simp only
          cases hn : w'.nested with
          | nil => exact absurd hn hnested'
          | cons n nested =>
              rw [CallStack.nestedDrain, hn]
              exact (makeErrorAware_isSystem he).trans (by simp)

/-- Without a callee, the call also fails for want of a nested context. -/
theorem finishNested_error_isSystem {c : NestedCall} {s : State} {w : CallStack} {e : VMError} :
    (∃ e' : VMError, (finishNested vm c s w (.error e)).result = .error e' ∧ e'.isSystem) ↔
      e.isSystem ∨ c.errorShareId.isSome ∧ w.nested = [] := by
  by_cases hnested : w.nested = []
  · unfold finishNested finishExecute
    cases c.errorShareId with
    | none => simp [Except.map]
    | some errorShareId => simp [CallStack.nestedDrain, hnested, VMError.isSystem]
  · simp only [hnested, and_false, or_false]
    constructor
    · rintro ⟨e', hresult, he'⟩
      rw [finishNested_isSystem he' hnested] at hresult
      rwa [Except.error.inj hresult]
    · intro he
      exact ⟨e, (finishNested_isSystem he hnested).2 rfl, he⟩

end Machine

/-! ## Calls and batches -/

namespace Library

variable (lib : Library) (others : Context → Option Address → Call → Context × ModuleResult Bytes)

end Library

end Finastate.Contract
