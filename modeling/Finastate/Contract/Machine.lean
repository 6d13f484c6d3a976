import Finastate.Contract.Effects
import Mathlib.Logic.Relation

/-!
# Running contracts

`run` runs a contract as the source does: a nested call runs the callee to its
end before the caller goes on. Nesting is bounded by `max_nest_depth`, which is
what makes it total. `Machine` is the same execution one host call at a time,
with the waiting callers on a list of frames, so that one can speak about
every state of an execution. `run_steps` connects the two: the machine walks
from the start of a run to its end, whatever callers wait.
-/

namespace Finastate.Contract

open Executor Vm Relation

variable (vm : VM)

/-- How a run of a contract ends. -/
structure Final where
  state : State
  world : CallStack
  result : VMResult Unit

/-- `State::result` of a run, for its caller. -/
def Final.output (f : Final) : VMResult Bytes := f.result.map fun _ => f.state.output

/-- A run, given how the runs of its callees go. -/
def runWith (nested : Process → State → CallStack → Final) :
    Process → State → CallStack → Final
  | .done r, s, w => { state := s, world := w, result := r }
  | .call c next, s, w =>
      let o := hostCall vm c s w
      match o.result with
      | .ok reply => runWith nested (next reply) o.state o.world
      | .error e => { state := o.state, world := o.world, result := .error e }
  | .execute c next, s, w =>
      let o :=
        match enterNested vm c w with
        | (w, .error e) => finishNested vm c s w (.error e)
        | (w, .ok (process, state)) =>
            let f := nested process state w
            finishNested vm c s f.world.leave f.output
      match o.result with
      | .ok reply => runWith nested (next reply) o.state o.world
      | .error e => { state := o.state, world := o.world, result := .error e }

/-- `VM::run` with at most `n` contexts below the running one. -/
def run : Nat → Process → State → CallStack → Final
  | 0 => runWith vm fun _ s w =>
      { state := s, world := w, result := .error (.contract .nestDepthExceeded) }
  | n + 1 => runWith vm (run n)

/-- A caller that waits for its callee. -/
structure Frame where
  state : State
  call : NestedCall
  next : Reply → Process

structure Machine where
  world : CallStack
  state : State
  process : Process
  frames : List Frame

namespace Machine

/-- The run goes on with the answer, or ends with the error. -/
def resume (o : Outcome) (next : Reply → Process) (frames : List Frame) : Machine where
  world := o.world
  state := o.state
  process :=
    match o.result with
    | .ok reply => next reply
    | .error e => .done (.error e)
  frames := frames

/-- One host call, or the return to a caller. -/
def step (m : Machine) : Option Machine :=
  match m.process with
  | .call c next => some (resume (hostCall vm c m.state m.world) next m.frames)
  | .execute c next =>
      match enterNested vm c m.world with
      | (w, .error e) => some (resume (finishNested vm c m.state w (.error e)) next m.frames)
      | (w, .ok (process, state)) =>
          some { world := w, state, process, frames := ⟨m.state, c, next⟩ :: m.frames }
  | .done r =>
      match m.frames with
      | [] => none
      | f :: frames =>
          some (resume
            (finishNested vm f.call f.state m.world.leave (r.map fun _ => m.state.output))
            f.next frames)

abbrev Step (m m' : Machine) : Prop := m.step vm = some m'

abbrev Steps : Machine → Machine → Prop := ReflTransGen (Step vm)

/-- What one step does: a host call, the start of a nested call, a nested call
that does not start, or the return to the caller. -/
inductive Walk (m m' : Machine) : Prop
  | host {c : HostCall} {next : Reply → Process} (hprocess : m.process = .call c next)
      (heffect : Effect vm c m.state m.world m'.world) (hstate : m.state.SameCall m'.state)
      (hframes : m'.frames = m.frames)
  | enter {c : NestedCall} {next : Reply → Process} (hprocess : m.process = .execute c next)
      (hentered : Entered vm c m.world m'.world m'.process m'.state)
      (hframes : m'.frames = ⟨m.state, c, next⟩ :: m.frames)
  | refuse {c : NestedCall} {next : Reply → Process} {w : CallStack} {e : VMError}
      (hprocess : m.process = .execute c next)
      (hworld : w = m.world ∨ m.world.Room vm.config ∧ w = m.world.prepared c.contractAddress)
      (hfinished : Finished (.error e) w m'.world) (hstate : m.state.SameCall m'.state)
      (hframes : m'.frames = m.frames)
  | back {r : VMResult Unit} {f : Frame} (hprocess : m.process = .done r)
      (hfinished : Finished (r.map fun _ => m.state.output) m.world.leave m'.world)
      (hstate : f.state.SameCall m'.state) (hframes : m.frames = f :: m'.frames)

variable {vm} {m m' : Machine}

theorem Step.walk (h : Step vm m m') (hidle : m.world.Idle) : Walk vm m m' := by
  rw [Step, step] at h
  cases hprocess : m.process with
  | call c next =>
      rw [hprocess] at h
      cases h
      exact .host hprocess (hostCall_effect vm c m.state hidle)
        (hostCall_sameCall vm c m.state m.world) rfl
  | execute c next =>
      simp only [hprocess] at h
      rcases enterNested_cases vm c m.world with
        ⟨w, process, state, heq, hentered⟩ | ⟨w, e, heq, hworld⟩
      · rw [heq] at h
        cases h
        exact .enter hprocess hentered rfl
      · rw [heq] at h
        cases h
        exact .refuse hprocess hworld (finishNested_finished vm c m.state w (.error e))
          (finishNested_sameCall vm c m.state w (.error e)) rfl
  | done r =>
      simp only [hprocess] at h
      cases hframes : m.frames with
      | nil =>
          rw [hframes] at h
          cases h
      | cons f frames =>
          rw [hframes] at h
          cases h
          exact .back hprocess (finishNested_finished vm f.call f.state m.world.leave _)
            (finishNested_sameCall vm f.call f.state m.world.leave _) hframes

/-- The contexts of a machine fit its frames and the allowed depth. -/
structure WF (vm : VM) (m : Machine) : Prop where
  idle : m.world.Idle
  depth : m.world.callers.length = m.frames.length
  room : m.world.callers.length + m.world.nested.length + 1 ≤ max 1 vm.config.maxNestDepth

namespace WF

/-- A callee that is done has a caller to go back to. -/
theorem exists_leave (h : WF vm m) {f : Frame} {frames : List Frame}
    (hframes : m.frames = f :: frames) :
    ∃ caller callers, m.world.callers = caller :: callers ∧
      m.world.leave = { m.world with
        top := caller, callers := callers, nested := m.world.top :: m.world.nested } := by
  have hdepth := h.depth
  rw [CallStack.leave]
  cases hcallers : m.world.callers with
  | nil =>
      rw [hcallers, hframes] at hdepth
      cases hdepth
  | cons caller callers => exact ⟨caller, callers, rfl, rfl⟩

theorem of_sameContexts {w : CallStack} {frames : List Frame} (hidle : w.Idle)
    (hdepth : w.callers.length = frames.length)
    (hroom : w.callers.length + w.nested.length + 1 ≤ max 1 vm.config.maxNestDepth)
    (hsame : SameContexts w m.world) (hframes : m.frames = frames) : WF vm m := by
  refine ⟨hsame.idle hidle, ?_, ?_⟩
  · rw [hsame.length_callers, hframes, hdepth]
  · rw [hsame.length_callers, hsame.length_nested]
    exact hroom

/-- Room for the nested context means that the chain of contexts, with the
nested one, is not too long. -/
theorem room_tail (h : WF vm m) (hroom : m.world.Room vm.config) :
    m.world.callers.length + 1 + m.world.nested.tail.length + 1 ≤
      max 1 vm.config.maxNestDepth := by
  have hall := h.room
  cases hnested : m.world.nested with
  | nil =>
      have := hroom hnested
      rw [CallStack.stack, List.length_cons] at this
      simp only [List.tail_nil, List.length_nil]
      omega
  | cons n nested =>
      rw [hnested, List.length_cons] at hall
      simp only [List.tail_cons]
      omega

theorem step (h : WF vm m) (hstep : Step vm m m') : WF vm m' := by
  cases hstep.walk h.idle with
  | host hprocess heffect hstate hframes =>
      exact of_sameContexts h.idle h.depth h.room heffect.sameContexts hframes
  | enter hprocess hentered hframes =>
      have htail := h.room_tail hentered.room
      refine ⟨?_, ?_, ?_⟩
      · rw [hentered.world]
        exact CallStack.idle_entered _ h.idle
      · rw [hentered.world, hframes]
        simp [CallStack.entered, h.depth]
      · rw [hentered.world]
        exact htail
  | refuse hprocess hworld hfinished hstate hframes =>
      rcases hworld with rfl | ⟨hroom, rfl⟩
      · exact of_sameContexts h.idle h.depth h.room hfinished.sameContexts hframes
      · have htail := h.room_tail hroom
        refine of_sameContexts (CallStack.idle_prepared _ h.idle) h.depth ?_
          hfinished.sameContexts hframes
        simp only [CallStack.prepared, List.length_cons]
        omega
  | back hprocess hfinished hstate hframes =>
      have hdepth := h.depth
      have hroom := h.room
      obtain ⟨caller, callers, hcallers, hleave⟩ := h.exists_leave hframes
      rw [hcallers, hframes] at hdepth
      rw [hcallers] at hroom
      refine of_sameContexts (CallStack.idle_leave h.idle) ?_ ?_ hfinished.sameContexts rfl
      · rw [hleave]
        simpa using hdepth
      · rw [hleave]
        simp only [List.length_cons] at hroom ⊢
        omega

theorem steps (h : WF vm m) (hsteps : Steps vm m m') : WF vm m' := by
  induction hsteps with
  | refl => exact h
  | tail _ hstep ih => exact ih.step hstep

end WF

/-- The machine that stands at the end of a run. -/
def ended (f : Final) (frames : List Frame) : Machine where
  world := f.world
  state := f.state
  process := .done f.result
  frames := frames

/-- From the outcome of a host function a run goes on with the answer, and so
does the machine. -/
theorem resume_steps {nested : Process → State → CallStack → Final} {o : Outcome}
    {next : Reply → Process} {frames : List Frame}
    (hnext : ∀ reply, o.result = .ok reply →
      Steps vm ⟨o.world, o.state, next reply, frames⟩
        (ended (runWith vm nested (next reply) o.state o.world) frames)) :
    Steps vm (resume o next frames)
      (ended
        (match o.result with
        | .ok reply => runWith vm nested (next reply) o.state o.world
        | .error e => { state := o.state, world := o.world, result := .error e })
        frames) := by
  rw [resume]
  cases hresult : o.result with
  | ok reply => exact hnext reply hresult
  | error e => exact .refl

/-- `runWith` follows the machine if the runs of the callees do. -/
theorem runWith_steps {n : Nat} {nested : Process → State → CallStack → Final}
    (hnested : ∀ process state world frames, WF vm ⟨world, state, process, frames⟩ →
      0 < world.callers.length → vm.config.maxNestDepth ≤ n + world.callers.length →
      Steps vm ⟨world, state, process, frames⟩ (ended (nested process state world) frames))
    (process : Process) (state : State) (world : CallStack) (frames : List Frame)
    (hwf : WF vm ⟨world, state, process, frames⟩)
    (hdepth : vm.config.maxNestDepth ≤ n + world.callers.length + 1) :
    Steps vm ⟨world, state, process, frames⟩
      (ended (runWith vm nested process state world) frames) := by
  induction process generalizing state world with
  | done r => exact .refl
  | call c next ih =>
      have hstep : Step vm ⟨world, state, .call c next, frames⟩
          (resume (hostCall vm c state world) next frames) := rfl
      have hwf' := hwf.step hstep
      have hsame := (hostCall_effect vm c state hwf.idle).sameContexts
      refine .head hstep ?_
      simp only [runWith]
      apply resume_steps
      intro reply hreply
      refine ih reply _ _ ?_ ?_
      · exact ⟨hwf'.idle, hwf'.depth, hwf'.room⟩
      · rw [hsame.length_callers]
        exact hdepth
  | execute c next ih =>
      -- The rest of the run, from wherever the nested call leaves the caller.
      have hrest : ∀ o : Outcome,
          Steps vm ⟨world, state, .execute c next, frames⟩ (resume o next frames) →
          Steps vm (resume o next frames)
            (ended
              (match o.result with
              | .ok reply => runWith vm nested (next reply) o.state o.world
              | .error e => { state := o.state, world := o.world, result := .error e })
              frames) := by
        intro o hsteps
        have hwf' := hwf.steps hsteps
        have hcallers : o.world.callers.length = world.callers.length :=
          hwf'.depth.trans hwf.depth.symm
        apply resume_steps
        intro reply hreply
        refine ih reply _ _ ?_ ?_
        · exact ⟨hwf'.idle, hwf'.depth, hwf'.room⟩
        · rw [hcallers]
          exact hdepth
      rcases enterNested_cases vm c world with
        ⟨w, process, state', heq, hentered⟩ | ⟨w, e, heq, hworld⟩
      · have hstep : Step vm ⟨world, state, .execute c next, frames⟩
            ⟨w, state', process, ⟨state, c, next⟩ :: frames⟩ := by
          simp only [Step, step, heq]
        have hwf' := hwf.step hstep
        have hcallers : w.callers.length = world.callers.length + 1 := by
          rw [hentered.world]
          rfl
        have hcallee := hnested process state' w (⟨state, c, next⟩ :: frames) hwf'
          (by omega) (by omega)
        have hback : Step vm (ended (nested process state' w) (⟨state, c, next⟩ :: frames))
            (resume (finishNested vm c state (nested process state' w).world.leave
              (nested process state' w).output) next frames) := rfl
        have hcall := (hcallee.tail hback).head hstep
        refine hcall.trans ?_
        simp only [runWith, heq]
        exact hrest _ hcall
      · have hstep : Step vm ⟨world, state, .execute c next, frames⟩
            (resume (finishNested vm c state w (.error e)) next frames) := by
          simp only [Step, step, heq]
        refine .head hstep ?_
        simp only [runWith, heq]
        exact hrest _ (.single hstep)

/-- The execution behind `run`: from the start of a run the machine walks to
its end, whatever frames wait. `n` contexts are enough for the depth that is
left. -/
theorem run_steps (n : Nat) (process : Process) (state : State) (world : CallStack)
    (frames : List Frame) (hwf : WF vm ⟨world, state, process, frames⟩)
    (hdepth : vm.config.maxNestDepth ≤ n + world.callers.length + 1) :
    Steps vm ⟨world, state, process, frames⟩
      (ended (run vm n process state world) frames) := by
  induction n generalizing process state world frames with
  | zero =>
      apply runWith_steps _ process state world frames hwf hdepth
      intro process state world frames hwf hpos hle
      have hroom := hwf.room
      simp only at hroom
      omega
  | succ n ih =>
      apply runWith_steps _ process state world frames hwf hdepth
      intro process state world frames hwf hpos hle
      exact ih process state world frames hwf (by omega)

/-- `P` holds of every state of an execution that is over after fewer than `n`
steps. -/
def always (vm : VM) (P : Machine → Bool) : Nat → Machine → Bool
  | 0, _ => false
  | n + 1, m =>
      P m &&
        match m.step vm with
        | none => true
        | some m' => always vm P n m'

theorem of_always {P : Machine → Bool} {n : Nat} (h : always vm P n m = true)
    (hsteps : Steps vm m m') : P m' = true := by
  induction n generalizing m with
  | zero => cases h
  | succ n ih =>
      rw [always, Bool.and_eq_true] at h
      rcases hsteps.cases_head with rfl | ⟨m₁, hstep, hrest⟩
      · exact h.1
      · have hnext := h.2
        rw [show m.step vm = some m₁ from hstep] at hnext
        exact ih hnext hrest

/-- `P` holds of one of the first `n` states of an execution. -/
def sometime (vm : VM) (P : Machine → Bool) : Nat → Machine → Bool
  | 0, _ => false
  | n + 1, m =>
      P m ||
        match m.step vm with
        | none => false
        | some m' => sometime vm P n m'

theorem of_sometime {P : Machine → Bool} {n : Nat} (h : sometime vm P n m = true) :
    ∃ m', Steps vm m m' ∧ P m' = true := by
  induction n generalizing m with
  | zero => cases h
  | succ n ih =>
      rw [sometime, Bool.or_eq_true] at h
      rcases h with h | h
      · exact ⟨m, .refl, h⟩
      · cases hstep : m.step vm with
        | none =>
            rw [hstep] at h
            cases h
        | some m₁ =>
            rw [hstep] at h
            obtain ⟨m', hsteps, hm'⟩ := ih h
            exact ⟨m', .head hstep hsteps, hm'⟩

end Machine

end Finastate.Contract
