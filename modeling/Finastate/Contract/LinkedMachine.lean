import Finastate.Contract.Machine
import Finastate.Vm.Memory

/-!
# Contracts linked to their memory

`Code` is the run of a contract with the memory that it shows the host at every
call, and a `LinkedMachine` machine runs it through the imported functions with the
arguments as they are. Apart from the memory this is the `Machine` of the host
calls: a call whose arguments are outside the memory ends there as a run that
panics by itself, and a share is written to the memory by the code that goes on.
-/

namespace Finastate.Vm

open Executor

/-- A run of a contract. A host function returns an answer and the memory. -/
inductive Code where
  | done (result : VMResult Unit)
  | call (memory : Memory) (c : Import) (next : Reply → Memory → Code)

/-- `vec_to_memory` at the end of `share_read`, unless it panics. The data goes to
the memory, and the contract gets no answer. -/
def Import.store (memory : Memory) (c : Import) (reply : Reply) : Option (Reply × Memory) :=
  match c, reply with
  | .shareRead _ ptr, .data data =>
      (memory.vecToMemory ptr.toNat data).map fun memory => (.unit, memory)
  | _, reply => some (reply, memory)

/-- The host calls of a run. -/
def Code.process : Code → Process
  | .done r => .done r
  | .call memory c next =>
      match c.request memory true with
      | none => .done (.error .panic)
      | some (.host h) => .call h fun reply =>
          match c.store memory reply with
          | none => .done (.error .panic)
          | some (reply, memory) => (next reply memory).process
      | some (.nested n) => .execute n fun reply => (next reply memory).process

/-- A virtual machine whose runs have a memory. -/
structure Runtime where
  config : VMConfig
  util : Util
  run : Bytes → String → Code

def Runtime.vm (rt : Runtime) : VM where
  config := rt.config
  util := rt.util
  run code func := (rt.run code func).process

end Finastate.Vm

namespace Finastate.Contract

open Executor Vm Relation

/-- A caller that waits for its callee. -/
structure Caller where
  state : State
  call : NestedCall
  memory : Memory
  next : Reply → Memory → Code

structure LinkedMachine where
  world : CallStack
  state : State
  code : Code
  frames : List Caller

/-- A host function returns, or the code of a callee is to run first. -/
inductive Progress where
  | returned (o : Outcome) (memory : Memory)
  | entered (c : NestedCall) (w : CallStack) (code : Code) (state : State)

namespace LinkedMachine

variable (rt : Runtime)

/-- `contract_execute` up to the run of the callee. -/
def enterCode (c : NestedCall) (w : CallStack) : CallStack × VMResult (Code × State) :=
  match c.method? with
  | none => (w, .error (.contract .invalidMethod))
  | some method =>
      match w.prepareNested rt.config c.contractAddress with
      | .error e => (w, .error e)
      | .ok w =>
          match innerGetCodeHash w.executor c.contractAddress none with
          | .error e => (w, .error (CallStack.moduleToVmError e))
          | .ok none => (w, .error (.contract .nestedContractNotFound))
          | .ok (some _) =>
              match innerGetCode w.executor c.contractAddress none with
              | .error e => (w, .error (CallStack.moduleToVmError e))
              | .ok none => (w, .error (.contract .nestedContractNotFound))
              | .ok (some code) =>
                  (w.enter,
                    .ok (rt.run code Mode.call.executeFunc, .new method c.params c.payValue))

/-- A host function with what it does to the memory. -/
def hostImport (memory : Memory) (c : Import) (h : HostCall) (s : State) (w : CallStack) :
    Outcome × Memory :=
  let o := hostCall rt.vm h s w
  match o.result with
  | .error _ => (o, memory)
  | .ok reply =>
      match c.store memory reply with
      | none => ({ o with result := .error .panic }, memory)
      | some (reply, memory) => ({ o with result := .ok reply }, memory)

/-- The imported functions. -/
def call (memory : Memory) (c : Import) (s : State) (w : CallStack) : Progress :=
  match c.request memory w.top.contractEnv.contractAddress.isSome with
  | none => .returned { state := s, world := w, result := .error .panic } memory
  | some (.host h) =>
      let (o, memory) := hostImport rt memory c h s w
      .returned o memory
  | some (.nested n) =>
      match enterCode rt n w with
      | (w, .error e) => .returned (finishNested rt.vm n s w (.error e)) memory
      | (w, .ok (code, state)) => .entered n w code state

/-- The run goes on with the answer, or ends with the error. -/
def resume (o : Outcome) (memory : Memory) (next : Reply → Memory → Code)
    (frames : List Caller) : LinkedMachine where
  world := o.world
  state := o.state
  code :=
    match o.result with
    | .ok reply => next reply memory
    | .error e => .done (.error e)
  frames := frames

/-- One call, or the return to a caller. -/
def step (m : LinkedMachine) : Option LinkedMachine :=
  match m.code with
  | .call memory c next =>
      match call rt memory c m.state m.world with
      | .returned o memory => some (resume o memory next m.frames)
      | .entered n w code state =>
          some { world := w, state, code, frames := ⟨m.state, n, memory, next⟩ :: m.frames }
  | .done r =>
      match m.frames with
      | [] => none
      | f :: frames =>
          some (resume
            (finishNested rt.vm f.call f.state m.world.leave (r.map fun _ => m.state.output))
            f.memory f.next frames)

/-- What the imported function that is over in the next step returns. -/
def returned? (m : LinkedMachine) : Option (VMResult Reply) :=
  match m.code with
  | .call memory c _ =>
      match call rt memory c m.state m.world with
      | .returned o _ => some o.result
      | .entered .. => none
  | .done r =>
      match m.frames with
      | [] => none
      | f :: _ =>
          some (finishNested rt.vm f.call f.state m.world.leave
            (r.map fun _ => m.state.output)).result

abbrev Step (m m' : LinkedMachine) : Prop := m.step rt = some m'

abbrev Steps : LinkedMachine → LinkedMachine → Prop := ReflTransGen (Step rt)

/-- The start of a contract. -/
def start (context : Context) (senderAddress contractAddress : Address) (code : Bytes)
    (func : String) (method : String) (params : Bytes) (payValue : Balance) : LinkedMachine where
  world :=
    { executor := context
      top := .new { contractAddress := some contractAddress, senderAddress := some senderAddress }
      callers := []
      nested := [] }
  state := .new method params payValue
  code := rt.run code func
  frames := []

end LinkedMachine

/-! ## The machine of the host calls -/

/-- The frame without the memory. -/
def Caller.frame (f : Caller) : Frame where
  state := f.state
  call := f.call
  next reply := (f.next reply f.memory).process

def LinkedMachine.machine (m : LinkedMachine) : Machine where
  world := m.world
  state := m.state
  process := m.code.process
  frames := m.frames.map Caller.frame

namespace CallStack

def envs (w : CallStack) : List VMContractEnv :=
  w.top.contractEnv ::
    (w.callers.map VMContext.contractEnv ++ w.nested.map VMContext.contractEnv)

/-- Every context is the one of a contract with an address. -/
def Addressed (w : CallStack) : Prop := ∀ env ∈ w.envs, env.contractAddress.isSome

variable {w w' : CallStack}

theorem Addressed.of_sameContexts (h : w.Addressed) (hsame : SameContexts w w') :
    w'.Addressed := by
  have henvs : w'.envs = w.envs := by
    rw [envs, hsame.top, hsame.callers, hsame.nested]
    rfl
  rwa [Addressed, henvs]

theorem Addressed.prepared (h : w.Addressed) (address : Address) :
    (w.prepared address).Addressed := by
  obtain ⟨executor, top, callers, nested⟩ := w
  cases nested with
  | cons n nested => exact h
  | nil =>
      intro env henv
      have hmem : env ∈ envs ⟨executor, top, callers, []⟩ ∨
          env = { contractAddress := some address
                  senderAddress := top.contractEnv.contractAddress } := by
        simpa [envs, CallStack.prepared, CallStack.callee, VMContext.new, or_assoc] using henv
      rcases hmem with hmem | rfl
      · exact h env hmem
      · rfl

theorem Addressed.entered (h : w.Addressed) (address : Address) :
    (w.entered address).Addressed := by
  intro env henv
  refine h.prepared address env ?_
  simp only [envs, CallStack.entered, CallStack.prepared, List.map_cons, List.mem_cons,
    List.mem_append] at henv ⊢
  tauto

theorem Addressed.leave (h : w.Addressed) : w.leave.Addressed := by
  obtain ⟨executor, top, callers, nested⟩ := w
  cases callers with
  | nil => exact h
  | cons caller callers =>
      intro env henv
      refine h env ?_
      simp only [envs, CallStack.leave, List.map_cons, List.mem_cons, List.mem_append] at henv ⊢
      tauto

end CallStack

theorem Machine.Step.addressed {vm : VM} {m m' : Machine} (h : Machine.Step vm m m')
    (hidle : m.world.Idle) (haddressed : m.world.Addressed) : m'.world.Addressed := by
  cases h.walk hidle with
  | host hprocess heffect hstate hframes =>
      exact haddressed.of_sameContexts heffect.sameContexts
  | enter hprocess hentered hframes =>
      rw [hentered.world]
      exact haddressed.entered _
  | refuse hprocess hworld hfinished hstate hframes =>
      refine CallStack.Addressed.of_sameContexts ?_ hfinished.sameContexts
      rcases hworld with rfl | ⟨-, rfl⟩
      · exact haddressed
      · exact haddressed.prepared _
  | back hprocess hfinished hstate hframes =>
      exact haddressed.leave.of_sameContexts hfinished.sameContexts

namespace LinkedMachine

variable {rt : Runtime} {m m' : LinkedMachine}

theorem enterNested_vm (c : NestedCall) (w : CallStack) :
    enterNested rt.vm c w =
      ((enterCode rt c w).1, (enterCode rt c w).2.map (Prod.map Code.process id)) := by
  have hconfig : rt.vm.config = rt.config := rfl
  unfold enterNested enterCode NestedCall.method?
  rw [hconfig]
  cases String.fromUTF8? ⟨c.method.toArray⟩ with
  | none => rfl
  | some method =>
      simp only
      cases w.prepareNested rt.config c.contractAddress with
      | error e => rfl
      | ok w' =>
          simp only
          cases innerGetCodeHash w'.executor c.contractAddress none with
          | error e => rfl
          | ok hash =>
              cases hash with
              | none => rfl
              | some hash =>
                  simp only
                  cases innerGetCode w'.executor c.contractAddress none with
                  | error e => rfl
                  | ok code =>
                      cases code with
                      | none => rfl
                      | some code => rfl

theorem machine_resume (o : Outcome) (memory : Memory) (next : Reply → Memory → Code)
    (frames : List Caller) :
    (resume o memory next frames).machine =
      Machine.resume o (fun reply => (next reply memory).process) (frames.map Caller.frame) := by
  rw [machine, resume, Machine.resume]
  cases o.result with
  | ok reply => rfl
  | error e => rfl

theorem machine_hostImport (memory : Memory) (c : Import) (h : HostCall) (s : State)
    (w : CallStack) (next : Reply → Memory → Code) (frames : List Caller) :
    (resume (hostImport rt memory c h s w).1 (hostImport rt memory c h s w).2 next frames).machine =
      Machine.resume (hostCall rt.vm h s w)
        (fun reply =>
          match c.store memory reply with
          | none => .done (.error .panic)
          | some (reply, memory) => (next reply memory).process)
        (frames.map Caller.frame) := by
  rw [machine_resume, hostImport]
  generalize hostCall rt.vm h s w = o
  obtain ⟨state, world, result⟩ := o
  cases result with
  | error e => rfl
  | ok reply =>
      simp only [Machine.resume]
      cases c.store memory reply with
      | none => rfl
      | some stored => rfl

/-- A step of the linked machine is one of the machine of the host calls. Only the
panic of a call whose arguments are outside the memory is there already. -/
theorem Step.machine (h : Step rt m m') (haddressed : m.world.Addressed) :
    m'.machine = m.machine ∨ Machine.Step rt.vm m.machine m'.machine := by
  have haddress : m.world.top.contractEnv.contractAddress.isSome = true :=
    haddressed _ List.mem_cons_self
  obtain ⟨world, state, code, frames⟩ := m
  cases code with
  | done r =>
      cases frames with
      | nil => cases h
      | cons f frames =>
          right
          cases h
          rw [machine_resume]
          rfl
  | call memory c next =>
      simp only [Step, step, call, haddress] at h
      cases hrequest : c.request memory true with
      | none =>
          left
          rw [hrequest] at h
          cases h
          rw [machine_resume, LinkedMachine.machine, Code.process, hrequest]
          rfl
      | some request =>
          right
          rw [hrequest] at h
          cases request with
          | host c' =>
              cases h
              rw [machine_hostImport, Machine.Step, Machine.step, LinkedMachine.machine,
                Code.process, hrequest]
          | nested n =>
              have hprocess : (Code.call memory c next).process =
                  .execute n fun reply => (next reply memory).process := by
                rw [Code.process, hrequest]
              simp only [Machine.Step, Machine.step, LinkedMachine.machine, hprocess,
                enterNested_vm]
              rcases henter : enterCode rt n world with ⟨w, e | ⟨code, state'⟩⟩
              · simp only [henter] at h
                cases h
                rw [← LinkedMachine.machine, machine_resume]
                rfl
              · simp only [henter] at h
                cases h
                rfl

/-- The contexts of a linked machine fit its frames and the allowed depth, and
all contracts have addresses. -/
structure WF (rt : Runtime) (m : LinkedMachine) : Prop where
  machine : Machine.WF rt.vm m.machine
  addressed : m.world.Addressed

theorem WF.step (h : WF rt m) (hstep : Step rt m m') : WF rt m' := by
  rcases hstep.machine h.addressed with hsame | hnext
  · have hworld : m'.world = m.world := congrArg Machine.world hsame
    refine ⟨?_, ?_⟩
    · rw [hsame]
      exact h.machine
    · rw [hworld]
      exact h.addressed
  · exact ⟨h.machine.step hnext, hnext.addressed h.machine.idle h.addressed⟩

theorem WF.steps (h : WF rt m) (hsteps : Steps rt m m') : WF rt m' := by
  induction hsteps with
  | refl => exact h
  | tail _ hstep ih => exact ih.step hstep

/-- The states that a linked machine reaches are states of the machine of the host
calls. -/
theorem Steps.machine (hsteps : Steps rt m m') (h : WF rt m) :
    Machine.Steps rt.vm m.machine m'.machine := by
  induction hsteps with
  | refl => exact .refl
  | tail hsteps hstep ih =>
      rcases hstep.machine (h.steps hsteps).addressed with hsame | hnext
      · rw [hsame]
        exact ih
      · exact ih.tail hnext

theorem wf_start (rt : Runtime) (context : Context) (senderAddress contractAddress : Address)
    (code : Bytes) (func : String) (method : String) (params : Bytes) (payValue : Balance) :
    WF rt (start rt context senderAddress contractAddress code func method params payValue) := by
  refine ⟨⟨⟨VMContext.idle_new _, nofun, nofun⟩, rfl, ?_⟩, ?_⟩
  · exact le_max_left _ _
  · intro env henv
    have henv : env = { contractAddress := some contractAddress
                        senderAddress := some senderAddress } := List.mem_singleton.1 henv
    rw [henv]
    rfl

end LinkedMachine

end Finastate.Contract
