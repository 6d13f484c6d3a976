import Finastate.Contract.Alike
import Finastate.Module.Methods

/-!
# Validating contract calls

`create` and `execute` are validated by running the contract's own validation
function, with the host functions of an execution, in contexts that are dropped
at the end. What a contract writes and emits is dropped with them. But what the
balance module writes for the contract goes past the buffer of the contract,
and for the outermost contract that is into the executor.
-/

namespace Finastate.Contract

open Executor Vm Relation

namespace Machine

variable {vm : VM} {m m' m'' : Machine} {items : List (DBKey × Option DBValue)}

/-- What a step writes into the executor: the entries of a transfer of the
outermost contract. -/
def outerWrites (vm : VM) (m : Machine) : List (DBKey × Option DBValue) :=
  match m.world.callers, m.process with
  | [], .call c _ => transferWrites vm c m.state m.world
  | _, _ => []

/-- The machine walks from one state to another, and `items` are the entries
that the transfers of the outermost contract write on the way, the last ones
first. -/
inductive Transfers (vm : VM) : Machine → List (DBKey × Option DBValue) → Machine → Prop
  | refl (m : Machine) : Transfers vm m [] m
  | step {m m' m'' : Machine} {items : List (DBKey × Option DBValue)} (hstep : Step vm m m')
      (hrest : Transfers vm m' items m'') : Transfers vm m (items ++ m.outerWrites vm) m''

theorem exists_transfers (h : Steps vm m m') : ∃ items, Transfers vm m items m' := by
  induction h using ReflTransGen.head_induction_on with
  | refl => exact ⟨[], .refl _⟩
  | head hstep _ ih =>
      obtain ⟨items, hitems⟩ := ih
      exact ⟨_, .step hstep hitems⟩

theorem Transfers.steps (h : Transfers vm m items m') : Steps vm m m' := by
  induction h with
  | refl m => exact .refl
  | step hstep _ ih => exact .head hstep ih

/-- Without a write of the outermost contract on the way there are no items. -/
theorem Transfers.eq_nil (h : Transfers vm m items m')
    (hnone : ∀ m'', Steps vm m m'' → m''.outerWrites vm = []) : items = [] := by
  induction h with
  | refl m => rfl
  | step hstep _ ih =>
      rw [ih fun m'' hsteps => hnone m'' (.head hstep hsteps), hnone _ .refl, List.append_nil]

theorem executor_after (w : CallStack) (top : VMContext) (items : List (DBKey × Option DBValue)) :
    (w.after top items).executor =
      match w.callers with
      | [] => items.foldr (fun item c => c.payloadSet item.1 item.2) w.executor
      | _ :: _ => w.executor := by
  obtain ⟨executor, top', callers, nested⟩ := w
  cases callers with
  | nil => rfl
  | cons caller callers => rfl

theorem executor_leave (w : CallStack) : w.leave.executor = w.executor := by
  obtain ⟨executor, top, callers, nested⟩ := w
  cases callers with
  | nil => rfl
  | cons caller callers => rfl

/-- Nothing but a transfer of the outermost contract reaches the executor. -/
theorem Step.executor (h : Step vm m m') (hidle : m.world.Idle) :
    m'.world.executor = (m.outerWrites vm).foldr (fun item c => c.payloadSet item.1 item.2)
      m.world.executor := by
  have hwalk := h.walk hidle
  cases hprocess : m.process with
  | call c next =>
      obtain ⟨top, heq, -⟩ := (hostCall_view vm c m.state (.refl m.world) hidle.top).world
      rw [Step, step, hprocess] at h
      cases h
      simp only [resume, heq, executor_after, outerWrites, hprocess]
      cases m.world.callers with
      | nil => rfl
      | cons caller callers => rfl
  | execute c next =>
      have hwrites : m.outerWrites vm = [] := by
        rw [outerWrites, hprocess]
        cases m.world.callers with
        | nil => rfl
        | cons caller callers => rfl
      rw [hwrites]
      cases hwalk with
      | host hcall => cases hprocess.symm.trans hcall
      | enter _ hentered =>
          rw [hentered.world]
          rfl
      | refuse _ hworld hfinished =>
          rw [hfinished.executor_eq]
          rcases hworld with rfl | ⟨-, rfl⟩
          · rfl
          · rfl
      | back hdone => cases hprocess.symm.trans hdone
  | done r =>
      have hwrites : m.outerWrites vm = [] := by
        rw [outerWrites, hprocess]
        cases m.world.callers with
        | nil => rfl
        | cons caller callers => rfl
      rw [hwrites]
      cases hwalk with
      | host hcall => cases hprocess.symm.trans hcall
      | enter hexecute => cases hprocess.symm.trans hexecute
      | refuse hexecute => cases hprocess.symm.trans hexecute
      | back _ hfinished => rw [hfinished.executor_eq, executor_leave, List.foldr_nil]

theorem Transfers.executor (h : Transfers vm m items m') (hwf : WF vm m) :
    m'.world.executor =
      items.foldr (fun item c => c.payloadSet item.1 item.2) m.world.executor := by
  induction h with
  | refl m => rfl
  | step hstep _ ih =>
      rw [ih (hwf.step hstep), Step.executor hstep hwf.idle, List.foldr_append]

/-- The machine has one way only. -/
theorem Steps.eq_ended {f f' : Final} (h : Steps vm m (ended f []))
    (h' : Steps vm m (ended f' [])) : f' = f := by
  have hunique : Relator.RightUnique (Step vm) := fun _ _ _ h h' => Option.some.inj (h.symm.trans h')
  have hend : ∀ {f : Final} {m : Machine}, Steps vm (ended f []) m → m = ended f [] := by
    intro f m hsteps
    rcases hsteps.cases_head with heq | ⟨m₁, hstep, -⟩
    · exact heq.symm
    · cases hstep
  have hended : ended f' [] = ended f [] := by
    rcases ReflTransGen.total_of_right_unique hunique h h' with hsteps | hsteps
    · exact hend hsteps
    · exact (hend hsteps).symm
  obtain ⟨state, world, result⟩ := f
  obtain ⟨state', world', result'⟩ := f'
  cases hended
  rfl

end Machine

namespace Library

variable (lib : Library)

/-- The machine on which `inner_vm_validate` starts a contract. -/
def startValidate (config : VMConfig) (context : Context)
    (senderAddress contractAddress : Option Address) (code : Bytes) (mode : Mode)
    (method : String) (params : Bytes) (payValue : Balance) : Machine where
  world :=
    { executor := context
      top := .new { contractAddress, senderAddress }
      callers := []
      nested := [] }
  state := .new method params payValue
  process := lib.run config code mode.validateFunc
  frames := []

/-- `inner_vm_validate`: nothing is applied or drained at the end. -/
def innerVmValidate (context : Context) (senderAddress contractAddress : Option Address)
    (code : Bytes) (mode : Mode) (method : String) (params : Bytes) (payValue : Balance) :
    Context × ModuleResult Unit :=
  match innerGetVmConfig context with
  | .error e => (context, .error e)
  | .ok config =>
      let m := lib.startValidate config context senderAddress contractAddress code mode method
        params payValue
      let f := Contract.run (lib.vm config) config.maxNestDepth m.process m.state m.world
      (f.world.executor, f.result.mapError vmToModuleError)

def validateCreate (context : Context) (sender : Option Address) (params : CreateParams) :
    Context × ModuleResult Unit :=
  lib.innerVmValidate context sender none params.code .init params.initMethod params.initParams
    params.initPayValue

def validateExecute (context : Context) (sender : Option Address) (params : ExecuteParams) :
    Context × ModuleResult Unit :=
  match innerGetCodeHash context params.contractAddress none with
  | .error e => (context, .error e)
  | .ok none => (context, .error (.ofString "Contract not found"))
  | .ok (some _) =>
      match innerGetVmConfig context, innerGetCode context params.contractAddress none with
      | .error e, _ => (context, .error e)
      | .ok _, .error e => (context, .error (vmToModuleError (CallStack.moduleToVmError e)))
      | .ok _, .ok none =>
          (context, .error (vmToModuleError (.contract (.user "Contract not found"))))
      | .ok _, .ok (some code) =>
          lib.innerVmValidate context sender params.contractAddress code .call params.method
            params.params params.payValue

/-- `validate_call` of the module of a call. -/
def moduleValidateCall (context : Context) (sender : Option Address) (call : Call) :
    Context × ModuleResult Unit :=
  match call.module, call.method with
  | "contract", "create" =>
      match decodeCreateParams call.params with
      | none => (context, .error (.system (.invalidTxParams "Codec error")))
      | some (params, _) => lib.validateCreate context sender params
  | "contract", "execute" =>
      match decodeExecuteParams call.params with
      | none => (context, .error (.system (.invalidTxParams "Codec error")))
      | some (params, _) => lib.validateExecute context sender params
  | _, _ => (context, Methods.validateCall lib.util call)

/-- How the dispatcher passes on the result of a validation. -/
def callResult : ModuleResult Unit → Except CommonError (Except String Unit)
  | .ok _ => .ok (.ok ())
  | .error (.system e) => .error e
  | .error (.application e) => .ok (.error e.toString)

/-- `Dispatcher::validate_call`. -/
def validateCall (context : Context) (sender : Option Address) (call : Call) :
    Context × Except CommonError (Except String Unit) :=
  (lib.moduleValidateCall context sender call).map id callResult

/-- `Executor::execute_call`: the call is validated and then executed, in the
same context. -/
def executorExecuteCall
    (others : Context → Option Address → Call → Context × ModuleResult Bytes)
    (context : Context) (sender : Option Address) (call : Call) :
    Context × Except CommonError OpaqueCallResult :=
  match lib.validateCall context sender call with
  | (context, .error e) => (context, .error e)
  | (context, .ok (.error e)) => (context, .ok (.error e))
  | (context, .ok (.ok _)) => (lib.dispatcher others).executeCall context sender call

/-- The machine that the validation of a call starts, if it gets to running a
contract. -/
def startValidate? (context : Context) (sender : Option Address) (call : Call) :
    Option (VMConfig × Machine) :=
  match call.module, call.method with
  | "contract", "create" => do
      let (params, _) ← decodeCreateParams call.params
      let config ← (innerGetVmConfig context).toOption
      return (config, lib.startValidate config context sender none params.code .init
        params.initMethod params.initParams params.initPayValue)
  | "contract", "execute" => do
      let (params, _) ← decodeExecuteParams call.params
      let _ ← (innerGetCodeHash context params.contractAddress none).toOption.join
      let config ← (innerGetVmConfig context).toOption
      let code ← (innerGetCode context params.contractAddress none).toOption.join
      return (config, lib.startValidate config context sender params.contractAddress code .call
        params.method params.params params.payValue)
  | _, _ => none

theorem wf_startValidate (config : VMConfig) (context : Context)
    (senderAddress contractAddress : Option Address) (code : Bytes) (mode : Mode)
    (method : String) (params : Bytes) (payValue : Balance) :
    Machine.WF (lib.vm config) (lib.startValidate config context senderAddress contractAddress
      code mode method params payValue) := by
  refine ⟨⟨VMContext.idle_new _, nofun, nofun⟩, rfl, ?_⟩
  simp [startValidate]

/-- `inner_vm_validate` runs the machine from its start to its end. -/
theorem innerVmValidate_eq {config : VMConfig} {context : Context}
    (hconfig : innerGetVmConfig context = .ok config)
    (senderAddress contractAddress : Option Address) (code : Bytes) (mode : Mode)
    (method : String) (params : Bytes) (payValue : Balance) :
    ∃ f, Machine.Steps (lib.vm config)
        (lib.startValidate config context senderAddress contractAddress code mode method params
          payValue) (Machine.ended f []) ∧
      lib.innerVmValidate context senderAddress contractAddress code mode method params payValue =
        (f.world.executor, f.result.mapError vmToModuleError) := by
  refine ⟨_, Machine.run_steps config.maxNestDepth _ _ _ [] (lib.wf_startValidate config context
    senderAddress contractAddress code mode method params payValue) ?_, ?_⟩
  · simp only [vm]
    omega
  · rw [innerVmValidate, hconfig]
    rfl

/-- A run of a validation: its machine, from the context to the end. -/
structure Validates (context : Context) (config : VMConfig) (m : Machine) (f : Final) : Prop where
  wf : Machine.WF (lib.vm config) m
  callers : m.world.callers = []
  executor : m.world.executor = context
  steps : Machine.Steps (lib.vm config) m (Machine.ended f [])

/-- A validation leaves its context, or runs a contract to its end. -/
theorem moduleValidateCall_cases (context : Context) (sender : Option Address) (call : Call) :
    lib.startValidate? context sender call = none ∧
        (lib.moduleValidateCall context sender call).1 = context ∨
      ∃ config m f, lib.startValidate? context sender call = some (config, m) ∧
        lib.Validates context config m f ∧
        lib.moduleValidateCall context sender call =
          (f.world.executor, f.result.mapError vmToModuleError) := by
  rw [moduleValidateCall, startValidate?]
  split
  · cases decodeCreateParams call.params with
    | none => exact Or.inl ⟨rfl, rfl⟩
    | some p =>
        obtain ⟨params, rest⟩ := p
        simp only [validateCreate]
        cases hconfig : innerGetVmConfig context with
        | error e => exact Or.inl ⟨rfl, by rw [innerVmValidate, hconfig]⟩
        | ok config =>
            obtain ⟨f, hsteps, heq⟩ := lib.innerVmValidate_eq hconfig sender none params.code
              .init params.initMethod params.initParams params.initPayValue
            exact Or.inr ⟨config, _, f, rfl,
              ⟨lib.wf_startValidate _ _ _ _ _ _ _ _ _, rfl, rfl, hsteps⟩, heq⟩
  · cases decodeExecuteParams call.params with
    | none => exact Or.inl ⟨rfl, rfl⟩
    | some p =>
        obtain ⟨params, rest⟩ := p
        simp only [validateExecute, Option.bind_eq_bind, Option.bind_some]
        cases innerGetCodeHash context params.contractAddress none with
        | error e => exact Or.inl ⟨rfl, rfl⟩
        | ok hash =>
            cases hash with
            | none => exact Or.inl ⟨rfl, rfl⟩
            | some hash =>
                cases hconfig : innerGetVmConfig context with
                | error e => exact Or.inl ⟨rfl, rfl⟩
                | ok config =>
                    cases innerGetCode context params.contractAddress none with
                    | error e => exact Or.inl ⟨rfl, rfl⟩
                    | ok code =>
                        cases code with
                        | none => exact Or.inl ⟨rfl, rfl⟩
                        | some code =>
                            obtain ⟨f, hsteps, heq⟩ := lib.innerVmValidate_eq hconfig sender
                              params.contractAddress code .call params.method params.params
                              params.payValue
                            exact Or.inr ⟨config, _, f, rfl,
                              ⟨lib.wf_startValidate _ _ _ _ _ _ _ _ _, rfl, rfl, hsteps⟩, heq⟩
  · exact Or.inl ⟨rfl, rfl⟩

/-- What is left in the transaction buffer when entries are written. -/
theorem alike_foldr_iff {context : Context} {items : List (DBKey × Option DBValue)} :
    context.Alike (items.foldr (fun item c => c.payloadSet item.1 item.2) context) ↔
      ∀ key value, AssocMap.get? items key = some value →
        AssocMap.get? context.payloadState.txBuffer key = some value := by
  have hfoldr : items.foldr (fun item c => c.payloadSet item.1 item.2) context =
      { context with
        payloadState :=
          { context.payloadState with
            txBuffer := AssocMap.extend context.payloadState.txBuffer items } } := by
    induction items with
    | nil => rfl
    | cons item items ih =>
        rw [List.foldr_cons, ih]
        rfl
  have hget : ∀ key, AssocMap.get? (AssocMap.extend context.payloadState.txBuffer items) key =
      (AssocMap.get? items key).or (AssocMap.get? context.payloadState.txBuffer key) :=
    fun key => AssocMap.get?_extend _ _ key
  rw [hfoldr]
  constructor
  · intro h key value hvalue
    have hsame := h.txBuffer key
    rw [hget, hvalue, Option.some_or] at hsame
    exact hsame.symm
  · intro h
    refine ⟨rfl, rfl, rfl, fun key => ?_⟩
    rw [hget]
    cases hvalue : AssocMap.get? items key with
    | none => rfl
    | some value => exact (h key value hvalue).symm

/-- Every account that the transfers of the outermost contract touch in a
validation has in the end the entry that the transaction buffer had for it
before. -/
def Settled (context : Context) (sender : Option Address) (call : Call) : Prop :=
  ∀ config m f items, lib.startValidate? context sender call = some (config, m) →
    Machine.Transfers (lib.vm config) m items (Machine.ended f []) →
    ∀ key value, AssocMap.get? items key = some value →
      AssocMap.get? context.payloadState.txBuffer key = some value

/-- The validation of a call has no effect: it leaves the context, and when it
accepts the call, the execution after it is that without it. -/
structure Effectless (others : Context → Option Address → Call → Context × ModuleResult Bytes)
    (context : Context) (sender : Option Address) (call : Call) : Prop where
  validate : context.Alike (lib.validateCall context sender call).1
  execute : (lib.validateCall context sender call).2 = .ok (.ok ()) →
    (lib.executorExecuteCall others context sender call).2 =
        ((lib.dispatcher others).executeCall context sender call).2 ∧
      ((lib.dispatcher others).executeCall context sender call).1.Alike
        (lib.executorExecuteCall others context sender call).1

variable {lib}

/-- A validation that leaves its context is followed by the execution without
it. -/
theorem Effectless.of_alike
    {others : Context → Option Address → Call → Context × ModuleResult Bytes}
    {context : Context} {sender : Option Address} {call : Call}
    (h : context.Alike (lib.validateCall context sender call).1)
    (hstart : lib.startValidate? context sender call = none →
      (lib.validateCall context sender call).1 = context) :
    lib.Effectless others context sender call := by
  refine ⟨h, fun hok => ?_⟩
  have hexecute : lib.executorExecuteCall others context sender call =
      (lib.dispatcher others).executeCall (lib.validateCall context sender call).1 sender call := by
    rw [executorExecuteCall]
    generalize lib.validateCall context sender call = p at hok
    obtain ⟨c, r⟩ := p
    obtain rfl : r = .ok (.ok ()) := hok
    rfl
  rw [hexecute]
  cases hrun : lib.startValidate? context sender call with
  | none =>
      rw [hstart hrun]
      exact ⟨rfl, .refl _⟩
  | some p =>
      -- Only the two calls that run contracts start one.
      have hcontract : call.module = "contract" ∧
          (call.method = "create" ∨ call.method = "execute") := by
        unfold startValidate? at hrun
        split at hrun
        · next hmodule hmethod => exact ⟨hmodule, .inl hmethod⟩
        · next hmodule hmethod => exact ⟨hmodule, .inr hmethod⟩
        · cases hrun
      exact lib.executeCall_alike others h sender hcontract.1 hcontract.2

variable (lib)

theorem validateCall_fst (context : Context) (sender : Option Address) (call : Call) :
    (lib.validateCall context sender call).1 = (lib.moduleValidateCall context sender call).1 :=
  rfl

/-- Validation has no effect exactly if the outermost contract's transfers leave
every account with what the transaction buffer had for it; in a context without
pending writes, exactly if there are none. -/
theorem effectless_iff_settled
    (others : Context → Option Address → Call → Context × ModuleResult Bytes)
    (context : Context) (sender : Option Address) (call : Call) :
    (lib.Effectless others context sender call ↔ lib.Settled context sender call) ∧
      (context.payloadState.txBuffer = [] →
        (lib.Effectless others context sender call ↔
          ∀ config m f items, lib.startValidate? context sender call = some (config, m) →
            Machine.Transfers (lib.vm config) m items (Machine.ended f []) → items = [])) := by
  have hiff : lib.Effectless others context sender call ↔ lib.Settled context sender call := by
    rcases lib.moduleValidateCall_cases context sender call with
      ⟨hnone, hcontext⟩ | ⟨config, m, f, hstart, hvalidates, heq⟩
    · constructor
      · intro _ config m f items hstart
        rw [hnone] at hstart
        cases hstart
      · intro _
        refine .of_alike ?_ fun _ => hcontext
        rw [validateCall_fst, hcontext]
        exact .refl context
    · have hend : ∀ items f', Machine.Transfers (lib.vm config) m items (Machine.ended f' []) →
          (lib.validateCall context sender call).1 =
            items.foldr (fun item c => c.payloadSet item.1 item.2) context := by
        intro items f' htransfers
        obtain rfl := Machine.Steps.eq_ended hvalidates.steps htransfers.steps
        rw [validateCall_fst, heq, ← hvalidates.executor]
        exact htransfers.executor hvalidates.wf
      constructor
      · intro heffectless config' m' f' items hstart' htransfers
        obtain ⟨rfl, rfl⟩ : config = config' ∧ m = m' :=
          Prod.mk.injEq .. ▸ Option.some.inj (hstart.symm.trans hstart')
        have halike := heffectless.validate
        rw [hend items f' htransfers] at halike
        exact alike_foldr_iff.1 halike
      · intro hsettled
        obtain ⟨items, htransfers⟩ := Machine.exists_transfers hvalidates.steps
        refine .of_alike ?_ fun hnone => ?_
        · rw [hend items f htransfers]
          exact alike_foldr_iff.2 (hsettled config m f items hstart htransfers)
        · rw [hnone] at hstart
          cases hstart
  refine ⟨hiff, fun hempty => hiff.trans ?_⟩
  constructor
  · intro hsettled config m f items hstart htransfers
    cases items with
    | nil => rfl
    | cons item items =>
        have hheld := hsettled config m f _ hstart htransfers item.1 item.2 (by simp)
        rw [hempty] at hheld
        cases hheld
  · intro hnil config m f items hstart htransfers key value hvalue
    rw [hnil config m f items hstart htransfers] at hvalue
    cases hvalue

end Library

namespace Sample

/-- Contracts that validate a call as they execute it. -/
def validating (contracts : List (Bytes × Process)) : Library where
  util := util
  run := fun config code func =>
    (library contracts).run config code
      (if func = Mode.call.validateFunc then Mode.call.executeFunc else func)

/-- A contract that takes what it is paid. -/
def payee : Library := validating [([1], sequence [.inl .pay])]

/-- The contract at the account 2, called by the account 9. -/
def payeeContext : Context :=
  ((payee.executor others address).executeTxs (context [(9, 1000)]) [create 9 2 [1]]).1

def payeeCall : Call := (execute 9 51 2 5).tx.call

/-- Validating the call moves the amount. -/
theorem not_effectless_payee :
    ¬ ∀ (lib : Library)
      (others : Context → Option Address → Call → Context × ModuleResult Bytes)
      (context : Context) (sender : Option Address) (call : Call),
      lib.Effectless others context sender call := by
  intro heffectless
  have halike := (heffectless payee others payeeContext (some (account 9)) payeeCall).validate
  have hbuffer := halike.txBuffer (BalanceModule.balance.key (account 9))
  revert hbuffer
  decide +kernel

/-- The contract `[2]` writes, emits an event and pays the contract `[1]` at the
account 2. It makes no transfer of its own. -/
def treasurer : Library :=
  validating [([1], sequence [.inl .pay]),
    ([2], sequence [.inl (.storageWrite [7] (some [1])), .inl (.eventWrite [3]),
      .inr (nested 2 5 none)])]

def treasurerContext : Context :=
  ((treasurer.executor others address).executeTxs (context [(3, 100), (9, 1000)])
    [create 9 2 [1], create 9 3 [2]]).1

def treasurerCall : Call := (execute 9 51 3 0).tx.call

/-- The validation comes to a state with the write, the events of both
contracts and the payment of 5, and drops it all. -/
theorem effectless_treasurer :
    (∃ config m m', treasurer.startValidate? treasurerContext (some (account 9)) treasurerCall =
        some (config, m) ∧ Machine.Steps (treasurer.vm config) m m' ∧ m'.world.callers = [] ∧
        m'.world.payloadGet (moduleKey treasurer.util (account 3) [7]) = some [1] ∧
        m'.world.top.events.length = 2 ∧ m'.world.balances (account 3) = 95 ∧
        m'.world.balances (account 2) = 5) ∧
      (treasurer.validateCall treasurerContext (some (account 9)) treasurerCall).2 =
        .ok (.ok ()) ∧
      treasurer.Effectless others treasurerContext (some (account 9)) treasurerCall := by
  refine ⟨?_, by decide +kernel, ?_⟩
  · have hsometime : (treasurer.startValidate? treasurerContext (some (account 9)) treasurerCall).any
        (fun p => Machine.sometime (treasurer.vm p.1) (fun m' => decide (m'.world.callers = [] ∧
          m'.world.payloadGet (moduleKey treasurer.util (account 3) [7]) = some [1] ∧
          m'.world.top.events.length = 2 ∧ m'.world.balances (account 3) = 95 ∧
          m'.world.balances (account 2) = 5)) 20 p.2) = true := by
      decide +kernel
    obtain ⟨⟨config, m⟩, hstart, hm⟩ := (Option.any_eq_true _ _).1 hsometime
    obtain ⟨m', hsteps, hm'⟩ := Machine.of_sometime hm
    exact ⟨config, m, m', hstart, hsteps, of_decide_eq_true hm'⟩
  · have hempty : treasurerContext.payloadState.txBuffer = [] := by decide +kernel
    have halways : (treasurer.startValidate? treasurerContext (some (account 9)) treasurerCall).all
        (fun p => Machine.always (treasurer.vm p.1)
          (fun m => decide (m.outerWrites (treasurer.vm p.1) = [])) 20 p.2) = true := by
      decide +kernel
    apply ((treasurer.effectless_iff_settled others treasurerContext (some (account 9))
      treasurerCall).2 hempty).2
    intro config m f items hstart htransfers
    rw [hstart] at halways
    exact htransfers.eq_nil fun m' hsteps => of_decide_eq_true (Machine.of_always halways hsteps)

end Sample

end Finastate.Contract
