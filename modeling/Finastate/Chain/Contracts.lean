import Finastate.Contract.Validate
import Finastate.Chain.Genesis

/-!
# The backend with its modules

The backend of the chain on the balance and the contract module. The methods
that are not modelled are programs, as those of any other module are.
-/

namespace Finastate

open Executor Contract

namespace Executor.Context

variable {c : Context}

theorem Keeps.foldr_payloadSet (c : Context) (items : List (DBKey × Option DBValue)) :
    Keeps false c (items.foldr (fun item c => c.payloadSet item.1 item.2) c) := by
  induction items with
  | nil => exact .refl false c
  | cons item items ih => exact ih.trans (Keeps.set false _ item.1 item.2)

theorem Keeps.foldl_emitEvent (c : Context) (events : List Event) :
    Keeps false c (events.foldl Context.emitEvent c) := by
  induction events generalizing c with
  | nil => exact .refl false c
  | cons event events ih => exact (Keeps.emitEvent false c event).trans (ih _)

end Executor.Context

namespace Contract

theorem CallStack.keeps_payloadApply (w : CallStack) (items : List (DBKey × Option DBValue)) :
    Context.Keeps false w.executor (w.payloadApply items).executor := by
  obtain ⟨executor, top, callers, nested⟩ := w
  cases callers with
  | nil => exact .foldr_payloadSet executor items
  | cons caller callers => exact .refl false executor

theorem CallStack.keeps_applyEvents (w : CallStack) (events : List Event) :
    Context.Keeps false w.executor (w.applyEvents events).executor := by
  obtain ⟨executor, top, callers, nested⟩ := w
  cases callers with
  | nil => exact .foldl_emitEvent executor events
  | cons caller callers => exact .refl false executor

/-- A machine writes into the payload state of the executor and nowhere else. -/
theorem Machine.keeps_executor {vm : Vm.VM} {m : Machine} {f : Final} (hwf : WF vm m)
    (hsteps : Steps vm m (ended f [])) :
    Context.Keeps false m.world.executor f.world.executor := by
  obtain ⟨items, htransfers⟩ := exists_transfers hsteps
  have hexecutor : f.world.executor = _ := htransfers.executor hwf
  rw [hexecutor]
  exact .foldr_payloadSet _ items

namespace Library

variable (lib : Library)

theorem modular_finish (f : Final) : Context.Keeps false f.world.executor (finish f).1 := by
  rw [finish]
  cases f.result with
  | error e => exact .refl false _
  | ok u =>
      exact (f.world.drain.keeps_payloadApply _).trans (CallStack.keeps_applyEvents _ _)

theorem modular_innerVmExecute (context : Context) (senderAddress contractAddress : Address)
    (code : Bytes) (mode : Vm.Mode) (method : String) (params : Bytes) (payValue : Balance) :
    Context.Keeps false context (lib.innerVmExecute context senderAddress contractAddress code mode
      method params payValue).1 := by
  cases hconfig : innerGetVmConfig context with
  | error e =>
      rw [innerVmExecute, hconfig]
      exact .refl false context
  | ok config =>
      obtain ⟨f, hsteps, heq⟩ := lib.innerVmExecute_eq_finish hconfig senderAddress
        contractAddress code mode method params payValue
      rw [heq]
      exact (Machine.keeps_executor (lib.wf_start _ _ _ _ _ _ _ _ _) hsteps).trans
        (modular_finish f)

theorem modular_create (context : Context) (sender : Option Address) (params : CreateParams) :
    Context.Keeps false context (lib.create context sender params).1 := by
  cases sender with
  | none => exact .refl false context
  | some sender =>
      simp only [create]
      cases context.callEnv.txHash with
      | none => exact .refl false context
      | some txHash =>
          have hstore : Context.Keeps false context
              (lib.store context sender (lib.contractAddress txHash) params.code) :=
            ((((Context.Keeps.set false context _ _).trans (.set false _ _ _)).trans
              (.set false _ _ _)).trans (.set false _ _ _))
          have hexecute := hstore.trans (lib.modular_innerVmExecute _ sender
            (lib.contractAddress txHash) params.code .init params.initMethod params.initParams
            params.initPayValue)
          simp only
          generalize lib.innerVmExecute _ _ _ _ _ _ _ _ = out at hexecute ⊢
          obtain ⟨c, result⟩ := out
          cases result with
          | error e => exact hexecute
          | ok output => exact hexecute

theorem modular_execute (context : Context) (sender : Option Address) (params : ExecuteParams) :
    Context.Keeps false context (lib.execute context sender params).1 := by
  cases sender with
  | none => exact .refl false context
  | some sender =>
      simp only [execute]
      split
      · exact .refl false context
      · exact .refl false context
      · split
        · exact .refl false context
        · exact .refl false context
        · exact .refl false context
        · exact lib.modular_innerVmExecute ..

theorem modular_transfer (context : Context) (sender : Option Address)
    (params : BalanceModule.TransferParams) {context' : Context}
    (h : BalanceModule.transfer context sender params = .ok context') :
    Context.Keeps false context context' := by
  obtain ⟨account, -, htransferred⟩ := BalanceModule.transfer_eq_ok h
  rw [htransferred.eq]
  exact ((Context.Keeps.set false context _ _).trans (.set false _ _ _)).trans
    (.emitEvent false _ _)

theorem modular_decoded {α : Type} (decode : Codec.Decoder α) (context : Context) (params : Bytes)
    {method : α → Context × ModuleResult Bytes}
    (h : ∀ params, Context.Keeps false context (method params).1) :
    Context.Keeps false context (decoded decode context params method).1 := by
  rw [decoded]
  split
  · exact .refl false context
  · exact h _

/-- Methods that are programs, on the state of their module. -/
def runPrograms (programs : Option Address → Call → Program (ModuleResult Bytes))
    (context : Context) (sender : Option Address) (call : Call) : Context × ModuleResult Bytes :=
  match isMeta call.module with
  | .error e => (context, .error (.system e))
  | .ok isMeta => (programs sender call).run isMeta context

theorem modular_dispatcher (programs : Option Address → Call → Program (ModuleResult Bytes)) :
    (lib.dispatcher (runPrograms programs)).Modular := by
  intro context sender call kind hkind
  change isMeta call.module = .ok kind at hkind
  change Context.Keeps kind context (lib.executeCall (runPrograms programs) context sender call).1
  unfold executeCall
  split
  · next hmodule _ =>
    rw [hmodule] at hkind
    obtain rfl : false = kind := Except.ok.inj hkind
    refine modular_decoded _ _ _ fun params => ?_
    cases htransfer : BalanceModule.transfer context sender params with
    | error e => exact .refl false context
    | ok context' => exact modular_transfer context sender params htransfer
  · next hmodule _ =>
    rw [hmodule] at hkind
    obtain rfl : false = kind := Except.ok.inj hkind
    exact modular_decoded _ _ _ fun params => lib.modular_create context sender params
  · next hmodule _ =>
    rw [hmodule] at hkind
    obtain rfl : false = kind := Except.ok.inj hkind
    exact modular_decoded _ _ _ fun params => lib.modular_execute context sender params
  · rw [runPrograms, hkind]
    exact Program.run_keeps kind _ context

def validator (address : PublicKey → Address)
    (verify : PublicKey → Bytes → Signature → Except String Bool) : Validator where
  validateCall := lib.validateCall
  isWriteCall := Methods.isWriteCall lib.util
  address := address
  verify := verify

theorem modular_validator (address : PublicKey → Address)
    (verify : PublicKey → Bytes → Signature → Except String Bool) :
    (lib.validator address verify).Modular := by
  intro context sender call
  refine ⟨false, ?_⟩
  change Context.Keeps false context (lib.moduleValidateCall context sender call).1
  rcases lib.moduleValidateCall_cases context sender call with
    ⟨-, hcontext⟩ | ⟨config, m, f, -, hvalidates, heq⟩
  · rw [hcontext]
    exact .refl false context
  · rw [heq, ← hvalidates.executor]
    exact Machine.keeps_executor hvalidates.wf hvalidates.steps

end Library

end Contract

/-- The backend with the algorithms of another one and the modules of the
chain. -/
def Contract.Library.backend (lib : Library)
    (programs : Option Address → Call → Program (ModuleResult Bytes))
    (algorithms : Chain.Backend) : Chain.Backend :=
  { algorithms with
    dispatcher := lib.dispatcher (Library.runPrograms programs)
    modular := lib.modular_dispatcher programs
    validator := lib.validator algorithms.validator.address algorithms.validator.verify
    validates := lib.modular_validator _ _ }

end Finastate
