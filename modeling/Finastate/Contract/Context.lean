import Finastate.Module.Balance
import Finastate.Vm.Basic

/-!
# The contexts of running contracts

A `DefaultVMContext` holds a stack of write buffers: its own over those of its
callers over the executor. A context derives a second stack for the balance
module (`module_context`) and, on its first nested call, a context for its
callees (`nested_vm_context`) that it keeps. So the contexts of one
transaction form a chain. `CallStack` is that chain, cut at the running
contract: `stack` has its context and those of its callers, `nested` the ones
kept below it. The buffer stack of `base_context` is the list of the `payload`
buffers of `stack`, its back first.
-/

namespace Finastate.Contract

open Executor Vm

structure VMContractEnv where
  contractAddress : Option Address
  senderAddress : Option Address
  deriving DecidableEq, Repr

/-- The part of a `DefaultVMContext` that is its own: the environment, the
back of the stacks of `base_context` and the back of those of
`module_context`. -/
structure VMContext where
  contractEnv : VMContractEnv
  payload : Buffer
  events : List Event
  modulePayload : Buffer
  moduleEvents : List Event
  deriving DecidableEq, Repr

def VMContext.new (contractEnv : VMContractEnv) : VMContext :=
  { contractEnv, payload := [], events := [], modulePayload := [], moduleEvents := [] }

/-- `callers` are the contexts below the running one `top`, the closest first.
The first of `nested` is the `nested_vm_context` of `top`. -/
structure CallStack where
  executor : Context
  top : VMContext
  callers : List VMContext
  nested : List VMContext

namespace CallStack

variable (w : CallStack)

/-- The contexts of the running contract and its callers. -/
def stack : List VMContext := w.top :: w.callers

/-- `base_context.payload_get`. -/
def payloadGet (key : DBKey) : Option DBValue :=
  Overlay.read w.executor.payloadGet (w.stack.map VMContext.payload) key

/-- `base_context.payload_set`. -/
def payloadSet (key : DBKey) (value : Option DBValue) : CallStack :=
  { w with top := { w.top with payload := AssocMap.insert w.top.payload key value } }

/-- `base_context.payload_apply`: into the buffer of the caller, or into the
executor if there is none. -/
def payloadApply (items : List (DBKey × Option DBValue)) : CallStack :=
  match w.callers with
  | caller :: callers =>
      { w with
        callers :=
          { caller with payload := AssocMap.extend caller.payload items } :: callers }
  | [] =>
      { w with
        executor := items.foldr (fun item executor => executor.payloadSet item.1 item.2)
          w.executor }

/-- `base_context.emit_event`. -/
def emitEvent (event : Event) : CallStack :=
  { w with top := { w.top with events := w.top.events ++ [event] } }

/-- `base_context.apply_events`. -/
def applyEvents (items : List Event) : CallStack :=
  match w.callers with
  | caller :: callers =>
      { w with callers := { caller with events := caller.events ++ items } :: callers }
  | [] => { w with executor := items.foldl Context.emitEvent w.executor }

/-- `payload_drain_buffer` and `drain_events` of the running contract, without
what they return. -/
def drain : CallStack := { w with top := { w.top with payload := [], events := [] } }

/-- `module_context`, as the balance module sees it. -/
structure ModuleContext where
  world : CallStack

instance : ContextT ModuleContext where
  env := fun c => c.world.executor.env
  callEnv := fun c => c.world.executor.callEnv
  payloadGet := fun c =>
    Overlay.read c.world.executor.payloadGet
      (c.world.top.modulePayload :: c.world.stack.map VMContext.payload)
  payloadSet := fun c key value =>
    { world := { c.world with
        top := { c.world.top with
          modulePayload := AssocMap.insert c.world.top.modulePayload key value } } }
  emitEvent := fun c event =>
    { world := { c.world with
        top := { c.world.top with moduleEvents := c.world.top.moduleEvents ++ [event] } } }

/-- `module_to_vm_error`. -/
def moduleToVmError : ModuleError → VMError
  | .system e => .system e
  | .application (.invalidAddress _) => .contract .invalidAddress
  | .application .unsigned => .contract .unsigned
  | .application (.user msg) => .contract (.user msg)

def moduleBalanceGet (address : Address) : VMResult Balance :=
  (BalanceModule.getBalance (ModuleContext.mk w) (some address)).mapError moduleToVmError

def moduleBalanceTransfer (util : Util) (sender recipient : Address) (value : Balance) :
    VMResult CallStack :=
  let params : BalanceModule.TransferParams := { recipient, value }
  match BalanceModule.validateTransfer util params with
  | .error e => .error (moduleToVmError e)
  | .ok _ =>
      match BalanceModule.transfer (ModuleContext.mk w) (some sender) params with
      | .error e => .error (moduleToVmError e)
      | .ok context => .ok context.world

/-- `module_payload_drain_buffer` and `module_drain_events`, without what they
return. -/
def moduleDrain : CallStack :=
  { w with top := { w.top with modulePayload := [], moduleEvents := [] } }

/-- `module_payload_apply`. It goes through `base_context`, so the writes of
the balance module pass by the buffer of the contract itself. -/
def modulePayloadApply (items : List (DBKey × Option DBValue)) : CallStack :=
  w.payloadApply items

/-- `module_apply_events`, through `module_context`. -/
def moduleApplyEvents (items : List Event) : CallStack :=
  { w with top := { w.top with events := w.top.events ++ items } }

/-- What `balance_transfer` and `pay` do after the balance module: drain its
buffers and apply them. -/
def moduleApply : CallStack :=
  (w.moduleDrain.modulePayloadApply w.top.modulePayload).moduleApplyEvents w.top.moduleEvents

/-- `nested_vm_payload_drain_buffer` and `nested_vm_drain_events`, without
what they return. There is no nested context only if it was never made, and
then `expect` panics. -/
def nestedDrain : VMResult CallStack :=
  match w.nested with
  | [] => .error .panic
  | n :: nested => .ok { w with nested := { n with payload := [], events := [] } :: nested }

/-- `nested_vm_payload_apply` and `nested_vm_apply_events` of what is drained
from the nested context. The caller of the nested context is `top`. -/
def nestedApply : VMResult CallStack :=
  match w.nested with
  | [] => .error .panic
  | n :: nested =>
      .ok { w with
        top := { w.top with
          payload := AssocMap.extend w.top.payload n.payload
          events := w.top.events ++ n.events }
        nested := { n with payload := [], events := [] } :: nested }

/-- The first part of `nested_vm_contract_execute`: make the nested context if
there is none yet. The one that is there is taken as it is, for any
`contract_address`. -/
def prepareNested (config : VMConfig) (contractAddress : Address) : VMResult CallStack :=
  match w.nested with
  | _ :: _ => .ok w
  | [] =>
      if config.maxNestDepth < w.stack.length + 1 then
        .error (.contract .nestDepthExceeded)
      else
        .ok { w with
          nested := [.new
            { contractAddress := some contractAddress
              senderAddress := w.top.contractEnv.contractAddress }] }

/-- The nested context runs. -/
def enter : CallStack :=
  match w.nested with
  | [] => w
  | n :: nested => { w with top := n, callers := w.top :: w.callers, nested := nested }

/-- The nested context is done, and its caller runs on. -/
def leave : CallStack :=
  match w.callers with
  | [] => w
  | caller :: callers => { w with top := caller, callers := callers, nested := w.top :: w.nested }

end CallStack

end Finastate.Contract
