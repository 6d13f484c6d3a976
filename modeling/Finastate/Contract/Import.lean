import Finastate.Contract.Context
import Finastate.Contract.Storage

/-!
# The functions a contract imports

`State` is what the host keeps for one run of a contract: the shares through
which data is exchanged, what the run was called with and what it returns. A
host function works on it and on the contexts. The functions that run another
contract come in two halves, before (`enterNested`) and after (`finishNested`)
the run of the callee.
-/

namespace Finastate.Contract

open Executor Vm

structure State where
  shares : List (Nat × Bytes)
  method : String
  params : Bytes
  payValue : Balance
  result : Option Bytes
  deriving DecidableEq, Repr

/-- What a host function leaves behind. -/
structure Outcome where
  state : State
  world : CallStack
  result : VMResult Reply

namespace State

def new (method : String) (params : Bytes) (payValue : Balance) : State :=
  { shares := [], method, params, payValue, result := none }

/-- What the run returns: the written result, or the JSON text of `()`. -/
def output (s : State) : Bytes := s.result.getD (asBytes "null")

def shareToVec (s : State) (shareId : Nat) : VMResult Bytes :=
  match AssocMap.get? s.shares shareId with
  | some data => .ok data
  | none => .error (.contract .shareIllegalAccess)

def shareToLen (s : State) (shareId : Nat) : Nat :=
  match AssocMap.get? s.shares shareId with
  | some data => data.length
  | none => 2 ^ 64 - 1

/-- A share that makes one too many stays. -/
def vecToShare (config : VMConfig) (s : State) (shareId : Nat) (data : Bytes) :
    State × VMResult Unit :=
  if config.maxShareValueLen < data.length then
    (s, .error (.contract .shareValueLenExceeded))
  else
    let s := { s with shares := AssocMap.insert s.shares shareId data }
    if config.maxShareSize < s.shares.length then (s, .error (.contract .shareSizeExceeded))
    else (s, .ok ())

/-- `vec_to_share`, then the answer. -/
def share (config : VMConfig) (s : State) (w : CallStack) (shareId : Nat) (data : Bytes)
    (reply : Reply) : Outcome :=
  let (s, r) := s.vecToShare config shareId data
  { state := s, world := w, result := r.map fun _ => reply }

/-- Data that may be missing: shared with the answer `1`, or the answer `0`. -/
def shareOption (config : VMConfig) (s : State) (w : CallStack) (shareId : Nat) :
    Option Bytes → Outcome
  | some data => s.share config w shareId data (.value 1)
  | none => { state := s, world := w, result := .ok (.value 0) }

/-- `make_error_aware`. -/
def makeErrorAware (config : VMConfig) (s : State) (w : CallStack) (result : VMResult Unit)
    (errorShareId : Nat) : Outcome :=
  match result with
  | .ok _ => { state := s, world := w, result := .ok (.value 0) }
  | .error (.application e) =>
      s.share config w errorShareId (asBytes e.toString) (.value 1)
  | .error e => { state := s, world := w, result := .error e }

end State

namespace CallStack

/-- `vm_to_module_key`. -/
def vmToModuleKey (w : CallStack) (util : Util) (key : Bytes) : VMResult DBKey :=
  match w.top.contractEnv.contractAddress with
  | none => .error (.contract .contractAddressNotFound)
  | some contractAddress => .ok (moduleKey util contractAddress key)

def balanceTransfer (w : CallStack) (util : Util) (recipient : Address) (value : Balance) :
    CallStack × VMResult Unit :=
  match w.top.contractEnv.contractAddress with
  | none => (w, .error (.contract .contractAddressNotFound))
  | some sender =>
      match w.moduleBalanceTransfer util sender recipient value with
      | .error e => (w, .error e)
      | .ok w => (w.moduleApply, .ok ())

def pay (w : CallStack) (util : Util) (payValue : Balance) : CallStack × VMResult Unit :=
  match w.top.contractEnv.senderAddress with
  | none => (w, .error (.contract .unsigned))
  | some sender =>
      match w.top.contractEnv.contractAddress with
      | none => (w, .error (.contract .contractAddressNotFound))
      | some contractAddress =>
          if 0 < payValue then
            match w.moduleBalanceTransfer util sender contractAddress payValue with
            | .error e => (w, .error e)
            | .ok w => (w.moduleApply, .ok ())
          else (w.moduleApply, .ok ())

end CallStack

variable (vm : VM)

def errorReturn (msg : Bytes) : VMError :=
  match String.fromUTF8? ⟨msg.toArray⟩ with
  | none => .contract .badUTF8
  | some msg => .contract (.ofString msg)

def utilValidateAddress (address : Address) : VMResult Unit :=
  (vm.util.validateAddress address).mapError CallStack.moduleToVmError

/-- The imported functions but the two that run another contract. -/
def hostCall (c : HostCall) (s : State) (w : CallStack) : Outcome :=
  match c with
  | .shareRead shareId =>
      { state := s, world := w, result := (s.shareToVec shareId).map .data }
  | .shareLen shareId =>
      { state := s, world := w, result := .ok (.value (s.shareToLen shareId)) }
  | .shareWrite data shareId => s.share vm.config w shareId data .unit
  | .methodRead shareId => s.share vm.config w shareId (asBytes s.method) .unit
  | .paramsRead shareId => s.share vm.config w shareId s.params .unit
  | .payValueRead => { state := s, world := w, result := .ok (.value s.payValue) }
  | .resultWrite data =>
      { state := { s with result := some data }, world := w, result := .ok .unit }
  | .errorReturn msg => { state := s, world := w, result := .error (errorReturn msg) }
  | .abort =>
      { state := s, world := w
        result := .error (.contract (.panic "AssemblyScript panic")) }
  | .envBlockNumber =>
      { state := s, world := w, result := .ok (.value w.executor.env.number) }
  | .envBlockTimestamp =>
      { state := s, world := w, result := .ok (.value w.executor.env.timestamp) }
  | .envTxHashRead shareId =>
      s.shareOption vm.config w shareId (w.executor.callEnv.txHash.map Hash.bytes)
  | .envContractAddressRead shareId =>
      s.shareOption vm.config w shareId (w.top.contractEnv.contractAddress.map Address.bytes)
  | .envSenderAddressRead shareId =>
      s.shareOption vm.config w shareId (w.top.contractEnv.senderAddress.map Address.bytes)
  | .storageRead key shareId =>
      match w.vmToModuleKey vm.util key with
      | .error e => { state := s, world := w, result := .error e }
      | .ok key => s.shareOption vm.config w shareId (w.payloadGet key)
  | .storageWrite key value =>
      match w.vmToModuleKey vm.util key with
      | .error e => { state := s, world := w, result := .error e }
      | .ok key => { state := s, world := w.payloadSet key value, result := .ok .unit }
  | .eventWrite event =>
      { state := s, world := w.emitEvent (.raw event), result := .ok .unit }
  | .utilHash data shareId => s.share vm.config w shareId (vm.util.hash data).bytes .unit
  | .utilAddress data shareId =>
      s.share vm.config w shareId (vm.util.address data).bytes .unit
  | .utilValidateAddress address =>
      { state := s, world := w
        result := (utilValidateAddress vm address).map fun _ => .unit }
  | .utilValidateAddressEa address errorShareId =>
      s.makeErrorAware vm.config w (utilValidateAddress vm address) errorShareId
  | .balanceRead address =>
      { state := s, world := w, result := (w.moduleBalanceGet address).map .value }
  | .balanceTransfer recipient value =>
      let (w, r) := w.balanceTransfer vm.util recipient value
      { state := s, world := w, result := r.map fun _ => .unit }
  | .balanceTransferEa recipient value errorShareId =>
      match w.balanceTransfer vm.util recipient value with
      | (w, .ok _) => s.makeErrorAware vm.config w (.ok ()) errorShareId
      | (w, .error e) => s.makeErrorAware vm.config w.moduleDrain (.error e) errorShareId
  | .pay =>
      let (w, r) := w.pay vm.util s.payValue
      { state := s, world := w, result := r.map fun _ => .unit }

/-- `contract_execute` up to the run of the callee, which is the run of its
current code. The first half of `nested_vm_contract_execute` is in it. -/
def enterNested (c : NestedCall) (w : CallStack) : CallStack × VMResult (Process × State) :=
  match String.fromUTF8? ⟨c.method.toArray⟩ with
  | none => (w, .error (.contract .invalidMethod))
  | some method =>
      match w.prepareNested vm.config c.contractAddress with
      | .error e => (w, .error e)
      | .ok w =>
          match innerGetCodeHash w.executor c.contractAddress none with
          | .error e => (w, .error (CallStack.moduleToVmError e))
          | .ok none => (w, .error (.contract .nestedContractNotFound))
          | .ok (some _) =>
              match innerGetCode w.executor c.contractAddress none with
              | .error e => (w, .error (CallStack.moduleToVmError e))
              | .ok none => (w, .error (.contract .nestedContractNotFound))
              | .ok (some code) =>
                  (w.enter,
                    .ok (vm.run code Mode.call.executeFunc, .new method c.params c.payValue))

/-- `contract_execute` after the run of the callee. -/
def finishExecute (c : NestedCall) (s : State) (w : CallStack) (result : VMResult Bytes) :
    State × CallStack × VMResult Unit :=
  match result with
  | .error e => (s, w, .error e)
  | .ok data =>
      match s.vecToShare vm.config c.shareId data with
      | (s, .error e) => (s, w, .error e)
      | (s, .ok _) =>
          match w.nestedApply with
          | .error e => (s, w, .error e)
          | .ok w => (s, w, .ok ())

/-- `contract_execute` and `contract_execute_ea` after the run of the
callee. -/
def finishNested (c : NestedCall) (s : State) (w : CallStack) (result : VMResult Bytes) :
    Outcome :=
  match finishExecute vm c s w result, c.errorShareId with
  | (s, w, r), none => { state := s, world := w, result := r.map fun _ => .unit }
  | (s, w, .ok _), some errorShareId => s.makeErrorAware vm.config w (.ok ()) errorShareId
  | (s, w, .error e), some errorShareId =>
      match w.nestedDrain with
      | .error e => { state := s, world := w, result := .error e }
      | .ok w => s.makeErrorAware vm.config w (.error e) errorShareId

end Finastate.Contract
