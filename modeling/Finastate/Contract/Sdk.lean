import Finastate.Contract.Import
import Finastate.Contract.Json
import Finastate.Library.Dialogue

/-!
# The library that contracts are written with

A contract in Rust calls the imported functions through `contract-sdk`, and
`contract-sdk-macro` makes its exported functions from its methods. A function of
it is a dialogue with the host. It ends with a value or a `ContractError`, or a
trap stops it. `toProcess` is such a function as the host sees it.

A share is read as soon as it is written, so the functions return what the host
has, and but for `storage_write` and `event_write` they leave the contexts as
they are.
-/

namespace Finastate.Contract.Sdk

open Executor Vm

abbrev Program := Dialogue (HostCall ⊕ NestedCall) Reply VMError

abbrev ContractResult := ExceptT ContractError Program

/-! ## Imported functions -/

/-- The `u64` that is returned. -/
def number : Reply → Nat
  | .value n => n
  | _ => 0

/-- The buffer that is filled. -/
def buffer : Reply → Bytes
  | .data bytes => bytes
  | _ => []

/-- An imported function that returns nothing. -/
def invoke (c : HostCall) : Program Unit := .ask (.inl c) fun _ => .ret ()

/-- An imported function that returns a `u64`. -/
def value (c : HostCall) : Program Nat := .ask (.inl c) fun reply => .ret (number reply)

/-- An imported function that fills a buffer. -/
def data (c : HostCall) : Program Bytes := .ask (.inl c) fun reply => .ret (buffer reply)

/-- `Option::ok_or`. -/
def okOr {α : Type} (e : ContractError) : Option α → ContractResult α
  | some a => pure a
  | none => throw e

/-- `return Err(e)` under a condition. -/
def failIf (p : Prop) [Decidable p] (e : ContractError) : ContractResult Unit :=
  if p then throw e else pure ()

def shareToVec (shareId : Nat) : Program (Option Bytes) := do
  let len ← value (.shareLen shareId)
  if len = 2 ^ 64 - 1 then return none
  else return some (← data (.shareRead shareId))

/-- The data of a share, without which there is an error. -/
def sharedVec (shareId : Nat) : ContractResult Bytes := do
  okOr .shareIllegalAccess (← shareToVec shareId)

def vecFromFunc (f : Nat → Program Unit) : ContractResult Bytes := do
  f 0
  sharedVec 0

def optionVecFromFunc (f : Nat → Program Nat) : ContractResult (Option Bytes) := do
  if (← f 0) = 1 then
    let value ← sharedVec 0
    return some value
  else return none

def nullFromFunc (f : Program Unit) : ContractResult Unit := f

def fromErrorAware {α : Type} (error errorShareId : Nat) (getData : ContractResult α) :
    ContractResult α := do
  if error = 1 then
    let error ← sharedVec errorShareId
    let error ← okOr .badUTF8 (String.fromUTF8? ⟨error.toArray⟩)
    throw (.ofString error)
  else getData

def vecFromFuncEa (f : Nat → Nat → Program Nat) : ContractResult Bytes := do
  let error ← f 0 1
  fromErrorAware error 1 (sharedVec 0)

def nullFromFuncEa (f : Nat → Program Nat) : ContractResult Unit := do
  let error ← f 0
  fromErrorAware error 0 (pure ())

/-! ## The context of a contract -/

structure Context where
  env : ContextEnv
  callEnv : CallEnv
  contractEnv : VMContractEnv

namespace Context

def new : ContractResult Context := do
  let number ← value .envBlockNumber
  let timestamp ← value .envBlockTimestamp
  let txHash ← optionVecFromFunc fun shareId => value (.envTxHashRead shareId)
  let contractAddress ← optionVecFromFunc fun shareId => value (.envContractAddressRead shareId)
  let senderAddress ← optionVecFromFunc fun shareId => value (.envSenderAddressRead shareId)
  return {
    env := { number, timestamp }
    callEnv := { txHash := txHash.map Hash.mk }
    contractEnv := {
      contractAddress := contractAddress.map Address.mk
      senderAddress := senderAddress.map Address.mk } }

def emitEvent (serde : SerdeJson) {α : Type} [Serialize α] (name : String) (data : α) :
    ContractResult Unit := do
  let event ← okOr .serialize (serde.toVec (serialize (ContractEvent.mk name data)))
  invoke (.eventWrite event)

def balanceGet (address : Address) : ContractResult Balance := value (.balanceRead address)

def balanceTransfer (recipient : Address) (value : Balance) : ContractResult Unit :=
  nullFromFunc (invoke (.balanceTransfer recipient value))

def balanceTransferEa (recipient : Address) (value : Balance) : ContractResult Unit :=
  nullFromFuncEa fun errorShareId => Sdk.value (.balanceTransferEa recipient value errorShareId)

def contractExecute (contractAddress : Address) (method : String) (params : Bytes)
    (payValue : Balance) : ContractResult Bytes :=
  vecFromFunc fun shareId =>
    .ask (.inr {
      contractAddress, method := asBytes method, params, payValue, shareId, errorShareId := none })
      fun _ => .ret ()

def contractExecuteEa (contractAddress : Address) (method : String) (params : Bytes)
    (payValue : Balance) : ContractResult Bytes :=
  vecFromFuncEa fun shareId errorShareId =>
    .ask (.inr {
      contractAddress, method := asBytes method, params, payValue, shareId,
      errorShareId := some errorShareId }) fun reply => .ret (number reply)

end Context

namespace Util

def hash (data : Bytes) : ContractResult Hash :=
  Hash.mk <$> vecFromFunc fun shareId => invoke (.utilHash data shareId)

def address (data : Bytes) : ContractResult Address :=
  Address.mk <$> vecFromFunc fun shareId => invoke (.utilAddress data shareId)

def validateAddress (address : Address) : ContractResult Unit :=
  invoke (.utilValidateAddress address)

def validateAddressEa (address : Address) : ContractResult Unit := do
  let error ← value (.utilValidateAddressEa address 0)
  fromErrorAware error 0 (pure ())

end Util

/-! ## Storage -/

section Storage

variable (serde : SerdeJson) {α : Type}

def storageGet [Deserialize α] (key : Bytes) : ContractResult (Option α) := do
  match ← optionVecFromFunc fun shareId => value (.storageRead key shareId) with
  | some value => okOr .deserialize ((serde.fromSlice value).bind deserialize)
  | none => return none

def storageSet [Serialize α] (key : Bytes) (value : α) : ContractResult Unit := do
  let value ← okOr .serialize (serde.toVec (serialize value))
  invoke (.storageWrite key (some value))

def storageDelete (key : Bytes) : ContractResult Unit := invoke (.storageWrite key none)

end Storage

structure StorageValue (α : Type) where
  key : Bytes

namespace StorageValue

variable {α : Type}

def new (storageKey : String) : StorageValue α where
  key := asBytes storageKey

def get (serde : SerdeJson) [Deserialize α] (v : StorageValue α) : ContractResult (Option α) :=
  storageGet serde v.key

def set (serde : SerdeJson) [Serialize α] (v : StorageValue α) (value : α) : ContractResult Unit :=
  storageSet serde v.key value

def delete (v : StorageValue α) : ContractResult Unit := storageDelete v.key

end StorageValue

structure StorageMap (α : Type) where
  key : Bytes

namespace StorageMap

variable {α : Type}

def new (storageKey : String) : StorageMap α where
  key := asBytes storageKey

/-- The key of an entry. -/
def entryKey (m : StorageMap α) (key : Bytes) : Bytes := m.key ++ SEPARATOR ++ key

def get (serde : SerdeJson) [Deserialize α] (m : StorageMap α) (key : Bytes) :
    ContractResult (Option α) :=
  storageGet serde (m.entryKey key)

def set (serde : SerdeJson) [Serialize α] (m : StorageMap α) (key : Bytes) (value : α) :
    ContractResult Unit :=
  storageSet serde (m.entryKey key) value

def delete (m : StorageMap α) (key : Bytes) : ContractResult Unit :=
  storageDelete (m.entryKey key)

end StorageMap

/-! ## Exported functions -/

/-- A method of a contract with the attribute `init` or `call`, as the macro
dispatches to it. The parameters are a text, and so is the result. -/
structure ModuleMethod (C : Type) where
  methodIdent : String
  validate : C → Bytes → Balance → ContractResult Unit
  execute : C → Bytes → Balance → ContractResult Bytes

section Macro

variable (serde : SerdeJson) {C α β : Type}

/-- The method `execute`, with its validator if it has one. -/
def moduleMethod [Deserialize α] [Serialize β] (methodIdent : String) (payable : Bool)
    (validate : Option (C → α → ContractResult Unit)) (execute : C → α → ContractResult β) :
    ModuleMethod C where
  methodIdent := methodIdent
  validate := fun contract params payValue => do
    failIf (0 < payValue ∧ payable = false) .notPayable
    let params ← okOr .invalidParams ((serde.fromSlice params).bind deserialize)
    match validate with
    | some validate => validate contract params
    | none => pure ()
  execute := fun contract params payValue => do
    failIf (0 < payValue ∧ payable = false) .notPayable
    if 0 < payValue then invoke .pay
    let params ← okOr .invalidParams ((serde.fromSlice params).bind deserialize)
    let result ← execute contract params
    okOr .serialize (serde.toVec (serialize result))

/-- `get_module_methods_by_name`: the methods with one of the two attributes, and
the match over their names. -/
def findMethod (methods : List (ModuleMethod C)) (method : String) :
    ContractResult (ModuleMethod C) :=
  okOr .invalidMethod (methods.find? fun m => m.methodIdent = method)

def getMethod : ContractResult String := do
  invoke (.methodRead 0)
  let _ ← value (.shareLen 0)
  let method ← data (.shareRead 0)
  okOr .invalidMethod (String.fromUTF8? ⟨method.toArray⟩)

def getParams : ContractResult Bytes := do
  invoke (.paramsRead 0)
  let _ ← value (.shareLen 0)
  let params ← data (.shareRead 0)
  return if params.length = 0 then asBytes "null" else params

def getPayValue : ContractResult Balance := value .payValueRead

def setResult : Except ContractError Unit → Program Unit
  | .ok _ => pure ()
  | .error e => invoke (.errorReturn (asBytes e.toString))

variable (new : ContractResult C) (methods : List (ModuleMethod C))

/-- `inner_validate_init` and `inner_validate_call`. -/
def innerValidate : ContractResult Unit := do
  let method ← getMethod
  let params ← getParams
  let payValue ← getPayValue
  let contract ← new
  let method ← findMethod methods method
  method.validate contract params payValue

/-- `inner_execute_init` and `inner_execute_call`. -/
def innerExecute : ContractResult Unit := do
  let method ← getMethod
  let params ← getParams
  let payValue ← getPayValue
  let contract ← new
  let method ← findMethod methods method
  let result ← method.execute contract params payValue
  invoke (.resultWrite result)

/-- `validate_init` and `validate_call`. -/
def validate : Program Unit := do
  setResult (← (innerValidate new methods).run)

/-- `execute_init` and `execute_call`. -/
def execute : Program Unit := do
  setResult (← (innerExecute new methods).run)

end Macro

/-- A run of an exported function, as the host sees it. -/
def toProcess : Program Unit → Process
  | .ret _ => .done (.ok ())
  | .stop e => .done (.error e)
  | .ask (.inl c) next => .call c fun reply => toProcess (next reply)
  | .ask (.inr c) next => .execute c fun reply => toProcess (next reply)

end Finastate.Contract.Sdk
