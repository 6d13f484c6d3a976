import Finastate.Executor.Context

/-!
# The virtual machine

A contract is WebAssembly code, compiled and run by a library outside the
node. All the node sees of a run is the sequence of its calls into the host
and how it ends, so a run is a `Process`: a tree of host calls whose branches
are the answers. Arguments that a contract passes as a pointer and a length
are the bytes they point to, and a buffer that the host fills is the answer.
-/

namespace Finastate.Vm

open Executor (CommonError)

structure VMConfig where
  maxStackHeight : Nat
  initialMemoryPages : Nat
  maxMemoryPages : Nat
  maxShareValueLen : Nat
  maxShareSize : Nat
  maxNestDepth : Nat
  deriving DecidableEq, Repr

/-- `VMConfig::default`. -/
def VMConfig.default : VMConfig where
  maxStackHeight := 16 * 1024
  initialMemoryPages := 2 ^ 10
  maxMemoryPages := 2 ^ 11
  maxShareValueLen := 2 ^ 20 * 100
  maxShareSize := 1024
  maxNestDepth := 8

inductive Mode where
  | init
  | call
  deriving DecidableEq, Repr

inductive ContractError where
  | unsigned
  | serialize
  | deserialize
  | invalidMethod
  | invalidParams
  | invalidAddress
  | badUTF8
  | shareIllegalAccess
  | shareSizeExceeded
  | shareValueLenExceeded
  | notPayable
  | contractAddressNotFound
  | nestedContractNotFound
  | nestDepthExceeded
  | transfer (msg : String)
  | panic (msg : String)
  | user (msg : String)
  deriving DecidableEq, Repr

namespace ContractError

/-- `Display for ContractError`. -/
def toString : ContractError → String
  | unsigned => "Unsigned"
  | serialize => "Serialize"
  | deserialize => "Deserialize"
  | invalidMethod => "InvalidMethod"
  | invalidParams => "InvalidParams"
  | invalidAddress => "InvalidAddress"
  | badUTF8 => "BadUTF8"
  | shareIllegalAccess => "ShareIllegalAccess"
  | shareSizeExceeded => "ShareSizeExceeded"
  | shareValueLenExceeded => "ShareValueLenExceeded"
  | notPayable => "NotPayable"
  | contractAddressNotFound => "ContractAddressNotFound"
  | nestedContractNotFound => "NestedContractNotFound"
  | nestDepthExceeded => "NestDepthExceeded"
  | transfer msg => "Transfer: " ++ msg
  | panic msg => "Panic: " ++ msg
  | user msg => msg

/-- The text before the first `": "` and the text after its colon. -/
def splitColon : List Char → Option (List Char × List Char)
  | [] => none
  | ':' :: ' ' :: rest => some ([], ' ' :: rest)
  | c :: rest => (splitColon rest).map fun (before, after) => (c :: before, after)

/-- `From<&str> for ContractError`. -/
def ofString (v : String) : ContractError :=
  match v with
  | "Unsigned" => unsigned
  | "Serialize" => serialize
  | "Deserialize" => deserialize
  | "InvalidMethod" => invalidMethod
  | "InvalidParams" => invalidParams
  | "InvalidAddress" => invalidAddress
  | "BadUTF8" => badUTF8
  | "ShareIllegalAccess" => shareIllegalAccess
  | "ShareSizeExceeded" => shareSizeExceeded
  | "ShareValueLenExceeded" => shareValueLenExceeded
  | "NotPayable" => notPayable
  | "ContractAddressNotFound" => contractAddressNotFound
  | "NestedContractNotFound" => nestedContractNotFound
  | "NestDepthExceeded" => nestDepthExceeded
  | v =>
      match splitColon v.toList with
      | some (before, after) =>
          match String.ofList before with
          | "Panic" => panic (String.ofList after)
          | "Transfer" => transfer (String.ofList after)
          | _ => user v
      | none => user v

end ContractError

/-- Errors of the WebAssembly library are kept by the text they are displayed
with. -/
inductive ApplicationError where
  | contractError (e : ContractError)
  | wasm (text : String)
  deriving DecidableEq, Repr

/-- `Display for ApplicationError`. -/
def ApplicationError.toString : ApplicationError → String
  | contractError e => "ContractError: " ++ e.toString
  | wasm text => text

/-- Beside the two kinds of error of the source, `panic` is the unwinding of a
Rust panic inside a host function. Nothing on the way up handles it. -/
inductive VMError where
  | system (e : CommonError)
  | application (e : ApplicationError)
  | panic
  deriving DecidableEq, Repr

abbrev VMResult := Except VMError

/-- `From<ContractError> for VMError`. -/
def VMError.contract (e : ContractError) : VMError := .application (.contractError e)

/-- The functions of `import` other than the two that run another contract. -/
inductive HostCall where
  | shareRead (shareId : Nat)
  | shareLen (shareId : Nat)
  | shareWrite (data : Bytes) (shareId : Nat)
  | methodRead (shareId : Nat)
  | paramsRead (shareId : Nat)
  | payValueRead
  | resultWrite (data : Bytes)
  | errorReturn (msg : Bytes)
  | abort
  | envBlockNumber
  | envBlockTimestamp
  | envTxHashRead (shareId : Nat)
  | envContractAddressRead (shareId : Nat)
  | envSenderAddressRead (shareId : Nat)
  | storageRead (key : Bytes) (shareId : Nat)
  | storageWrite (key : Bytes) (value : Option Bytes)
  | eventWrite (event : Bytes)
  | utilHash (data : Bytes) (shareId : Nat)
  | utilAddress (data : Bytes) (shareId : Nat)
  | utilValidateAddress (address : Address)
  | utilValidateAddressEa (address : Address) (errorShareId : Nat)
  | balanceRead (address : Address)
  | balanceTransfer (recipient : Address) (value : Balance)
  | balanceTransferEa (recipient : Address) (value : Balance) (errorShareId : Nat)
  | pay
  deriving DecidableEq, Repr

/-- The arguments of `contract_execute`, and with an `errorShareId` those of
`contract_execute_ea`. -/
structure NestedCall where
  contractAddress : Address
  method : Bytes
  params : Bytes
  payValue : Balance
  shareId : Nat
  errorShareId : Option Nat
  deriving DecidableEq, Repr

/-- What a host function returns to the contract. -/
inductive Reply where
  | unit
  | value (n : Nat)
  | data (bytes : Bytes)
  deriving DecidableEq, Repr

/-- A run of a contract, as far as the host sees it. A host function that
fails ends the run with its error, so a branch only follows a success. -/
inductive Process where
  | done (result : VMResult Unit)
  | call (c : HostCall) (next : Reply → Process)
  | execute (c : NestedCall) (next : Reply → Process)

/-- The exported function that `VM::execute` calls. -/
def Mode.executeFunc : Mode → String
  | init => "execute_init"
  | call => "execute_call"

/-- The exported function that `VM::validate` calls. -/
def Mode.validateFunc : Mode → String
  | init => "validate_init"
  | call => "validate_call"

/-- What a run of contracts is given: the limits, the algorithms of the chain
and the WebAssembly library, which turns the code and the name of an exported
function into the run of it. Compiled modules are cached by the hash of the
code, which changes no run as long as that hash has no collisions. -/
structure VM where
  config : VMConfig
  util : Executor.Util
  run : Bytes → String → Process

end Finastate.Vm
