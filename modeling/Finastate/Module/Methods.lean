import Finastate.Contract.Module

/-!
# The methods of the modules

`validate_call` of a module decodes the parameters of a method and calls the
function that is named after it, if there is one. But for `create` and
`execute` of the contract module such a function looks at the parameters only.
-/

namespace Finastate.Methods

open Executor Codec

/-- `validate_call` for one method. -/
def validated {α : Type} (decode : Decoder α) (validate : α → ModuleResult Unit)
    (params : Bytes) : ModuleResult Unit :=
  match decode params with
  | none => .error (.system (.invalidTxParams "Codec error"))
  | some (params, _) => validate params

/-- A method without a function for its validation. -/
def decoded {α : Type} (decode : Decoder α) (params : Bytes) : ModuleResult Unit :=
  validated decode (fun _ => .ok ()) params

/-- The loop `for address in .. { util.validate_address(address)? }`. -/
def validateAddresses (util : Util) : List Address → ModuleResult Unit
  | [] => .ok ()
  | address :: addresses =>
      (util.validateAddress address).bind fun _ => validateAddresses util addresses

def decodeEmptyParams : Decoder Unit := fun input => some ((), input)

def decodeBoth {α β : Type} (first : Decoder α) (second : Decoder β) : Decoder (α × β) :=
  fun input => do
    let (x, rest) ← first input
    let (y, rest) ← second rest
    return ((x, y), rest)

/-- `Vec<(Address, u32)>`. -/
def decodeMembers : Decoder (List (Address × Nat)) := decodeVec (decodeBoth decodeAddress decodeU32)

/-- `Admin` of each of the modules: the threshold and the members. -/
def decodeAdmin : Decoder (Nat × List (Address × Nat)) := decodeBoth decodeU32 decodeMembers

abbrev Validate := Bytes → ModuleResult Unit

namespace System

structure InitParams where
  chainId : String
  timestamp : Nat
  maxUntilGap : BlockNumber
  /-- The byte of an `i8`. -/
  maxExecutionGap : Nat
  consensus : String

def decodeInitParams : Decoder InitParams := fun input => do
  let (chainId, rest) ← decodeString input
  let (timestamp, rest) ← decodeU64 rest
  let (maxUntilGap, rest) ← decodeU64 rest
  let (maxExecutionGap, rest) ← decodeLe 1 rest
  let (consensus, rest) ← decodeString rest
  return ({ chainId, timestamp, maxUntilGap, maxExecutionGap, consensus }, rest)

def consensusList : List String := ["poa", "raft", "hotstuff"]

def validateInit (params : InitParams) : ModuleResult Unit :=
  if params.consensus ∈ consensusList then .ok ()
  else .error (.ofString "Unknown consensus")

def methods : String → Option Validate
  | "init" => some (validated decodeInitParams validateInit)
  | "get_meta" => some (decoded decodeEmptyParams)
  | _ => none

end System

namespace Balance

def validateInit (util : Util) (endow : List (Address × Balance)) : ModuleResult Unit :=
  validateAddresses util (endow.map Prod.fst)

def methods (util : Util) : String → Option Validate
  | "init" => some (validated (decodeVec (decodeBoth decodeAddress decodeU64)) (validateInit util))
  | "get_balance" => some (decoded decodeEmptyParams)
  | "transfer" =>
      some (validated BalanceModule.decodeTransferParams (BalanceModule.validateTransfer util))
  | _ => none

end Balance

namespace Poa

structure InitParams where
  blockInterval : Option Nat
  admin : Nat × List (Address × Nat)
  authority : Address

def decodeInitParams : Decoder InitParams := fun input => do
  let (blockInterval, rest) ← Contract.decodeOption decodeU64 input
  let (admin, rest) ← decodeAdmin rest
  let (authority, rest) ← decodeAddress rest
  return ({ blockInterval, admin, authority }, rest)

def validateInit (util : Util) (params : InitParams) : ModuleResult Unit :=
  (validateAddresses util (params.admin.2.map Prod.fst)).bind fun _ =>
    util.validateAddress params.authority

def methods (util : Util) : String → Option Validate
  | "init" => some (validated decodeInitParams (validateInit util))
  | "get_meta" => some (decoded decodeEmptyParams)
  | "get_authority" => some (decoded decodeEmptyParams)
  | "get_admin" => some (decoded decodeEmptyParams)
  | "update_admin" => some (decoded decodeAdmin)
  | "update_admin_vote" => some (decoded decodeU32)
  | "update_authority" => some (decoded decodeAddress)
  | "update_authority_vote" => some (decoded decodeU32)
  | _ => none

end Poa

namespace Raft

structure InitParams where
  blockInterval : Option Nat
  heartbeatInterval : Nat
  electionTimeoutMin : Nat
  electionTimeoutMax : Nat
  admin : Nat × List (Address × Nat)
  authorities : List Address

def decodeInitParams : Decoder InitParams := fun input => do
  let (blockInterval, rest) ← Contract.decodeOption decodeU64 input
  let (heartbeatInterval, rest) ← decodeU64 rest
  let (electionTimeoutMin, rest) ← decodeU64 rest
  let (electionTimeoutMax, rest) ← decodeU64 rest
  let (admin, rest) ← decodeAdmin rest
  let (authorities, rest) ← decodeVec decodeAddress rest
  return ({ blockInterval, heartbeatInterval, electionTimeoutMin, electionTimeoutMax, admin,
            authorities }, rest)

def validateInit (util : Util) (params : InitParams) : ModuleResult Unit :=
  (validateAddresses util (params.admin.2.map Prod.fst)).bind fun _ =>
    validateAddresses util params.authorities

def methods (util : Util) : String → Option Validate
  | "init" => some (validated decodeInitParams (validateInit util))
  | "get_meta" => some (decoded decodeEmptyParams)
  | "get_authorities" => some (decoded decodeEmptyParams)
  | "get_admin" => some (decoded decodeEmptyParams)
  | "update_admin" => some (decoded decodeAdmin)
  | "update_admin_vote" => some (decoded decodeU32)
  | "update_authorities" => some (decoded (decodeVec decodeAddress))
  | "update_authorities_vote" => some (decoded decodeU32)
  | _ => none

end Raft

namespace Hotstuff

structure InitParams where
  blockInterval : Option Nat
  viewTimeout : Nat
  admin : Nat × List (Address × Nat)
  authorities : List (Address × Nat)

def decodeInitParams : Decoder InitParams := fun input => do
  let (blockInterval, rest) ← Contract.decodeOption decodeU64 input
  let (viewTimeout, rest) ← decodeU64 rest
  let (admin, rest) ← decodeAdmin rest
  let (authorities, rest) ← decodeMembers rest
  return ({ blockInterval, viewTimeout, admin, authorities }, rest)

def validateInit (util : Util) (params : InitParams) : ModuleResult Unit :=
  (validateAddresses util (params.admin.2.map Prod.fst)).bind fun _ =>
    validateAddresses util (params.authorities.map Prod.fst)

def methods (util : Util) : String → Option Validate
  | "init" => some (validated decodeInitParams (validateInit util))
  | "get_meta" => some (decoded decodeEmptyParams)
  | "get_authorities" => some (decoded decodeEmptyParams)
  | "get_admin" => some (decoded decodeEmptyParams)
  | "update_admin" => some (decoded decodeAdmin)
  | "update_admin_vote" => some (decoded decodeU32)
  | "update_authorities" => some (decoded decodeMembers)
  | "update_authorities_vote" => some (decoded decodeU32)
  | _ => none

end Hotstuff

namespace Contract

/-- The limits: `Option<u32>` three times, `Option<u64>` twice, `Option<u32>`. -/
def decodeInitParams : Decoder (List (Option Nat)) := fun input => do
  let (maxStackHeight, rest) ← Finastate.Contract.decodeOption decodeU32 input
  let (initialMemoryPages, rest) ← Finastate.Contract.decodeOption decodeU32 rest
  let (maxMemoryPages, rest) ← Finastate.Contract.decodeOption decodeU32 rest
  let (maxShareValueLen, rest) ← Finastate.Contract.decodeOption decodeU64 rest
  let (maxShareSize, rest) ← Finastate.Contract.decodeOption decodeU64 rest
  let (maxNestDepth, rest) ← Finastate.Contract.decodeOption decodeU32 rest
  return ([maxStackHeight, initialMemoryPages, maxMemoryPages, maxShareValueLen, maxShareSize,
            maxNestDepth], rest)

def decodeVersioned : Decoder (Address × Option Nat) :=
  decodeBoth decodeAddress (Finastate.Contract.decodeOption decodeU32)

def validateUpdateAdmin (util : Util) (params : Address × Nat × List (Address × Nat)) :
    ModuleResult Unit :=
  validateAddresses util (params.2.2.map Prod.fst)

/-- The methods other than `create` and `execute`. -/
def methods (util : Util) : String → Option Validate
  | "init" => some (decoded decodeInitParams)
  | "get_version" => some (decoded decodeAddress)
  | "get_admin" => some (decoded decodeAddress)
  | "get_code" => some (decoded decodeVersioned)
  | "get_code_hash" => some (decoded decodeVersioned)
  | "update_admin" =>
      some (validated (decodeBoth decodeAddress decodeAdmin) (validateUpdateAdmin util))
  | "update_admin_vote" => some (decoded (decodeBoth decodeAddress decodeU32))
  | "update_code" => some (decoded (decodeBoth decodeAddress decodeBytes))
  | "update_code_vote" => some (decoded (decodeBoth decodeAddress decodeU32))
  | _ => none

end Contract

/-- The methods of a module. -/
def methods (util : Util) : String → Option (String → Option Validate)
  | "system" => some System.methods
  | "balance" => some (Balance.methods util)
  | "poa" => some (Poa.methods util)
  | "raft" => some (Raft.methods util)
  | "hotstuff" => some (Hotstuff.methods util)
  | "contract" => some (Contract.methods util)
  | _ => none

/-- `validate_call` of the calls that look at their parameters only. -/
def validateCall (util : Util) (call : Call) : ModuleResult Unit :=
  match methods util call.module with
  | none => .error (.system (.invalidTxModule call.module))
  | some methods =>
      match methods call.method with
      | none => .error (.system (.invalidTxMethod call.method))
      | some validate => validate call.params

/-- The methods that are marked `write = true`. -/
def writeMethods : String → List String
  | "system" => ["init"]
  | "balance" => ["init", "transfer"]
  | "poa" =>
      ["init", "update_admin", "update_admin_vote", "update_authority", "update_authority_vote"]
  | "raft" | "hotstuff" =>
      ["init", "update_admin", "update_admin_vote", "update_authorities",
        "update_authorities_vote"]
  | _ =>
      ["init", "create", "update_admin", "update_admin_vote", "update_code", "update_code_vote",
        "execute"]

/-- `Dispatcher::is_write_call`. -/
def isWriteCall (util : Util) (call : Call) : Except CommonError Bool :=
  match methods util call.module with
  | none => .error (.invalidTxModule call.module)
  | some methods =>
      let known := (methods call.method).isSome ||
        call.module == "contract" && (call.method == "create" || call.method == "execute")
      if known then .ok (decide (call.method ∈ writeMethods call.module))
      else .error (.invalidTxMethod call.method)

end Finastate.Methods
