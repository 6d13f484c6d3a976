import Finastate.Module.Governance

/-!
# Genesis and proposals of the contract module

Every contract has an admin of its own, which decides on the next admin and on
new code. The two kinds of proposals of a contract are kept under its address;
a passed code proposal is stored as the next version of the contract.
-/

namespace Finastate.Contract

open Executor Governance

/-- `update_admin_proposal_id`: contract address to the next id. -/
def updateAdminProposalId : StorageMap Address Nat where
  moduleKey := STORAGE_KEY
  storageKey := asBytes "update_admin_proposal_id"
  encodeKey := encodeAddress
  encode := Codec.encodeLe 4
  decode := Codec.decodeU32

/-- `update_admin_proposal`: contract address to the pending proposal. -/
def updateAdminProposal : StorageMap Address (Proposal Admin) where
  moduleKey := STORAGE_KEY
  storageKey := asBytes "update_admin_proposal"
  encodeKey := encodeAddress
  encode := encodeProposal encodeAdmin
  decode := decodeProposal decodeAdmin

/-- `update_code_proposal_id`: contract address to the next id. -/
def updateCodeProposalId : StorageMap Address Nat where
  moduleKey := STORAGE_KEY
  storageKey := asBytes "update_code_proposal_id"
  encodeKey := encodeAddress
  encode := Codec.encodeLe 4
  decode := Codec.decodeU32

/-- `update_code_proposal`: contract address to the pending proposal. -/
def updateCodeProposal : StorageMap Address (Proposal Bytes) where
  moduleKey := STORAGE_KEY
  storageKey := asBytes "update_code_proposal"
  encodeKey := encodeAddress
  encode := encodeProposal Codec.encodeBytes
  decode := decodeProposal Codec.decodeBytes

/-- The proposals of a contract for its admin. -/
def adminKind (contractAddress : Address) : Kind Admin where
  admin := admin.entry contractAddress
  adminNotFound := "Contract admin not found"
  proposalId := updateAdminProposalId.entry contractAddress
  proposal := updateAdminProposal.entry contractAddress
  eventName := "UpdateAdminProposal"
  eventData := fun proposal => encodeAddress contractAddress ++ encodeProposal encodeAdmin proposal

/-- The proposals of a contract for its code; an event has the hash in place
of the code. -/
def codeKind (util : Util) (contractAddress : Address) : Kind Bytes where
  admin := admin.entry contractAddress
  adminNotFound := "Contract admin not found"
  proposalId := updateCodeProposalId.entry contractAddress
  proposal := updateCodeProposal.entry contractAddress
  eventName := "UpdateCodeProposal"
  eventData := fun proposal => encodeAddress contractAddress ++
    encodeProposal (fun code => Codec.encodeBytes (util.hash code).bytes) proposal

/-- The limits of the virtual machine; those that are not given have a default. -/
structure InitParams where
  maxStackHeight : Option Nat
  initialMemoryPages : Option Nat
  maxMemoryPages : Option Nat
  maxShareValueLen : Option Nat
  maxShareSize : Option Nat
  maxNestDepth : Option Nat
  deriving DecidableEq, Repr

section Methods

variable {C : Type} [ContextT C]

def init (context : C) (params : InitParams) : ModuleResult C :=
  if (ContextT.env context).number ≠ 0 then .error (.ofString "Not genesis")
  else
    let context := maxStackHeight.set context params.maxStackHeight
    let context := initialMemoryPages.set context params.initialMemoryPages
    let context := maxMemoryPages.set context params.maxMemoryPages
    let context := maxShareValueLen.set context params.maxShareValueLen
    let context := maxShareSize.set context params.maxShareSize
    .ok (maxNestDepth.set context params.maxNestDepth)

def passAdmin (contractAddress : Address) (context : C) (proposal : Proposal Admin) :
    ModuleResult C :=
  .ok (admin.set context contractAddress proposal.value)

def passCode (util : Util) (contractAddress : Address) (context : C)
    (proposal : Proposal Bytes) : ModuleResult C :=
  (version.get context contractAddress).bind fun found =>
    match found with
    | none => .error (.ofString "Contract version not found")
    | some found =>
        let newVersion := wrapAdd 32 found 1
        let context := version.set context contractAddress newVersion
        let context := code.set context (contractAddress, newVersion) proposal.value
        .ok (codeHash.set context (contractAddress, newVersion) (util.hash proposal.value))

def updateAdmin (context : C) (sender : Option Address) (contractAddress : Address)
    (newAdmin : Admin) : ModuleResult C :=
  (adminKind contractAddress).update (passAdmin contractAddress) context sender
    (aggregateAdmin newAdmin)

def updateAdminVote (context : C) (sender : Option Address) (contractAddress : Address)
    (proposalId : Nat) : ModuleResult C :=
  (adminKind contractAddress).updateVote (passAdmin contractAddress) context sender proposalId

def updateCode (util : Util) (context : C) (sender : Option Address) (contractAddress : Address)
    (newCode : Bytes) : ModuleResult C :=
  (codeKind util contractAddress).update (passCode util contractAddress) context sender newCode

def updateCodeVote (util : Util) (context : C) (sender : Option Address)
    (contractAddress : Address) (proposalId : Nat) : ModuleResult C :=
  (codeKind util contractAddress).updateVote (passCode util contractAddress) context sender
    proposalId

end Methods

end Finastate.Contract
