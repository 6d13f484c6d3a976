import Finastate.Module.Governance
import Finastate.Module.Methods

/-!
# The meta modules

The fields of the system, poa, raft and hotstuff modules with their `init` and
the methods that read them. The admin of a consensus module, and what it
decides on, change by proposals.
-/

namespace Finastate

open Executor Governance
open Contract (Admin encodeAdmin decodeAdmin encodeOption decodeOption)

/-- `value.get()?.ok_or("Unexpected none")?`. -/
def expectSome {V : Type} (value : ModuleResult (Option V)) : ModuleResult V :=
  value.bind fun value =>
    match value with
    | none => .error (.ofString "Unexpected none")
    | some value => .ok value

/-- `StorageValue<u64>`. -/
def storageU64 (moduleKey : Bytes) (field : String) : StorageValue Nat where
  moduleKey := moduleKey
  storageKey := asBytes field
  encode := Codec.encodeU64
  decode := Codec.decodeU64

/-- `StorageValue<u32>`. -/
def storageU32 (moduleKey : Bytes) (field : String) : StorageValue Nat where
  moduleKey := moduleKey
  storageKey := asBytes field
  encode := Codec.encodeLe 4
  decode := Codec.decodeU32

/-- `StorageValue<Option<u64>>`. -/
def storageOptionU64 (moduleKey : Bytes) (field : String) : StorageValue (Option Nat) where
  moduleKey := moduleKey
  storageKey := asBytes field
  encode := encodeOption Codec.encodeU64
  decode := decodeOption Codec.decodeU64

/-- `StorageValue<String>`. -/
def storageString (moduleKey : Bytes) (field : String) : StorageValue String where
  moduleKey := moduleKey
  storageKey := asBytes field
  encode := fun text => Codec.encodeBytes (asBytes text)
  decode := Codec.decodeString

/-- `StorageValue<Admin>`. -/
def storageAdmin (moduleKey : Bytes) (field : String) : StorageValue Admin where
  moduleKey := moduleKey
  storageKey := asBytes field
  encode := encodeAdmin
  decode := decodeAdmin

/-- `StorageValue<Update..Proposal>` for values of another storage value. -/
def storageProposal {V : Type} (value : StorageValue V) (field : String) :
    StorageValue (Proposal V) where
  moduleKey := value.moduleKey
  storageKey := asBytes field
  encode := encodeProposal value.encode
  decode := decodeProposal value.decode

/-- The two fields, the errors and the events of the proposals for a storage
value of a consensus module; a passed proposal is stored as the new value. -/
def storageKind {V : Type} (admin : StorageValue Admin) (value : StorageValue V)
    (idField proposalField eventName : String) : Kind V where
  admin := admin
  adminNotFound := "Admin not found"
  proposalId := storageU32 value.moduleKey idField
  proposal := storageProposal value proposalField
  eventName := eventName
  eventData := encodeProposal value.encode

/-- A passed proposal sets the storage value. -/
def storePassed {C V : Type} [ContextT C] (value : StorageValue V) (context : C)
    (proposal : Proposal V) : ModuleResult C :=
  .ok (value.set context proposal.value)

/-- The address of the one authority. -/
def storageAddress (moduleKey : Bytes) (field : String) : StorageValue Address where
  moduleKey := moduleKey
  storageKey := asBytes field
  encode := encodeAddress
  decode := Codec.decodeAddress

/-- `Authorities` of raft, addresses only. -/
def storageAddresses (moduleKey : Bytes) (field : String) : StorageValue (List Address) where
  moduleKey := moduleKey
  storageKey := asBytes field
  encode := Codec.encodeVec encodeAddress
  decode := Codec.decodeVec Codec.decodeAddress

def encodeMember (member : Address × Nat) : Bytes :=
  encodeAddress member.1 ++ Codec.encodeLe 4 member.2

/-- `Authorities` of hotstuff, addresses with their weights. -/
def storageMembers (moduleKey : Bytes) (field : String) :
    StorageValue (List (Address × Nat)) where
  moduleKey := moduleKey
  storageKey := asBytes field
  encode := Codec.encodeVec encodeMember
  decode := Methods.decodeMembers

variable {C : Type} [ContextT C]

namespace SystemModule

def STORAGE_KEY : Bytes := asBytes "system"

def chainId : StorageValue String := storageString STORAGE_KEY "chain_id"

def timestamp : StorageValue Nat := storageU64 STORAGE_KEY "timestamp"

def maxUntilGap : StorageValue BlockNumber := storageU64 STORAGE_KEY "max_until_gap"

/-- The byte of an `i8`. -/
def maxExecutionGap : StorageValue Nat where
  moduleKey := STORAGE_KEY
  storageKey := asBytes "max_execution_gap"
  encode := Codec.encodeLe 1
  decode := Codec.decodeLe 1

def consensus : StorageValue String := storageString STORAGE_KEY "consensus"

def init (context : C) (params : Methods.System.InitParams) : ModuleResult C :=
  if (ContextT.env context).number ≠ 0 then .error (.ofString "Not genesis")
  else
    let context := chainId.set context params.chainId
    let context := timestamp.set context params.timestamp
    let context := maxUntilGap.set context params.maxUntilGap
    let context := maxExecutionGap.set context params.maxExecutionGap
    .ok (consensus.set context params.consensus)

def getMeta (context : C) : ModuleResult Methods.System.InitParams := do
  let chainId ← expectSome (chainId.get context)
  let timestamp ← expectSome (timestamp.get context)
  let maxUntilGap ← expectSome (maxUntilGap.get context)
  let maxExecutionGap ← expectSome (maxExecutionGap.get context)
  let consensus ← expectSome (consensus.get context)
  return { chainId, timestamp, maxUntilGap, maxExecutionGap, consensus }

end SystemModule

namespace PoaModule

def STORAGE_KEY : Bytes := asBytes "poa"

def blockInterval : StorageValue (Option Nat) := storageOptionU64 STORAGE_KEY "block_interval"

def admin : StorageValue Admin := storageAdmin STORAGE_KEY "admin"

def authority : StorageValue Address := storageAddress STORAGE_KEY "authority"

def adminKind : Kind Admin :=
  storageKind admin admin "update_admin_proposal_id" "update_admin_proposal"
    "UpdateAdminProposal"

def authorityKind : Kind Address :=
  storageKind admin authority "update_authority_proposal_id" "update_authority_proposal"
    "UpdateAuthorityProposal"

def init (context : C) (params : Methods.Poa.InitParams) : ModuleResult C :=
  if (ContextT.env context).number ≠ 0 then .error (.ofString "Not genesis")
  else
    let context := blockInterval.set context params.blockInterval
    let context := admin.set context ⟨params.admin.1, params.admin.2⟩
    .ok (authority.set context params.authority)

def getMeta (context : C) : ModuleResult (Option Nat) := expectSome (blockInterval.get context)

def getAuthority (context : C) : ModuleResult Address := expectSome (authority.get context)

def getAdmin (context : C) : ModuleResult Admin := expectSome (admin.get context)

def updateAdmin (context : C) (sender : Option Address) (newAdmin : Admin) : ModuleResult C :=
  adminKind.update (storePassed admin) context sender (aggregateAdmin newAdmin)

def updateAdminVote (context : C) (sender : Option Address) (proposalId : Nat) :
    ModuleResult C :=
  adminKind.updateVote (storePassed admin) context sender proposalId

def updateAuthority (context : C) (sender : Option Address) (newAuthority : Address) :
    ModuleResult C :=
  authorityKind.update (storePassed authority) context sender newAuthority

def updateAuthorityVote (context : C) (sender : Option Address) (proposalId : Nat) :
    ModuleResult C :=
  authorityKind.updateVote (storePassed authority) context sender proposalId

end PoaModule

namespace RaftModule

def STORAGE_KEY : Bytes := asBytes "raft"

def blockInterval : StorageValue (Option Nat) := storageOptionU64 STORAGE_KEY "block_interval"

def heartbeatInterval : StorageValue Nat := storageU64 STORAGE_KEY "heartbeat_interval"

def electionTimeoutMin : StorageValue Nat := storageU64 STORAGE_KEY "election_timeout_min"

def electionTimeoutMax : StorageValue Nat := storageU64 STORAGE_KEY "election_timeout_max"

def admin : StorageValue Admin := storageAdmin STORAGE_KEY "admin"

def authorities : StorageValue (List Address) := storageAddresses STORAGE_KEY "authorities"

def adminKind : Kind Admin :=
  storageKind admin admin "update_admin_proposal_id" "update_admin_proposal"
    "UpdateAdminProposal"

def authoritiesKind : Kind (List Address) :=
  storageKind admin authorities "update_authorities_proposal_id" "update_authorities_proposal"
    "UpdateAuthoritiesProposal"

def init (context : C) (params : Methods.Raft.InitParams) : ModuleResult C :=
  if (ContextT.env context).number ≠ 0 then .error (.ofString "Not genesis")
  else
    let context := blockInterval.set context params.blockInterval
    let context := heartbeatInterval.set context params.heartbeatInterval
    let context := electionTimeoutMin.set context params.electionTimeoutMin
    let context := electionTimeoutMax.set context params.electionTimeoutMax
    let context := admin.set context ⟨params.admin.1, params.admin.2⟩
    .ok (authorities.set context params.authorities)

/-- The block interval, the heartbeat interval and the election timeouts. -/
def getMeta (context : C) : ModuleResult (Option Nat × Nat × Nat × Nat) := do
  let blockInterval ← expectSome (blockInterval.get context)
  let heartbeatInterval ← expectSome (heartbeatInterval.get context)
  let electionTimeoutMin ← expectSome (electionTimeoutMin.get context)
  let electionTimeoutMax ← expectSome (electionTimeoutMax.get context)
  return (blockInterval, heartbeatInterval, electionTimeoutMin, electionTimeoutMax)

def getAuthorities (context : C) : ModuleResult (List Address) :=
  expectSome (authorities.get context)

def getAdmin (context : C) : ModuleResult Admin := expectSome (admin.get context)

def updateAdmin (context : C) (sender : Option Address) (newAdmin : Admin) : ModuleResult C :=
  adminKind.update (storePassed admin) context sender (aggregateAdmin newAdmin)

def updateAdminVote (context : C) (sender : Option Address) (proposalId : Nat) :
    ModuleResult C :=
  adminKind.updateVote (storePassed admin) context sender proposalId

def updateAuthorities (context : C) (sender : Option Address) (newAuthorities : List Address) :
    ModuleResult C :=
  authoritiesKind.update (storePassed authorities) context sender newAuthorities

def updateAuthoritiesVote (context : C) (sender : Option Address) (proposalId : Nat) :
    ModuleResult C :=
  authoritiesKind.updateVote (storePassed authorities) context sender proposalId

end RaftModule

namespace HotstuffModule

def STORAGE_KEY : Bytes := asBytes "hotstuff"

def blockInterval : StorageValue (Option Nat) := storageOptionU64 STORAGE_KEY "block_interval"

def viewTimeout : StorageValue Nat := storageU64 STORAGE_KEY "view_timeout"

def admin : StorageValue Admin := storageAdmin STORAGE_KEY "admin"

def authorities : StorageValue (List (Address × Nat)) :=
  storageMembers STORAGE_KEY "authorities"

def adminKind : Kind Admin :=
  storageKind admin admin "update_admin_proposal_id" "update_admin_proposal"
    "UpdateAdminProposal"

def authoritiesKind : Kind (List (Address × Nat)) :=
  storageKind admin authorities "update_authorities_proposal_id" "update_authorities_proposal"
    "UpdateAuthoritiesProposal"

def init (context : C) (params : Methods.Hotstuff.InitParams) : ModuleResult C :=
  if (ContextT.env context).number ≠ 0 then .error (.ofString "Not genesis")
  else
    let context := blockInterval.set context params.blockInterval
    let context := viewTimeout.set context params.viewTimeout
    let context := admin.set context ⟨params.admin.1, params.admin.2⟩
    .ok (authorities.set context params.authorities)

def getMeta (context : C) : ModuleResult (Option Nat × Nat) := do
  let blockInterval ← expectSome (blockInterval.get context)
  let viewTimeout ← expectSome (viewTimeout.get context)
  return (blockInterval, viewTimeout)

def getAuthorities (context : C) : ModuleResult Hotstuff.Authorities :=
  (expectSome (authorities.get context)).map Hotstuff.Authorities.mk

def getAdmin (context : C) : ModuleResult Admin := expectSome (admin.get context)

def updateAdmin (context : C) (sender : Option Address) (newAdmin : Admin) : ModuleResult C :=
  adminKind.update (storePassed admin) context sender (aggregateAdmin newAdmin)

def updateAdminVote (context : C) (sender : Option Address) (proposalId : Nat) :
    ModuleResult C :=
  adminKind.updateVote (storePassed admin) context sender proposalId

def updateAuthorities (context : C) (sender : Option Address)
    (newAuthorities : List (Address × Nat)) : ModuleResult C :=
  authoritiesKind.update (storePassed authorities) context sender newAuthorities

def updateAuthoritiesVote (context : C) (sender : Option Address) (proposalId : Nat) :
    ModuleResult C :=
  authoritiesKind.updateVote (storePassed authorities) context sender proposalId

end HotstuffModule

end Finastate
