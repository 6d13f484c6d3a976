import Finastate.Contract.Governance
import Finastate.Contract.Isolation
import Finastate.Library.Fronts
import Finastate.Module.Meta

/-!
# The keys of the state

Every place where a module keeps something has a key: the key of a module, of
a field, and for a field that is a map the encoded key of the entry, put
together with separators. The separator is part of field names and of encoded
keys, and two fields of the contract module start with the name of another one
and a separator. Still no two places share a key, because the encoded keys of
the entries of one field all have the same length.
-/

namespace Finastate

open Executor

namespace Keys

/-- The limits of the virtual machine, in the contract module. -/
inductive LimitField
  | maxStackHeight | initialMemoryPages | maxMemoryPages | maxShareValueLen | maxShareSize
  | maxNestDepth
  deriving DecidableEq, Repr

def LimitField.key : LimitField → DBKey
  | maxStackHeight => Contract.maxStackHeight.key
  | initialMemoryPages => Contract.initialMemoryPages.key
  | maxMemoryPages => Contract.maxMemoryPages.key
  | maxShareValueLen => Contract.maxShareValueLen.key
  | maxShareSize => Contract.maxShareSize.key
  | maxNestDepth => Contract.maxNestDepth.key

/-- The maps of the contract module under the address of a contract. -/
inductive ContractField
  | admin | version | updateAdminProposalId | updateAdminProposal | updateCodeProposalId
  | updateCodeProposal
  deriving DecidableEq, Repr

def ContractField.key : ContractField → Address → DBKey
  | admin => Contract.admin.key
  | version => Contract.version.key
  | updateAdminProposalId => Contract.updateAdminProposalId.key
  | updateAdminProposal => Contract.updateAdminProposal.key
  | updateCodeProposalId => Contract.updateCodeProposalId.key
  | updateCodeProposal => Contract.updateCodeProposal.key

def ContractField.storageKey : ContractField → Bytes
  | admin => Contract.admin.storageKey
  | version => Contract.version.storageKey
  | updateAdminProposalId => Contract.updateAdminProposalId.storageKey
  | updateAdminProposal => Contract.updateAdminProposal.storageKey
  | updateCodeProposalId => Contract.updateCodeProposalId.storageKey
  | updateCodeProposal => Contract.updateCodeProposal.storageKey

/-- The maps of the contract module under the address and a version of a
contract. -/
inductive CodeField
  | code | codeHash
  deriving DecidableEq, Repr

def CodeField.key : CodeField → Address × Nat → DBKey
  | code => Contract.code.key
  | codeHash => Contract.codeHash.key

def CodeField.storageKey : CodeField → Bytes
  | code => Contract.code.storageKey
  | codeHash => Contract.codeHash.storageKey

inductive SystemField
  | chainId | timestamp | maxUntilGap | maxExecutionGap | consensus
  deriving DecidableEq, Repr

def SystemField.key : SystemField → DBKey
  | chainId => SystemModule.chainId.key
  | timestamp => SystemModule.timestamp.key
  | maxUntilGap => SystemModule.maxUntilGap.key
  | maxExecutionGap => SystemModule.maxExecutionGap.key
  | consensus => SystemModule.consensus.key

inductive PoaField
  | blockInterval | admin | authority | updateAdminProposalId | updateAdminProposal
  | updateAuthorityProposalId | updateAuthorityProposal
  deriving DecidableEq, Repr

def PoaField.key : PoaField → DBKey
  | blockInterval => PoaModule.blockInterval.key
  | admin => PoaModule.admin.key
  | authority => PoaModule.authority.key
  | updateAdminProposalId => PoaModule.adminKind.proposalId.key
  | updateAdminProposal => PoaModule.adminKind.proposal.key
  | updateAuthorityProposalId => PoaModule.authorityKind.proposalId.key
  | updateAuthorityProposal => PoaModule.authorityKind.proposal.key

inductive RaftField
  | blockInterval | heartbeatInterval | electionTimeoutMin | electionTimeoutMax | admin
  | authorities | updateAdminProposalId | updateAdminProposal | updateAuthoritiesProposalId
  | updateAuthoritiesProposal
  deriving DecidableEq, Repr

def RaftField.key : RaftField → DBKey
  | blockInterval => RaftModule.blockInterval.key
  | heartbeatInterval => RaftModule.heartbeatInterval.key
  | electionTimeoutMin => RaftModule.electionTimeoutMin.key
  | electionTimeoutMax => RaftModule.electionTimeoutMax.key
  | admin => RaftModule.admin.key
  | authorities => RaftModule.authorities.key
  | updateAdminProposalId => RaftModule.adminKind.proposalId.key
  | updateAdminProposal => RaftModule.adminKind.proposal.key
  | updateAuthoritiesProposalId => RaftModule.authoritiesKind.proposalId.key
  | updateAuthoritiesProposal => RaftModule.authoritiesKind.proposal.key

inductive HotstuffField
  | blockInterval | viewTimeout | admin | authorities | updateAdminProposalId
  | updateAdminProposal | updateAuthoritiesProposalId | updateAuthoritiesProposal
  deriving DecidableEq, Repr

def HotstuffField.key : HotstuffField → DBKey
  | blockInterval => HotstuffModule.blockInterval.key
  | viewTimeout => HotstuffModule.viewTimeout.key
  | admin => HotstuffModule.admin.key
  | authorities => HotstuffModule.authorities.key
  | updateAdminProposalId => HotstuffModule.adminKind.proposalId.key
  | updateAdminProposal => HotstuffModule.adminKind.proposal.key
  | updateAuthoritiesProposalId => HotstuffModule.authoritiesKind.proposalId.key
  | updateAuthoritiesProposal => HotstuffModule.authoritiesKind.proposal.key

end Keys

open Keys

/-- A place where a module keeps a value: a field, an entry of a field, or a
value that a contract keeps under a key of its own. -/
inductive Place
  | balance (account : Address)
  | limit (field : LimitField)
  | contract (field : ContractField) (contractAddress : Address)
  | versioned (field : CodeField) (contractAddress : Address) (version : Nat)
  | data (contractAddress : Address) (key : Bytes)
  | system (field : SystemField)
  | poa (field : PoaField)
  | raft (field : RaftField)
  | hotstuff (field : HotstuffField)
  deriving DecidableEq, Repr

namespace Place

/-- The key under which the module finds the place. -/
def key (util : Util) : Place → DBKey
  | balance account => BalanceModule.balance.key account
  | limit field => field.key
  | contract field contractAddress => field.key contractAddress
  | versioned field contractAddress version => field.key (contractAddress, version)
  | data contractAddress key => Contract.moduleKey util contractAddress key
  | system field => field.key
  | poa field => field.key
  | raft field => field.key
  | hotstuff field => field.key

/-- Addresses have the length of the chain and versions are of type `u32`. -/
def WellFormed (util : Util) : Place → Prop
  | balance account => account.bytes.length = util.addressLength
  | contract _ contractAddress => contractAddress.bytes.length = util.addressLength
  | versioned _ contractAddress version =>
      contractAddress.bytes.length = util.addressLength ∧ version < 2 ^ 32
  | data contractAddress _ => contractAddress.bytes.length = util.addressLength
  | _ => True

end Place

/-- A field of a module. -/
inductive Field
  | balance
  | limit (field : LimitField)
  | contract (field : ContractField)
  | versioned (field : CodeField)
  | data
  | system (field : SystemField)
  | poa (field : PoaField)
  | raft (field : RaftField)
  | hotstuff (field : HotstuffField)
  deriving DecidableEq

/-- What the key of an entry is made from. -/
inductive Shape
  | value | address | addressVersion | hash
  deriving DecidableEq

namespace Field

/-- What all keys of the field start with. -/
def front : Field → Bytes
  | balance => BalanceModule.STORAGE_KEY ++ SEPARATOR ++ BalanceModule.balance.storageKey ++ SEPARATOR
  | limit field => field.key
  | contract field => Contract.STORAGE_KEY ++ SEPARATOR ++ field.storageKey ++ SEPARATOR
  | versioned field => Contract.STORAGE_KEY ++ SEPARATOR ++ field.storageKey ++ SEPARATOR
  | data => Contract.STORAGE_KEY ++ SEPARATOR ++ Contract.CONTRACT_DATA_STORAGE_KEY ++ SEPARATOR
  | system field => field.key
  | poa field => field.key
  | raft field => field.key
  | hotstuff field => field.key

def shape : Field → Shape
  | balance => .address
  | contract _ => .address
  | versioned _ => .addressVersion
  | data => .hash
  | _ => .value

def all : List Field :=
  [.balance, .data] ++
  [.maxStackHeight, .initialMemoryPages, .maxMemoryPages, .maxShareValueLen, .maxShareSize,
    .maxNestDepth].map limit ++
  [.admin, .version, .updateAdminProposalId, .updateAdminProposal, .updateCodeProposalId,
    .updateCodeProposal].map contract ++
  [.code, .codeHash].map versioned ++
  [.chainId, .timestamp, .maxUntilGap, .maxExecutionGap, .consensus].map system ++
  [.blockInterval, .admin, .authority, .updateAdminProposalId, .updateAdminProposal,
    .updateAuthorityProposalId, .updateAuthorityProposal].map poa ++
  [.blockInterval, .heartbeatInterval, .electionTimeoutMin, .electionTimeoutMax, .admin,
    .authorities, .updateAdminProposalId, .updateAdminProposal, .updateAuthoritiesProposalId,
    .updateAuthoritiesProposal].map raft ++
  [.blockInterval, .viewTimeout, .admin, .authorities, .updateAdminProposalId,
    .updateAdminProposal, .updateAuthoritiesProposalId, .updateAuthoritiesProposal].map hotstuff

theorem mem_all (f : Field) : f ∈ all := by
  cases f with
  | balance => decide
  | data => decide
  | limit field => cases field <;> decide
  | contract field => cases field <;> decide
  | versioned field => cases field <;> decide
  | system field => cases field <;> decide
  | poa field => cases field <;> decide
  | raft field => cases field <;> decide
  | hotstuff field => cases field <;> decide

/-- Only `code` and `code_hash`, and the proposals of a contract and their ids,
have fronts that do not diverge. -/
theorem separated : Fronts.Separated front shape := by
  have h : ∀ i ∈ all, ∀ j ∈ all, i ≠ j → Fronts.Diverge (front i) (front j) ∨
      shape i = shape j ∧ (front i).length ≠ (front j).length := by
    decide +kernel
  exact fun i j => h i (mem_all i) j (mem_all j)

end Field

namespace Place

variable {util : Util} {p q : Place}

def field : Place → Field
  | balance _ => .balance
  | limit field => .limit field
  | contract field _ => .contract field
  | versioned field _ _ => .versioned field
  | data _ _ => .data
  | system field => .system field
  | poa field => .poa field
  | raft field => .raft field
  | hotstuff field => .hotstuff field

/-- What the key of the place has after the front of its field. -/
def back (util : Util) : Place → Bytes
  | balance account => Codec.encodeBytes account.bytes
  | contract _ contractAddress => Codec.encodeBytes contractAddress.bytes
  | versioned _ contractAddress version => Contract.encodeVersioned (contractAddress, version)
  | data contractAddress key =>
      (util.hash (contractAddress.bytes ++ SEPARATOR ++ key)).bytes
  | _ => []

theorem key_eq (util : Util) (p : Place) : p.key util = p.field.front ++ p.back util := by
  cases p with
  | balance account => rfl
  | data contractAddress key => rfl
  | contract field contractAddress => cases field <;> rfl
  | versioned field contractAddress version => cases field <;> rfl
  | limit field => exact (List.append_nil _).symm
  | system field => exact (List.append_nil _).symm
  | poa field => exact (List.append_nil _).symm
  | raft field => exact (List.append_nil _).symm
  | hotstuff field => exact (List.append_nil _).symm

/-- The entries of a field have keys of one length. -/
def backLength (util : Util) : Shape → Nat
  | .address => (Codec.encodeCompact util.addressLength).length + util.addressLength
  | .addressVersion => (Codec.encodeCompact util.addressLength).length + util.addressLength + 4
  | _ => 0

theorem length_back (h : p.WellFormed util) (hshape : p.field.shape ≠ .hash) :
    (p.back util).length = backLength util p.field.shape := by
  cases p with
  | balance account =>
      have hlen : account.bytes.length = util.addressLength := h
      simp [back, Codec.encodeBytes, hlen, backLength, field, Field.shape]
  | contract f contractAddress =>
      have hlen : contractAddress.bytes.length = util.addressLength := h
      simp [back, Codec.encodeBytes, hlen, backLength, field, Field.shape]
  | versioned f contractAddress version =>
      have hlen : contractAddress.bytes.length = util.addressLength := h.1
      simp [back, Contract.encodeVersioned, Codec.encodeBytes, hlen, backLength, field,
        Field.shape, Nat.add_assoc]
  | data contractAddress key => exact absurd rfl hshape
  | limit f => rfl
  | system f => rfl
  | poa f => rfl
  | raft f => rfl
  | hotstuff f => rfl

theorem eq_data_of_shape {f : Field} (h : f.shape = .hash) : f = .data := by
  cases f with
  | data => rfl
  | _ => cases h

theorem encodeVersioned_inj {a a' : Address} {v v' : Nat}
    (hlength : a.bytes.length = a'.bytes.length) (hv : v < 2 ^ 32) (hv' : v' < 2 ^ 32)
    (h : Contract.encodeVersioned (a, v) = Contract.encodeVersioned (a', v')) :
    a = a' ∧ v = v' := by
  have hfront : (Codec.encodeBytes a.bytes).length = (Codec.encodeBytes a'.bytes).length := by
    simp [Codec.encodeBytes, hlength]
  obtain ⟨hbytes, hversion⟩ := List.append_inj h hfront
  constructor
  · cases a
    cases a'
    exact congrArg Address.mk (Codec.encodeBytes_injective hbytes)
  · have hread := Codec.roundTrip_u32 v hv []
    have hread' := Codec.roundTrip_u32 v' hv' []
    rw [hversion, hread'] at hread
    exact (congrArg Prod.fst (Option.some.inj hread)).symm

/-- Within a field the back tells the entry. -/
theorem eq_of_back (hinj : p.field = .data → Function.Injective util.hash) (hp : p.WellFormed util)
    (hq : q.WellFormed util) (hfield : p.field = q.field) (hback : p.back util = q.back util) :
    p = q := by
  cases p with
  | balance account =>
      cases q with
      | balance account' =>
          cases account
          cases account'
          exact congrArg (fun bytes => balance ⟨bytes⟩) (Codec.encodeBytes_injective hback)
      | _ => cases hfield
  | contract f a =>
      cases q with
      | contract f' a' =>
          cases hfield
          cases a
          cases a'
          exact congrArg (fun bytes => contract f ⟨bytes⟩) (Codec.encodeBytes_injective hback)
      | _ => cases hfield
  | versioned f a v =>
      cases q with
      | versioned f' a' v' =>
          cases hfield
          obtain ⟨rfl, rfl⟩ := encodeVersioned_inj (hp.1.trans hq.1.symm) hp.2 hq.2 hback
          rfl
      | _ => cases hfield
  | data a key =>
      cases q with
      | data a' key' =>
          have hkey : Contract.moduleKey util a key = Contract.moduleKey util a' key' :=
            congrArg (fun back => Field.data.front ++ back) hback
          obtain ⟨rfl, rfl⟩ := Contract.Machine.moduleKey_inj (hinj rfl) (hp.trans hq.symm) hkey
          rfl
      | _ => cases hfield
  | limit f =>
      cases q with
      | limit f' =>
          cases hfield
          rfl
      | _ => cases hfield
  | system f =>
      cases q with
      | system f' =>
          cases hfield
          rfl
      | _ => cases hfield
  | poa f =>
      cases q with
      | poa f' =>
          cases hfield
          rfl
      | _ => cases hfield
  | raft f =>
      cases q with
      | raft f' =>
          cases hfield
          rfl
      | _ => cases hfield
  | hotstuff f =>
      cases q with
      | hotstuff f' =>
          cases hfield
          rfl
      | _ => cases hfield

/-- The key tells the place. -/
theorem eq_of_key (hinj : p.field = .data → Function.Injective util.hash) (hp : p.WellFormed util)
    (hq : q.WellFormed util) (hkey : p.key util = q.key util) : p = q := by
  rw [key_eq, key_eq] at hkey
  have hlength : p.field ≠ q.field → p.field.shape = q.field.shape →
      (p.back util).length = (q.back util).length := by
    intro hne hshape
    have hnot : p.field.shape ≠ .hash := by
      intro hhash
      exact hne ((eq_data_of_shape hhash).trans (eq_data_of_shape (hshape ▸ hhash)).symm)
    rw [length_back hp hnot, length_back hq (hshape ▸ hnot), hshape]
  obtain ⟨hfield, hback⟩ := Field.separated.append_inj hlength hkey
  exact eq_of_back hinj hp hq hfield hback

/-- Keys of fields whose fronts diverge differ, for addresses of any length. -/
theorem key_ne_of_diverge (hdiverge : Fronts.Diverge p.field.front q.field.front) :
    p.key util ≠ q.key util := by
  rw [key_eq, key_eq]
  exact hdiverge.append_ne _ _

/-- The entries of two fields under one key differ, whatever the key. -/
theorem key_ne_of_back (hback : p.back util = q.back util)
    (hfront : p.field.front ≠ q.field.front) : p.key util ≠ q.key util := by
  rw [key_eq, key_eq, hback]
  exact fun hkey => hfront (List.append_cancel_right hkey)

theorem contract_key_ne {f f' : ContractField} (hne : f ≠ f') (a : Address) :
    f.key a ≠ f'.key a := by
  have hfront : (Field.contract f).front ≠ (Field.contract f').front :=
    Field.separated.injective.ne fun heq => hne (Field.contract.inj heq)
  exact @key_ne_of_back ⟨Hash.mk, Address.mk, 0⟩ (.contract f a) (.contract f' a) rfl hfront

theorem code_key_ne_codeHash (a : Address) (v : Nat) :
    Contract.code.key (a, v) ≠ Contract.codeHash.key (a, v) := by
  have hfront : (Field.versioned .code).front ≠ (Field.versioned .codeHash).front :=
    Field.separated.injective.ne (by decide)
  exact @key_ne_of_back ⟨Hash.mk, Address.mk, 0⟩ (.versioned .code a v) (.versioned .codeHash a v)
    rfl hfront

theorem contract_ne_versioned (f : ContractField) (f' : CodeField) (a : Address)
    (k : Address × Nat) : f.key a ≠ f'.key k := by
  have hdiverge : Fronts.Diverge (Field.contract f).front (Field.versioned f').front :=
    Field.separated.diverge Shape.noConfusion
  exact @key_ne_of_diverge ⟨Hash.mk, Address.mk, 0⟩ (.contract f a) (.versioned f' k.1 k.2)
    hdiverge

/-- Different places have different keys. -/
theorem key_ne_key (util : Util) (hinj : Function.Injective util.hash) (p q : Place)
    (hp : p.WellFormed util) (hq : q.WellFormed util) (hne : p ≠ q) :
    p.key util ≠ q.key util := by
  intro hkey
  exact hne (eq_of_key (fun _ => hinj) hp hq hkey)

/-- The front of a proposal and a separator are the front of its id. -/
theorem proposal_ne_proposalId :
    Place.key ⟨Hash.mk, Address.mk, 1⟩ (.contract .updateAdminProposal ⟨[7]⟩) ≠
      Place.key ⟨Hash.mk, Address.mk, 1⟩ (.contract .updateAdminProposalId ⟨[7]⟩) := by
  apply key_ne_key _ (fun _ _ h => Hash.mk.inj h)
  · rfl
  · rfl
  · exact nofun

end Place

end Finastate
