import Finastate.Contract.Module
import Finastate.Module.Keys
import Finastate.Module.Seat

/-!
# The offices of the chain

An office is what the admin of a module or of a contract decides on: the admin
itself, the authorities, or the code. Every office has its seat, and the calls
of the modules are those of the seats. A run of the chain is any sequence of
calls by any senders, with a record of the proposals and votes of every office.
-/

namespace Finastate.Governance

open Executor
open Contract (Admin)

inductive ConsensusOffice
  | hotstuffAdmin | hotstuffAuthorities | raftAdmin | raftAuthorities | poaAdmin | poaAuthority
  deriving DecidableEq, Repr

inductive ContractOffice
  | admin | code
  deriving DecidableEq, Repr

inductive Office
  | consensus (o : ConsensusOffice)
  | contract (o : ContractOffice) (contractAddress : Address)
  deriving DecidableEq, Repr

/-- The seat of a storage value that a passed proposal replaces. -/
def storageSeat {V : Type} (C : Type) [ContextT C] (kind : Kind V) (value : StorageValue V)
    (Valid : V → Prop) : Seat C V where
  kind := kind
  pass := storePassed value
  read := value.get
  Valid := Valid
  Ready := fun _ => True
  writes := {value.key}
  reads := {value.key}

namespace ConsensusOffice

/-- What is decided on. -/
abbrev Value : ConsensusOffice → Type
  | hotstuffAdmin => Admin
  | hotstuffAuthorities => List (Address × Nat)
  | raftAdmin => Admin
  | raftAuthorities => List Address
  | poaAdmin => Admin
  | poaAuthority => Address

def seat : (o : ConsensusOffice) → Seat MetaContext o.Value
  | hotstuffAdmin => storageSeat _ HotstuffModule.adminKind HotstuffModule.admin GoodAdmin
  | hotstuffAuthorities =>
      storageSeat _ HotstuffModule.authoritiesKind HotstuffModule.authorities
        (Codec.ValidVec ValidMember)
  | raftAdmin => storageSeat _ RaftModule.adminKind RaftModule.admin GoodAdmin
  | raftAuthorities =>
      storageSeat _ RaftModule.authoritiesKind RaftModule.authorities
        (Codec.ValidVec ValidAddress)
  | poaAdmin => storageSeat _ PoaModule.adminKind PoaModule.admin GoodAdmin
  | poaAuthority => storageSeat _ PoaModule.authorityKind PoaModule.authority ValidAddress

/-- What a proposal of this value is about: a new admin is aggregated. -/
def proposed : (o : ConsensusOffice) → o.Value → o.Value
  | hotstuffAdmin => aggregateAdmin
  | hotstuffAuthorities => id
  | raftAdmin => aggregateAdmin
  | raftAuthorities => id
  | poaAdmin => aggregateAdmin
  | poaAuthority => id

/-- The methods `update_..`. -/
def update : (o : ConsensusOffice) → MetaContext → Option Address → o.Value →
    ModuleResult MetaContext
  | hotstuffAdmin => HotstuffModule.updateAdmin
  | hotstuffAuthorities => HotstuffModule.updateAuthorities
  | raftAdmin => RaftModule.updateAdmin
  | raftAuthorities => RaftModule.updateAuthorities
  | poaAdmin => PoaModule.updateAdmin
  | poaAuthority => PoaModule.updateAuthority

/-- The methods `update_.._vote`. -/
def updateVote : ConsensusOffice → MetaContext → Option Address → Nat → ModuleResult MetaContext
  | hotstuffAdmin => HotstuffModule.updateAdminVote
  | hotstuffAuthorities => HotstuffModule.updateAuthoritiesVote
  | raftAdmin => RaftModule.updateAdminVote
  | raftAuthorities => RaftModule.updateAuthoritiesVote
  | poaAdmin => PoaModule.updateAdminVote
  | poaAuthority => PoaModule.updateAuthorityVote

theorem update_eq (o : ConsensusOffice) (c : MetaContext) (sender : Option Address)
    (value : o.Value) :
    o.update c sender value = o.seat.kind.update o.seat.pass c sender (o.proposed value) := by
  cases o <;> rfl

theorem updateVote_eq (o : ConsensusOffice) (c : MetaContext) (sender : Option Address)
    (id : Nat) : o.updateVote c sender id = o.seat.kind.updateVote o.seat.pass c sender id := by
  cases o <;> rfl

end ConsensusOffice

namespace ContractOffice

/-- What is decided on. -/
abbrev Value : ContractOffice → Type
  | admin => Admin
  | code => Bytes

/-- The keys of the versions of a contract. -/
def codeKeys (a : Address) : Set DBKey :=
  {key | key = Contract.version.key a ∨
    ∃ v, key = Contract.code.key (a, v) ∨ key = Contract.codeHash.key (a, v)}

def seat (util : Util) (a : Address) : (o : ContractOffice) → Seat Context o.Value
  | admin =>
      { storageSeat _ (Contract.adminKind a) (Contract.admin.entry a) GoodAdmin with
        pass := Contract.passAdmin a }
  | code =>
      { kind := Contract.codeKind util a
        pass := Contract.passCode util a
        read := fun c => Contract.innerGetCode c a none
        Valid := Codec.ValidBytes
        Ready := fun c => ∃ v, Contract.version.get c a = .ok (some v)
        writes := codeKeys a
        reads := codeKeys a }

def proposed : (o : ContractOffice) → o.Value → o.Value
  | admin => aggregateAdmin
  | code => id

/-- The methods `update_..`. -/
def update (util : Util) (a : Address) : (o : ContractOffice) → Context → Option Address →
    o.Value → ModuleResult Context
  | admin => fun c sender value => Contract.updateAdmin c sender a value
  | code => fun c sender value => Contract.updateCode util c sender a value

/-- The methods `update_.._vote`. -/
def updateVote (util : Util) (a : Address) : ContractOffice → Context → Option Address → Nat →
    ModuleResult Context
  | admin => fun c sender id => Contract.updateAdminVote c sender a id
  | code => fun c sender id => Contract.updateCodeVote util c sender a id

theorem update_eq (util : Util) (a : Address) (o : ContractOffice) (c : Context)
    (sender : Option Address) (value : o.Value) :
    o.update util a c sender value =
      (o.seat util a).kind.update (o.seat util a).pass c sender (o.proposed value) := by
  cases o <;> rfl

theorem updateVote_eq (util : Util) (a : Address) (o : ContractOffice) (c : Context)
    (sender : Option Address) (id : Nat) :
    o.updateVote util a c sender id =
      (o.seat util a).kind.updateVote (o.seat util a).pass c sender id := by
  cases o <;> rfl

end ContractOffice

/-! ## The seats are sound -/

/-- A seat of a storage value is sound if its keys differ and, where the value
is the admin, only good admins pass. -/
theorem sound_storageSeat {C V : Type} [ContextT C] [LawfulContext C] {kind : Kind V}
    {value : StorageValue V} {Valid : V → Prop}
    (hid : Codec.RoundTrip kind.proposalId.encode kind.proposalId.decode Codec.U32)
    (hproposal : Codec.RoundTrip kind.proposal.encode kind.proposal.decode (ValidProposal Valid))
    (hvalue : Codec.RoundTrip value.encode value.decode Valid)
    (hkeys : kind.proposal.key ≠ kind.proposalId.key ∧
      kind.proposalId.key ≠ kind.admin.key ∧ kind.proposalId.key ≠ value.key ∧
      kind.proposal.key ≠ kind.admin.key ∧ kind.proposal.key ≠ value.key)
    (hadmin : kind.admin.key ≠ value.key ∨
      ∀ v, Valid v → ∃ a, GoodAdmin a ∧ ∀ c : C, kind.admin.get (value.set c v) = .ok (some a)) :
    (storageSeat C kind value Valid).Sound := by
  obtain ⟨hne, hidAdmin, hidValue, hproposalAdmin, hproposalValue⟩ := hkeys
  refine
    { id_round := hid
      proposal_round := hproposal
      proposal_ne_id := hne
      id_apart := ⟨hidAdmin, hidValue, hidValue⟩
      proposal_apart := ⟨hproposalAdmin, hproposalValue, hproposalValue⟩
      congr := ?_
      pass_ok := fun c p _ => ⟨_, rfl⟩
      pass_touched := ?_
      pass_read := ?_
      pass_admin := ?_ }
  · intro c c' hreads
    exact ⟨contextGet_congr (hreads value.key rfl), id⟩
  · rintro c p c' ⟨⟩
    exact value.touched_set c p.value
  · rintro c p c' hvalid - ⟨⟩
    exact ⟨StorageValue.get_set hvalue hvalid c, trivial⟩
  · rintro c p c' hvalid ⟨⟩
    rcases hadmin with hne | hgood
    · exact Or.inl (StorageValue.get_set_of_ne hne c p.value)
    · obtain ⟨a, ha, hget⟩ := hgood p.value hvalid
      exact Or.inr ⟨a, ha, hget c⟩

theorem roundTrip_goodAdmin :
    Codec.RoundTrip Contract.encodeAdmin Contract.decodeAdmin GoodAdmin :=
  roundTrip_admin.mono fun _ h => h.valid

theorem ConsensusOffice.sound (o : ConsensusOffice) : o.seat.Sound := by
  have hadmins := roundTrip_proposal roundTrip_goodAdmin
  have hself : ∀ (value : StorageValue Admin), value.encode = Contract.encodeAdmin →
      value.decode = Contract.decodeAdmin → ∀ v, GoodAdmin v →
        ∃ a, GoodAdmin a ∧ ∀ c : MetaContext, value.get (value.set c v) = .ok (some a) := by
    rintro ⟨m, k, e, d⟩ rfl rfl v hv
    exact ⟨v, hv, StorageValue.get_set roundTrip_goodAdmin hv⟩
  cases o with
  | hotstuffAdmin =>
      exact sound_storageSeat Codec.roundTrip_u32 hadmins roundTrip_goodAdmin (by decide +kernel)
        (.inr (hself HotstuffModule.admin rfl rfl))
  | hotstuffAuthorities =>
      exact sound_storageSeat Codec.roundTrip_u32 (roundTrip_proposal roundTrip_members)
        roundTrip_members (by decide +kernel) (.inl (by decide +kernel))
  | raftAdmin =>
      exact sound_storageSeat Codec.roundTrip_u32 hadmins roundTrip_goodAdmin (by decide +kernel)
        (.inr (hself RaftModule.admin rfl rfl))
  | raftAuthorities =>
      exact sound_storageSeat Codec.roundTrip_u32 (roundTrip_proposal Codec.roundTrip_address.vec)
        Codec.roundTrip_address.vec (by decide +kernel) (.inl (by decide +kernel))
  | poaAdmin =>
      exact sound_storageSeat Codec.roundTrip_u32 hadmins roundTrip_goodAdmin (by decide +kernel)
        (.inr (hself PoaModule.admin rfl rfl))
  | poaAuthority =>
      exact sound_storageSeat Codec.roundTrip_u32 (roundTrip_proposal Codec.roundTrip_address)
        Codec.roundTrip_address (by decide +kernel) (.inl (by decide +kernel))

namespace ContractOffice

open Keys

variable (a : Address)

/-- The keys of the entries of a contract. -/
theorem key_entries :
    (Contract.adminKind a).proposalId.key = ContractField.updateAdminProposalId.key a ∧
      (Contract.adminKind a).proposal.key = ContractField.updateAdminProposal.key a ∧
      (Contract.admin.entry a).key = ContractField.admin.key a :=
  ⟨StorageMap.key_entry _ a, StorageMap.key_entry _ a, StorageMap.key_entry _ a⟩

theorem key_codeEntries (util : Util) :
    (Contract.codeKind util a).proposalId.key = ContractField.updateCodeProposalId.key a ∧
      (Contract.codeKind util a).proposal.key = ContractField.updateCodeProposal.key a ∧
      (Contract.codeKind util a).admin.key = ContractField.admin.key a :=
  ⟨StorageMap.key_entry _ a, StorageMap.key_entry _ a, StorageMap.key_entry _ a⟩

theorem passAdmin_eq : Contract.passAdmin a = storePassed (C := Context) (Contract.admin.entry a) := by
  funext c p
  rw [Contract.passAdmin, storePassed, StorageMap.set_entry]

theorem sound_admin (util : Util) : (seat util a .admin).Sound := by
  obtain ⟨hid, hproposal, hadmin⟩ := key_entries a
  have hkind : (Contract.adminKind a).admin.key = (Contract.admin.entry a).key := rfl
  have hseat : seat util a .admin =
      storageSeat Context (Contract.adminKind a) (Contract.admin.entry a) GoodAdmin := by
    rw [seat, passAdmin_eq]
    rfl
  rw [hseat]
  apply sound_storageSeat Codec.roundTrip_u32 (roundTrip_proposal roundTrip_goodAdmin)
    roundTrip_goodAdmin
  · rw [hkind, hid, hproposal, hadmin]
    have hne := fun (f f' : ContractField) (h : f ≠ f') => Place.contract_key_ne h a
    exact ⟨hne _ _ nofun, hne _ _ nofun, hne _ _ nofun, hne _ _ nofun, hne _ _ nofun⟩
  · exact Or.inr fun v hv => ⟨v, hv, StorageValue.get_set roundTrip_goodAdmin hv⟩

/-- A key of a field of a contract is none of those of its versions. -/
theorem key_notMem_codeKeys {f : ContractField} (hne : f ≠ .version) : f.key a ∉ codeKeys a := by
  rintro (h | ⟨v, h | h⟩)
  · exact Place.contract_key_ne hne a h
  · exact Place.contract_ne_versioned f .code a (a, v) h
  · exact Place.contract_ne_versioned f .codeHash a (a, v) h

/-- A passed code is the code of the next version. -/
theorem passCode_eq_ok {util : Util} {c c' : Context} {p : Proposal Bytes}
    (h : Contract.passCode util a c p = .ok c') :
    ∃ v, Contract.version.get c a = .ok (some v) ∧
      c' = Contract.codeHash.set
        (Contract.code.set (Contract.version.set c a (wrapAdd 32 v 1)) (a, wrapAdd 32 v 1) p.value)
        (a, wrapAdd 32 v 1) (util.hash p.value) := by
  obtain ⟨found, hfound, hrest⟩ := Result.bind_eq_ok.1 h
  cases found with
  | none => cases hrest
  | some v => exact ⟨v, hfound, (Except.ok.inj hrest).symm⟩

/-- What is read after the three writes of a passed code. -/
theorem get_passCode (util : Util) (c : Context) {v : Nat} {code : Bytes} (hv : Codec.U32 v)
    (hcode : Codec.ValidBytes code) :
    Contract.version.get (Contract.codeHash.set (Contract.code.set (Contract.version.set c a v)
        (a, v) code) (a, v) (util.hash code)) a = .ok (some v) ∧
      Contract.code.get (Contract.codeHash.set (Contract.code.set (Contract.version.set c a v)
        (a, v) code) (a, v) (util.hash code)) (a, v) = .ok (some code) := by
  have hversion := Place.contract_ne_versioned .version
  rw [← StorageMap.get_entry, ← StorageMap.get_entry, ← StorageMap.set_entry,
    ← StorageMap.set_entry, ← StorageMap.set_entry]
  constructor
  · rw [StorageValue.get_set_of_ne, StorageValue.get_set_of_ne]
    · exact StorageValue.get_set Codec.roundTrip_u32 hv c
    · rw [StorageMap.key_entry, StorageMap.key_entry]
      exact hversion .code a (a, v)
    · rw [StorageMap.key_entry, StorageMap.key_entry]
      exact hversion .codeHash a (a, v)
  · rw [StorageValue.get_set_of_ne]
    · exact StorageValue.get_set Codec.roundTrip_bytes hcode _
    · rw [StorageMap.key_entry, StorageMap.key_entry]
      exact Place.code_key_ne_codeHash a v

theorem sound_code (util : Util) : (seat util a .code).Sound := by
  obtain ⟨hid, hproposal, hadmin⟩ := key_codeEntries a util
  have hidKeys := key_notMem_codeKeys a (f := .updateCodeProposalId) nofun
  have hproposalKeys := key_notMem_codeKeys a (f := .updateCodeProposal) nofun
  have hne := fun (f f' : ContractField) (h : f ≠ f') => Place.contract_key_ne h a
  refine
    { id_round := Codec.roundTrip_u32
      proposal_round := roundTrip_proposal Codec.roundTrip_bytes
      proposal_ne_id := ?_
      id_apart := ?_
      proposal_apart := ?_
      congr := ?_
      pass_ok := ?_
      pass_touched := ?_
      pass_read := ?_
      pass_admin := ?_ }
  · rw [seat, hid, hproposal]
    exact hne _ _ nofun
  · rw [seat, hid, hadmin]
    exact ⟨hne _ _ nofun, hidKeys, hidKeys⟩
  · rw [seat, hproposal, hadmin]
    exact ⟨hne _ _ nofun, hproposalKeys, hproposalKeys⟩
  · intro c c' hreads
    have hversion : Contract.version.get c' a = Contract.version.get c a :=
      contextGet_congr (hreads _ (.inl rfl))
    have hcode : ∀ v, Contract.code.get c' (a, v) = Contract.code.get c (a, v) :=
      fun v => contextGet_congr (hreads _ (.inr ⟨v, .inl rfl⟩))
    constructor
    · change Contract.innerGetCode c' a none = Contract.innerGetCode c a none
      rw [Contract.innerGetCode, Contract.innerGetCode, Contract.innerGetVersion,
        Contract.innerGetVersion, hversion]
      simp only [hcode]
    · rintro ⟨v, hv⟩
      exact ⟨v, hversion.trans hv⟩
  · rintro c p ⟨v, hv⟩
    exact ⟨_, Result.bind_eq_ok.2 ⟨some v, hv, rfl⟩⟩
  · intro c p c' hpass
    obtain ⟨v, -, rfl⟩ := passCode_eq_ok a hpass
    exact ((Touched.refl.set (.inl rfl) _).set (.inr ⟨_, .inl rfl⟩) _).set (.inr ⟨_, .inr rfl⟩) _
  · intro c p c' hvalid hready hpass
    obtain ⟨v, -, rfl⟩ := passCode_eq_ok a hpass
    obtain ⟨hversion, hcode⟩ := get_passCode a util c
      (Nat.mod_lt (v + 1) (Nat.two_pow_pos 32)) hvalid
    refine ⟨?_, _, hversion⟩
    exact Result.bind_eq_ok.2 ⟨some _, hversion, hcode⟩
  · intro c p c' hvalid hpass
    obtain ⟨v, -, rfl⟩ := passCode_eq_ok a hpass
    have htouched : Touched (codeKeys a) c _ :=
      ((Touched.refl.set (.inl rfl) (some (Codec.encodeLe 4 (wrapAdd 32 v 1)))).set
        (.inr ⟨wrapAdd 32 v 1, .inl rfl⟩) (some (Codec.encodeBytes p.value))).set
          (.inr ⟨wrapAdd 32 v 1, .inr rfl⟩) (some (Codec.encodeBytes (util.hash p.value).bytes))
    apply Or.inl
    apply htouched.get_eq
    rw [seat, hadmin]
    exact key_notMem_codeKeys a nofun

theorem sound (util : Util) : (o : ContractOffice) → (o.seat util a).Sound
  | admin => sound_admin a util
  | code => sound_code a util

end ContractOffice

end Finastate.Governance
