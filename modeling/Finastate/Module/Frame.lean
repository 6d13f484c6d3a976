import Finastate.Module.History

/-!
# What a call leaves alone

The keys of the offices, and which calls write which of them. A call of one
office leaves the others as they are, except that the two offices of a module
or contract share an admin, which stays one by which votes can be counted.
-/

namespace Finastate.Governance

open Executor
open Contract (Admin Library)

/-! ## Aggregated admins -/

theorem length_addWeight_le (members : List (Address × Nat)) (address : Address) (weight : Nat) :
    (Hotstuff.addWeight members address weight).length ≤ members.length + 1 := by
  induction members with
  | nil => exact le_rfl
  | cons m members ih =>
      rw [Hotstuff.addWeight]
      split
      · exact Nat.le_succ _
      · exact Nat.succ_le_succ ih

/-- The aggregated members are some of those given. -/
theorem aggregateAdmin_members (a : Admin) :
    (aggregateAdmin a).members.length ≤ a.members.length ∧
      ∀ x ∈ (aggregateAdmin a).members.map Prod.fst, x ∈ a.members.map Prod.fst := by
  suffices h : ∀ input members : List (Address × Nat),
      (input.foldl (fun members x =>
        if 0 < x.2 then Hotstuff.addWeight members x.1 x.2 else members) members).length ≤
          members.length + input.length ∧
      ∀ x ∈ (input.foldl (fun members x =>
        if 0 < x.2 then Hotstuff.addWeight members x.1 x.2 else members) members).map Prod.fst,
        x ∈ members.map Prod.fst ∨ x ∈ input.map Prod.fst by
    obtain ⟨hlen, hmem⟩ := h a.members []
    rw [List.length_nil, Nat.zero_add] at hlen
    refine ⟨hlen, ?_⟩
    intro x hx
    exact (hmem x hx).resolve_left List.not_mem_nil
  intro input
  induction input with
  | nil => exact fun members => ⟨le_rfl, fun x hx => Or.inl hx⟩
  | cons y input ih =>
      intro members
      rw [List.foldl_cons]
      split
      · obtain ⟨hlen, hmem⟩ := ih (Hotstuff.addWeight members y.1 y.2)
        have hadd := length_addWeight_le members y.1 y.2
        constructor
        · rw [List.length_cons]
          omega
        · intro x hx
          rw [List.map_cons, List.mem_cons]
          rcases hmem x hx with hold | hnew
          · rw [Hotstuff.mem_keys_addWeight] at hold
            exact hold.elim (fun h => Or.inr (Or.inl h)) Or.inl
          · exact Or.inr (Or.inr hnew)
      · obtain ⟨hlen, hmem⟩ := ih members
        constructor
        · rw [List.length_cons]
          omega
        · intro x hx
          exact (hmem x hx).imp_right (List.mem_cons_of_mem y.1)

/-- A weight that fits is a weight of type `u32`. -/
theorem weight_lt_of_total {members : List (Address × Nat)}
    (h : Weights.total members < 2 ^ 32) {m : Address × Nat} (hm : m ∈ members) :
    m.2 < 2 ^ 32 :=
  Nat.lt_of_le_of_lt (List.le_sum_of_mem (List.mem_map_of_mem hm)) h

theorem goodAdmin_aggregateAdmin {a : Admin} (hvalid : ValidAdmin a)
    (hlt : Weights.total a.members < 2 ^ 32) : GoodAdmin (aggregateAdmin a) := by
  have htotal := total_aggregateAdmin hlt
  obtain ⟨hlen, hmem⟩ := aggregateAdmin_members a
  refine ⟨⟨hvalid.threshold, Nat.lt_of_le_of_lt hlen hvalid.members.1, ?_⟩,
    nodup_aggregateAdmin a, htotal ▸ hlt⟩
  intro m hm
  refine ⟨?_, weight_lt_of_total (htotal ▸ hlt) hm⟩
  obtain ⟨m', hm', heq⟩ := List.mem_map.1 (hmem m.1 (List.mem_map_of_mem hm))
  exact heq ▸ (hvalid.members.2 m' hm').1

theorem ConsensusOffice.valid_proposed (o : ConsensusOffice) {value : o.Value}
    (h : o.Typed value) : o.seat.Valid (o.proposed value) := by
  cases o with
  | hotstuffAdmin => exact goodAdmin_aggregateAdmin h.1 h.2
  | raftAdmin => exact goodAdmin_aggregateAdmin h.1 h.2
  | poaAdmin => exact goodAdmin_aggregateAdmin h.1 h.2
  | hotstuffAuthorities => exact h
  | raftAuthorities => exact h
  | poaAuthority => exact h

theorem ContractOffice.valid_proposed (util : Util) (a : Address) (o : ContractOffice)
    {value : o.Value} (h : o.Typed value) : (o.seat util a).Valid (o.proposed value) := by
  cases o with
  | admin => exact goodAdmin_aggregateAdmin h.1 h.2
  | code => exact h

/-! ## Consensus offices -/

namespace ConsensusOffice

variable {o o' : ConsensusOffice} {c c' : MetaContext}

/-- The keys of what the seat keeps and decides on. -/
def keys : ConsensusOffice → List DBKey
  | hotstuffAdmin => [HotstuffModule.adminKind.proposalId.key,
      HotstuffModule.adminKind.proposal.key, HotstuffModule.admin.key]
  | hotstuffAuthorities => [HotstuffModule.authoritiesKind.proposalId.key,
      HotstuffModule.authoritiesKind.proposal.key, HotstuffModule.authorities.key]
  | raftAdmin => [RaftModule.adminKind.proposalId.key, RaftModule.adminKind.proposal.key,
      RaftModule.admin.key]
  | raftAuthorities => [RaftModule.authoritiesKind.proposalId.key,
      RaftModule.authoritiesKind.proposal.key, RaftModule.authorities.key]
  | poaAdmin => [PoaModule.adminKind.proposalId.key, PoaModule.adminKind.proposal.key,
      PoaModule.admin.key]
  | poaAuthority => [PoaModule.authorityKind.proposalId.key,
      PoaModule.authorityKind.proposal.key, PoaModule.authority.key]

/-- The fields of these keys. -/
def fields : ConsensusOffice → List Field
  | hotstuffAdmin => [.hotstuff .updateAdminProposalId, .hotstuff .updateAdminProposal,
      .hotstuff .admin]
  | hotstuffAuthorities => [.hotstuff .updateAuthoritiesProposalId,
      .hotstuff .updateAuthoritiesProposal, .hotstuff .authorities]
  | raftAdmin => [.raft .updateAdminProposalId, .raft .updateAdminProposal, .raft .admin]
  | raftAuthorities => [.raft .updateAuthoritiesProposalId, .raft .updateAuthoritiesProposal,
      .raft .authorities]
  | poaAdmin => [.poa .updateAdminProposalId, .poa .updateAdminProposal, .poa .admin]
  | poaAuthority => [.poa .updateAuthorityProposalId, .poa .updateAuthorityProposal,
      .poa .authority]

theorem keys_eq (o : ConsensusOffice) : o.keys = o.fields.map Field.front := by
  cases o <;> rfl

theorem id_mem_keys (o : ConsensusOffice) : o.seat.kind.proposalId.key ∈ o.keys := by
  cases o <;> exact List.mem_cons_self

theorem proposal_mem_keys (o : ConsensusOffice) : o.seat.kind.proposal.key ∈ o.keys := by
  cases o <;> exact List.mem_cons_of_mem _ List.mem_cons_self

theorem value_mem_keys (o : ConsensusOffice) {key : DBKey}
    (h : key ∈ o.seat.reads ∨ key ∈ o.seat.writes) : key ∈ o.keys := by
  cases o <;> rcases h with rfl | rfl <;>
    exact List.mem_cons_of_mem _ (List.mem_cons_of_mem _ List.mem_cons_self)

/-- The office of the admin in the module of the office. -/
def adminOffice : ConsensusOffice → ConsensusOffice
  | hotstuffAdmin => hotstuffAdmin
  | hotstuffAuthorities => hotstuffAdmin
  | raftAdmin => raftAdmin
  | raftAuthorities => raftAdmin
  | poaAdmin => poaAdmin
  | poaAuthority => poaAdmin

theorem admin_mem_keys (o : ConsensusOffice) : o.seat.kind.admin.key ∈ o.adminOffice.keys := by
  cases o <;> exact List.mem_cons_of_mem _ (List.mem_cons_of_mem _ List.mem_cons_self)

theorem admin_adminOffice (o : ConsensusOffice) :
    o.adminOffice.seat.kind.admin = o.seat.kind.admin := by
  cases o <;> rfl

theorem ready (o : ConsensusOffice) (c : MetaContext) : o.seat.Ready c := by
  cases o <;> exact trivial

/-- No key belongs to two offices. -/
theorem keys_disjoint (hne : o ≠ o') {key : DBKey} (hkey : key ∈ o.keys) : key ∉ o'.keys := by
  have hfields : ∀ o o' : ConsensusOffice, o ≠ o' → ∀ f ∈ o.fields, f ∉ o'.fields := by
    intro o o' hne
    cases o <;> cases o' <;> first | exact absurd rfl hne | decide
  rw [keys_eq] at hkey ⊢
  obtain ⟨f, hf, rfl⟩ := List.mem_map.1 hkey
  rw [List.mem_map_of_injective Field.separated.injective]
  exact hfields o o' hne f hf

/-- What the seat keeps and decides on is as before. -/
structure Same (o : ConsensusOffice) (c c' : MetaContext) : Prop where
  id : o.seat.kind.proposalId.get c' = o.seat.kind.proposalId.get c
  proposal : o.seat.kind.proposal.get c' = o.seat.kind.proposal.get c
  read : o.seat.read c' = o.seat.read c

theorem same_of_keys (o : ConsensusOffice)
    (h : ∀ key ∈ o.keys, ContextT.payloadGet c' key = ContextT.payloadGet c key) :
    o.Same c c' := by
  refine ⟨contextGet_congr (h _ o.id_mem_keys), contextGet_congr (h _ o.proposal_mem_keys), ?_⟩
  exact (o.sound.congr c c' fun key hkey => h key (o.value_mem_keys (.inl hkey))).1

/-- A call of another office leaves the seat as it is. -/
theorem same_of_touched {keys : Set DBKey} (h : Touched keys c c')
    (hkeys : ∀ key ∈ o.keys, key ∉ keys) : o.Same c c' :=
  o.same_of_keys fun key hkey => h.payloadGet_eq (hkeys key hkey)

/-- The keys that a vote of an office can write are its own. -/
theorem mem_keys_of_written {key : DBKey}
    (h : key ∈ o.seat.writes ∪ {o.seat.kind.proposal.key, o.seat.kind.proposalId.key}) :
    key ∈ o.keys := by
  rcases h with h | rfl | rfl
  · exact o.value_mem_keys (.inr h)
  · exact o.proposal_mem_keys
  · exact o.id_mem_keys

/-- The admin of another office stays one by which votes can be counted. -/
theorem staffed_of_touched
    (h : Touched (o.seat.writes ∪ {o.seat.kind.proposal.key, o.seat.kind.proposalId.key}) c c')
    (hstaffed : o.seat.Staffed c') (hstaffed' : o'.seat.Staffed c) : o'.seat.Staffed c' := by
  by_cases hadmin : o'.adminOffice = o
  · have hsame : o.seat.kind.admin = o'.seat.kind.admin := by
      rw [← hadmin, admin_adminOffice]
    rcases hstaffed with hnone | ⟨a, ha, hgood, -⟩
    · exact Or.inl (hsame ▸ hnone)
    · exact Or.inr ⟨a, hsame ▸ ha, hgood, o'.ready c'⟩
  · have hkey : o'.seat.kind.admin.key ∉
        o.seat.writes ∪ {o.seat.kind.proposal.key, o.seat.kind.proposalId.key} :=
      fun hmem => keys_disjoint hadmin o'.admin_mem_keys (mem_keys_of_written hmem)
    have hget := h.get_eq hkey
    rcases hstaffed' with hnone | ⟨a, ha, hgood, -⟩
    · exact Or.inl (hget.trans hnone)
    · exact Or.inr ⟨a, hget.trans ha, hgood, o'.ready c'⟩

end ConsensusOffice

/-! ## Genesis -/

inductive ConsensusModule
  | poa | raft | hotstuff
  deriving DecidableEq, Repr

namespace ConsensusModule

def admin : ConsensusModule → StorageValue Admin
  | poa => PoaModule.admin
  | raft => RaftModule.admin
  | hotstuff => HotstuffModule.admin

/-- The keys that `init` writes. -/
def initKeys : ConsensusModule → List DBKey
  | poa => [PoaModule.blockInterval.key, PoaModule.admin.key, PoaModule.authority.key]
  | raft => [RaftModule.blockInterval.key, RaftModule.heartbeatInterval.key,
      RaftModule.electionTimeoutMin.key, RaftModule.electionTimeoutMax.key,
      RaftModule.admin.key, RaftModule.authorities.key]
  | hotstuff => [HotstuffModule.blockInterval.key, HotstuffModule.viewTimeout.key,
      HotstuffModule.admin.key, HotstuffModule.authorities.key]

def initFields : ConsensusModule → List Field
  | poa => [.poa .blockInterval, .poa .admin, .poa .authority]
  | raft => [.raft .blockInterval, .raft .heartbeatInterval, .raft .electionTimeoutMin,
      .raft .electionTimeoutMax, .raft .admin, .raft .authorities]
  | hotstuff => [.hotstuff .blockInterval, .hotstuff .viewTimeout, .hotstuff .admin,
      .hotstuff .authorities]

theorem initKeys_eq (m : ConsensusModule) : m.initKeys = m.initFields.map Field.front := by
  cases m <;> rfl

theorem fronts_notMem_initKeys {m : ConsensusModule} {fields : List Field}
    (h : ∀ f ∈ fields, f ∉ m.initFields) : ∀ key ∈ fields.map Field.front, key ∉ m.initKeys := by
  intro key hkey
  obtain ⟨f, hf, rfl⟩ := List.mem_map.1 hkey
  rw [initKeys_eq, List.mem_map_of_injective Field.separated.injective]
  exact h f hf

end ConsensusModule

def ConsensusOffice.home : ConsensusOffice → ConsensusModule
  | hotstuffAdmin => .hotstuff
  | hotstuffAuthorities => .hotstuff
  | raftAdmin => .raft
  | raftAuthorities => .raft
  | poaAdmin => .poa
  | poaAuthority => .poa

/-- What the `init` of a module does with this admin. -/
structure Genesis (m : ConsensusModule) (a : Admin) (c c' : MetaContext) : Prop where
  touched : Touched {key | key ∈ m.initKeys} c c'
  admin : m.admin.get c' = .ok (some a)

section Genesis

variable {c c' : MetaContext}

theorem HotstuffModule.touched_init {params : Methods.Hotstuff.InitParams}
    (h : HotstuffModule.init c params = .ok c') :
    Touched {key | key ∈ ConsensusModule.initKeys .hotstuff} c c' := by
  unfold HotstuffModule.init at h
  split at h
  case isTrue hnumber => cases h
  case isFalse hnumber =>
    cases h
    apply Touched.set _ (by simp [ConsensusModule.initKeys])
    apply Touched.set _ (by simp [ConsensusModule.initKeys])
    apply Touched.set _ (by simp [ConsensusModule.initKeys])
    exact Touched.refl.set (by simp [ConsensusModule.initKeys]) _

theorem HotstuffModule.genesis_of_init {params : Methods.Hotstuff.InitParams}
    (hgood : GoodAdmin ⟨params.admin.1, params.admin.2⟩)
    (h : HotstuffModule.init c params = .ok c') :
    Genesis .hotstuff ⟨params.admin.1, params.admin.2⟩ c c' := by
  refine ⟨HotstuffModule.touched_init h, ?_⟩
  unfold HotstuffModule.init at h
  split at h
  case isTrue hnumber => cases h
  case isFalse hnumber =>
    cases h
    have hne : HotstuffModule.admin.key ≠ HotstuffModule.authorities.key :=
      Field.separated.injective.ne (show Field.hotstuff .admin ≠ .hotstuff .authorities by decide)
    exact (StorageValue.get_set_of_ne hne _ _).trans
      (StorageValue.get_set roundTrip_goodAdmin hgood _)

theorem RaftModule.touched_init {params : Methods.Raft.InitParams}
    (h : RaftModule.init c params = .ok c') :
    Touched {key | key ∈ ConsensusModule.initKeys .raft} c c' := by
  unfold RaftModule.init at h
  split at h
  case isTrue hnumber => cases h
  case isFalse hnumber =>
    cases h
    apply Touched.set _ (by simp [ConsensusModule.initKeys])
    apply Touched.set _ (by simp [ConsensusModule.initKeys])
    apply Touched.set _ (by simp [ConsensusModule.initKeys])
    apply Touched.set _ (by simp [ConsensusModule.initKeys])
    apply Touched.set _ (by simp [ConsensusModule.initKeys])
    exact Touched.refl.set (by simp [ConsensusModule.initKeys]) _

theorem RaftModule.genesis_of_init {params : Methods.Raft.InitParams}
    (hgood : GoodAdmin ⟨params.admin.1, params.admin.2⟩)
    (h : RaftModule.init c params = .ok c') :
    Genesis .raft ⟨params.admin.1, params.admin.2⟩ c c' := by
  refine ⟨RaftModule.touched_init h, ?_⟩
  unfold RaftModule.init at h
  split at h
  case isTrue hnumber => cases h
  case isFalse hnumber =>
    cases h
    have hne : RaftModule.admin.key ≠ RaftModule.authorities.key :=
      Field.separated.injective.ne (show Field.raft .admin ≠ .raft .authorities by decide)
    exact (StorageValue.get_set_of_ne hne _ _).trans
      (StorageValue.get_set roundTrip_goodAdmin hgood _)

theorem PoaModule.touched_init {params : Methods.Poa.InitParams}
    (h : PoaModule.init c params = .ok c') :
    Touched {key | key ∈ ConsensusModule.initKeys .poa} c c' := by
  unfold PoaModule.init at h
  split at h
  case isTrue hnumber => cases h
  case isFalse hnumber =>
    cases h
    apply Touched.set _ (by simp [ConsensusModule.initKeys])
    apply Touched.set _ (by simp [ConsensusModule.initKeys])
    exact Touched.refl.set (by simp [ConsensusModule.initKeys]) _

theorem PoaModule.genesis_of_init {params : Methods.Poa.InitParams}
    (hgood : GoodAdmin ⟨params.admin.1, params.admin.2⟩)
    (h : PoaModule.init c params = .ok c') :
    Genesis .poa ⟨params.admin.1, params.admin.2⟩ c c' := by
  refine ⟨PoaModule.touched_init h, ?_⟩
  unfold PoaModule.init at h
  split at h
  case isTrue hnumber => cases h
  case isFalse hnumber =>
    cases h
    have hne : PoaModule.admin.key ≠ PoaModule.authority.key :=
      Field.separated.injective.ne (show Field.poa .admin ≠ .poa .authority by decide)
    exact (StorageValue.get_set_of_ne hne _ _).trans
      (StorageValue.get_set roundTrip_goodAdmin hgood _)

/-- No `init` writes what is pending. -/
theorem pending_notMem_initKeys (m : ConsensusModule) (o : ConsensusOffice) :
    o.seat.kind.proposalId.key ∉ m.initKeys ∧ o.seat.kind.proposal.key ∉ m.initKeys := by
  have hfields : ∀ f ∈ o.fields.take 2, f ∉ m.initFields := by
    cases m <;> cases o <;> decide
  have hpending := ConsensusModule.fronts_notMem_initKeys hfields
  constructor
  · apply hpending
    cases o <;> exact List.mem_cons_self
  · apply hpending
    cases o <;> exact List.mem_cons_of_mem _ List.mem_cons_self

/-- What another module decides on is not written. -/
theorem keys_notMem_initKeys {m : ConsensusModule} {o : ConsensusOffice} (hne : o.home ≠ m) :
    ∀ key ∈ o.keys, key ∉ m.initKeys := by
  have hfields : ∀ f ∈ o.fields, f ∉ m.initFields := by
    cases m <;> cases o <;> first | exact absurd rfl hne | decide
  rw [o.keys_eq]
  exact ConsensusModule.fronts_notMem_initKeys hfields

theorem Genesis.read_eq {m : ConsensusModule} {a : Admin} {o : ConsensusOffice}
    (h : Genesis m a c c') (hne : o.home ≠ m) : o.seat.read c' = o.seat.read c :=
  (o.same_of_touched h.touched (keys_notMem_initKeys hne)).read

theorem home_admin (o : ConsensusOffice) : o.seat.kind.admin = o.home.admin := by
  cases o <;> rfl

theorem home_adminOffice (o : ConsensusOffice) : o.adminOffice.home = o.home := by
  cases o <;> rfl

/-- The admin of a module after the `init` of one. -/
theorem Genesis.get_admin {m : ConsensusModule} {a : Admin} (h : Genesis m a c c')
    (o : ConsensusOffice) : o.seat.kind.admin.get c' = o.seat.kind.admin.get c ∨
      o.seat.kind.admin.get c' = .ok (some a) := by
  by_cases hhome : o.home = m
  · rw [home_admin, hhome]
    exact Or.inr h.admin
  · have hkeys := keys_notMem_initKeys (o := o.adminOffice) (m := m)
      (by rw [home_adminOffice]; exact hhome)
    exact Or.inl (h.touched.get_eq (hkeys _ o.admin_mem_keys))

end Genesis

/-! ## Contract offices -/

namespace ContractOffice

open Keys

variable {util : Util} {a a' : Address} {c c' : Context} {key : DBKey}

/-- The keys of all entries of a contract. -/
def entryKeys (a : Address) : Set DBKey :=
  {key | (∃ f : ContractField, key = f.key a) ∨ ∃ (f : CodeField) (v : Nat), key = f.key (a, v)}

theorem mem_entryKeys_of_codeKeys (h : key ∈ codeKeys a) : key ∈ entryKeys a := by
  rcases h with rfl | ⟨v, rfl | rfl⟩
  · exact Or.inl ⟨.version, rfl⟩
  · exact Or.inr ⟨.code, v, rfl⟩
  · exact Or.inr ⟨.codeHash, v, rfl⟩

/-- The keys that a vote of an office can write. -/
def written (util : Util) (a : Address) (o : ContractOffice) : Set DBKey :=
  (o.seat util a).writes ∪ {(o.seat util a).kind.proposal.key, (o.seat util a).kind.proposalId.key}

theorem mem_entryKeys_of_written (util : Util) (o : ContractOffice) (h : key ∈ written util a o) :
    key ∈ entryKeys a := by
  cases o with
  | admin =>
      obtain ⟨hid, hproposal, hadmin⟩ := key_entries a
      rcases h with rfl | rfl | rfl
      · exact Or.inl ⟨.admin, hadmin⟩
      · exact Or.inl ⟨.updateAdminProposal, hproposal⟩
      · exact Or.inl ⟨.updateAdminProposalId, hid⟩
  | code =>
      obtain ⟨hid, hproposal, -⟩ := key_codeEntries a util
      rcases h with h | rfl | rfl
      · exact mem_entryKeys_of_codeKeys h
      · exact Or.inl ⟨.updateCodeProposal, hproposal⟩
      · exact Or.inl ⟨.updateCodeProposalId, hid⟩

/-- No key belongs to two contracts. -/
theorem entryKeys_disjoint (ha : a.bytes.length = util.addressLength)
    (ha' : a'.bytes.length = util.addressLength) (hne : a ≠ a') (hkey : key ∈ entryKeys a) :
    key ∉ entryKeys a' := by
  rcases hkey with ⟨f, rfl⟩ | ⟨f, v, rfl⟩
  · rintro (⟨f', heq⟩ | ⟨f', v', heq⟩)
    · have hwell : (Place.contract f a).WellFormed util := ha
      have hwell' : (Place.contract f' a').WellFormed util := ha'
      exact hne (Place.contract.inj (Place.eq_of_key (by rintro ⟨⟩) hwell hwell' heq)).2
    · exact Place.contract_ne_versioned f f' a (a', v') heq
  · rintro (⟨f', heq⟩ | ⟨f', v', heq⟩)
    · exact Place.contract_ne_versioned f' f a' (a, v) heq.symm
    · have hmod : ∀ (f : CodeField) (a : Address) (v : Nat), f.key (a, v) = f.key (a, v % 2 ^ 32) := by
        intro f a v
        have hle : Codec.encodeLe 4 v = Codec.encodeLe 4 (v % 2 ^ 32) := Codec.encodeLe_mod 4 v
        cases f <;>
          simp only [CodeField.key, StorageMap.key, Contract.code, Contract.codeHash,
            Contract.encodeVersioned, hle]
      rw [hmod f, hmod f'] at heq
      have hwell : (Place.versioned f a (v % 2 ^ 32)).WellFormed util :=
        ⟨ha, Nat.mod_lt _ (Nat.two_pow_pos 32)⟩
      have hwell' : (Place.versioned f' a' (v' % 2 ^ 32)).WellFormed util :=
        ⟨ha', Nat.mod_lt _ (Nat.two_pow_pos 32)⟩
      exact hne (Place.versioned.inj (Place.eq_of_key (by rintro ⟨⟩) hwell hwell' heq)).2.1

/-- A field whose front is no part of another front has keys of its own for
every address, of any length. -/
theorem notMem_entryKeys {f : ContractField} (hne : a ≠ a')
    (hdiverge : ∀ f' : ContractField, f' ≠ f →
      Fronts.Diverge (Field.contract f).front (Field.contract f').front) :
    f.key a ∉ entryKeys a' := by
  rintro (⟨f', heq⟩ | ⟨f', v, heq⟩)
  · by_cases hf : f' = f
    · subst hf
      have hback : Codec.encodeBytes a.bytes = Codec.encodeBytes a'.bytes := by
        cases f' <;> exact List.append_cancel_left heq
      cases a
      cases a'
      exact hne (congrArg Address.mk (Codec.encodeBytes_injective hback))
    · exact @Place.key_ne_of_diverge ⟨Hash.mk, Address.mk, 0⟩ (.contract f a) (.contract f' a')
        (hdiverge f' hf) heq
  · exact Place.contract_ne_versioned f f' a (a', v) heq

/-- What is kept of an address that is not that of a contract. -/
theorem admin_notMem_entryKeys (hne : a ≠ a') : ContractField.admin.key a ∉ entryKeys a' := by
  apply notMem_entryKeys hne
  intro f hf
  cases f <;> first | exact absurd rfl hf | decide +kernel

theorem version_notMem_entryKeys (hne : a ≠ a') :
    ContractField.version.key a ∉ entryKeys a' := by
  apply notMem_entryKeys hne
  intro f hf
  cases f <;> first | exact absurd rfl hf | decide +kernel

/-- What contracts write when they run is no entry of the module. -/
theorem entryKeys_notMem_vmKeys (hkey : key ∈ entryKeys a) : key ∉ Contract.vmKeys util := by
  have hbalance : ∀ f : ContractField,
      Fronts.Diverge (Field.contract f).front Field.balance.front := by
    intro f
    cases f <;> decide +kernel
  rcases hkey with ⟨f, rfl⟩ | ⟨f, v, rfl⟩
  · rintro (⟨b, own, heq⟩ | ⟨account, heq⟩)
    · exact @Place.key_ne_of_diverge util (.contract f a) (.data b own)
        (Field.separated.diverge Shape.noConfusion) heq
    · exact @Place.key_ne_of_diverge util (.contract f a) (.balance account) (hbalance f) heq
  · rintro (⟨b, own, heq⟩ | ⟨account, heq⟩)
    · exact @Place.key_ne_of_diverge util (.versioned f a v) (.data b own)
        (Field.separated.diverge Shape.noConfusion) heq
    · exact @Place.key_ne_of_diverge util (.versioned f a v) (.balance account)
        (Field.separated.diverge Shape.noConfusion) heq

theorem entryKeys_notMem_limits (hkey : key ∈ entryKeys a) : ∀ f : LimitField, key ≠ f.key := by
  intro f'
  rcases hkey with ⟨f, rfl⟩ | ⟨f, v, rfl⟩
  · exact @Place.key_ne_of_diverge ⟨Hash.mk, Address.mk, 0⟩ (.contract f a) (.limit f')
      (Field.separated.diverge Shape.noConfusion)
  · exact @Place.key_ne_of_diverge ⟨Hash.mk, Address.mk, 0⟩ (.versioned f a v) (.limit f')
      (Field.separated.diverge Shape.noConfusion)

variable {o o' : ContractOffice}

theorem id_mem_entryKeys (util : Util) (a : Address) (o : ContractOffice) :
    (o.seat util a).kind.proposalId.key ∈ entryKeys a :=
  mem_entryKeys_of_written util o (Or.inr (Or.inr rfl))

theorem proposal_mem_entryKeys (util : Util) (a : Address) (o : ContractOffice) :
    (o.seat util a).kind.proposal.key ∈ entryKeys a :=
  mem_entryKeys_of_written util o (Or.inr (Or.inl rfl))

theorem reads_subset_entryKeys (util : Util) (a : Address) (o : ContractOffice) :
    (o.seat util a).reads ⊆ entryKeys a := by
  intro key hkey
  apply mem_entryKeys_of_written util o
  cases o <;> exact Or.inl hkey

theorem admin_mem_entryKeys (util : Util) (a : Address) (o : ContractOffice) :
    (o.seat util a).kind.admin.key ∈ entryKeys a := by
  have hadmin := (key_entries a).2.2
  cases o <;> exact Or.inl ⟨.admin, hadmin⟩

/-- The two offices of a contract keep their proposals apart. -/
theorem pending_notMem_written (hne : o ≠ o') :
    (o'.seat util a).kind.proposalId.key ∉ written util a o ∧
      (o'.seat util a).kind.proposal.key ∉ written util a o := by
  obtain ⟨hid, hproposal, hadmin⟩ := key_entries a
  obtain ⟨hid', hproposal', -⟩ := key_codeEntries a util
  have hkeys := fun (f f' : ContractField) (h : f ≠ f') => Place.contract_key_ne h a
  cases o <;> cases o'
  case admin.admin => exact absurd rfl hne
  case code.code => exact absurd rfl hne
  case admin.code =>
    have h : ∀ f : ContractField, f ≠ .admin → f ≠ .updateAdminProposal →
        f ≠ .updateAdminProposalId → f.key a ∉ written util a .admin := by
      rintro f h₁ h₂ h₃ (h | h | h)
      · exact hkeys _ _ h₁ (h.trans hadmin)
      · exact hkeys _ _ h₂ (h.trans hproposal)
      · exact hkeys _ _ h₃ (h.trans hid)
    exact ⟨hid' ▸ h _ nofun nofun nofun, hproposal' ▸ h _ nofun nofun nofun⟩
  case code.admin =>
    have h : ∀ f : ContractField, f ≠ .version → f ≠ .updateCodeProposal →
        f ≠ .updateCodeProposalId → f.key a ∉ written util a .code := by
      rintro f h₁ h₂ h₃ (h | h | h)
      · exact key_notMem_codeKeys a h₁ h
      · exact hkeys _ _ h₂ (h.trans hproposal')
      · exact hkeys _ _ h₃ (h.trans hid')
    exact ⟨hid ▸ h _ nofun nofun nofun, hproposal ▸ h _ nofun nofun nofun⟩

/-- A vote on the admin does not change the versions, and no vote on the code
changes the admin. -/
theorem reads_notMem_written (hne : o ≠ o') {key : DBKey} (hkey : key ∈ (o'.seat util a).reads) :
    key ∉ written util a o := by
  obtain ⟨hid, hproposal, hadmin⟩ := key_entries a
  obtain ⟨hid', hproposal', -⟩ := key_codeEntries a util
  have hkeys := fun (f f' : ContractField) (h : f ≠ f') => Place.contract_key_ne h a
  cases o <;> cases o'
  case admin.admin => exact absurd rfl hne
  case code.code => exact absurd rfl hne
  case admin.code =>
    have h : ∀ f : ContractField, f ≠ .version → key ≠ f.key a := by
      rintro f hf rfl
      exact key_notMem_codeKeys a hf hkey
    rintro (hwritten | hwritten | hwritten)
    · exact h .admin nofun (Eq.trans hwritten hadmin)
    · exact h .updateAdminProposal nofun (Eq.trans hwritten hproposal)
    · exact h .updateAdminProposalId nofun (Eq.trans hwritten hid)
  case code.admin =>
    obtain rfl : key = ContractField.admin.key a := Eq.trans hkey hadmin
    rintro (hwritten | hwritten | hwritten)
    · exact key_notMem_codeKeys a (f := .admin) nofun hwritten
    · exact hkeys .admin .updateCodeProposal nofun (hwritten.trans hproposal')
    · exact hkeys .admin .updateCodeProposalId nofun (hwritten.trans hid')

theorem kind_admin (util : Util) (a : Address) (o : ContractOffice) :
    (o.seat util a).kind.admin = Contract.admin.entry a := by
  cases o <;> rfl

/-- The admin of the other office stays one by which votes can be counted. -/
theorem staffed_of_written (h : Touched (written util a o) c c') {admin : Admin}
    (hadmin : Contract.admin.get c a = .ok (some admin))
    (hstaffed : (o.seat util a).Staffed c') (hstaffed' : (o'.seat util a).Staffed c) :
    (o'.seat util a).Staffed c' := by
  by_cases hne : o = o'
  · exact hne ▸ hstaffed
  have hkind : (o'.seat util a).kind.admin = (o.seat util a).kind.admin := by
    rw [kind_admin, kind_admin]
  rcases hstaffed' with hnone | ⟨-, -, -, hready⟩
  · rw [kind_admin, StorageMap.get_entry, hadmin] at hnone
    cases hnone
  have hready' : (o'.seat util a).Ready c' :=
    ((o'.sound a util).congr c c' fun key hkey =>
      h.payloadGet_eq (reads_notMem_written hne hkey)).2 hready
  rcases hstaffed with hnone | ⟨new, hnew, hgood, -⟩
  · exact Or.inl (hkind ▸ hnone)
  · exact Or.inr ⟨new, hkind ▸ hnew, hgood, hready'⟩

/-- The keys of the entries of a new contract. -/
def stored (a : Address) : Set DBKey := {ContractField.admin.key a} ∪ codeKeys a

theorem pending_notMem_stored (util : Util) (a : Address) (o : ContractOffice) :
    (o.seat util a).kind.proposalId.key ∉ stored a ∧
      (o.seat util a).kind.proposal.key ∉ stored a := by
  obtain ⟨hid, hproposal, -⟩ := key_entries a
  obtain ⟨hid', hproposal', -⟩ := key_codeEntries a util
  have h : ∀ f : ContractField, f ≠ .admin → f ≠ .version → f.key a ∉ stored a := by
    rintro f hadmin hversion (hkey | hkey)
    · exact Place.contract_key_ne hadmin a hkey
    · exact key_notMem_codeKeys a hversion hkey
  cases o with
  | admin => exact ⟨hid ▸ h _ nofun nofun, hproposal ▸ h _ nofun nofun⟩
  | code => exact ⟨hid' ▸ h _ nofun nofun, hproposal' ▸ h _ nofun nofun⟩

theorem goodAdmin_creator {sender : Address} (hsender : ValidAddress sender) :
    GoodAdmin ⟨1, [(sender, 1)]⟩ := by
  have hone : 1 < 2 ^ 32 := Nat.one_lt_two_pow (by decide)
  refine ⟨⟨hone, hone, ?_⟩, List.nodup_singleton sender, hone⟩
  intro m hm
  rw [List.mem_singleton.1 hm]
  exact ⟨hsender, hone⟩

/-- The four writes for a new contract. -/
theorem touched_store (lib : Contract.Library) (c : Context) (a sender : Address)
    (newCode : Bytes) : Touched (stored a) c (lib.store c sender a newCode) := by
  have hadmin : Contract.admin.key a ∈ stored a := Or.inl rfl
  have hversion : Contract.version.key a ∈ stored a := Or.inr (Or.inl rfl)
  have hcode : Contract.code.key (a, 1) ∈ stored a := Or.inr (Or.inr ⟨1, Or.inl rfl⟩)
  have hhash : Contract.codeHash.key (a, 1) ∈ stored a := Or.inr (Or.inr ⟨1, Or.inr rfl⟩)
  exact (((Touched.refl.set hversion _).set hadmin _).set hcode _).set hhash _

theorem stored_subset_entryKeys (a : Address) : stored a ⊆ entryKeys a := by
  rintro key (rfl | hkey)
  · exact Or.inl ⟨.admin, rfl⟩
  · exact mem_entryKeys_of_codeKeys hkey

/-- The admin and the version of a new contract. -/
theorem store_spec (lib : Contract.Library) (c : Context) (a : Address) {sender : Address}
    (hsender : ValidAddress sender) (newCode : Bytes) :
    Contract.admin.get (lib.store c sender a newCode) a = .ok (some ⟨1, [(sender, 1)]⟩) ∧
      Contract.version.get (lib.store c sender a newCode) a = .ok (some 1) := by
  have hkeys := fun (f f' : ContractField) (h : f ≠ f') => Place.contract_key_ne h a
  have hversioned := fun f f' => Place.contract_ne_versioned f f' a (a, 1)
  have hentry : lib.store c sender a newCode =
      (Contract.codeHash.entry (a, 1)).set ((Contract.code.entry (a, 1)).set
        ((Contract.admin.entry a).set ((Contract.version.entry a).set c 1) ⟨1, [(sender, 1)]⟩)
          newCode) (lib.util.hash newCode) := by
    rw [StorageMap.set_entry, StorageMap.set_entry, StorageMap.set_entry, StorageMap.set_entry]
    rfl
  rw [hentry, ← StorageMap.get_entry, ← StorageMap.get_entry]
  constructor
  · rw [StorageValue.get_set_of_ne, StorageValue.get_set_of_ne]
    · exact StorageValue.get_set roundTrip_goodAdmin (goodAdmin_creator hsender) _
    · rw [StorageMap.key_entry, StorageMap.key_entry]
      exact hversioned .admin .code
    · rw [StorageMap.key_entry, StorageMap.key_entry]
      exact hversioned .admin .codeHash
  · rw [StorageValue.get_set_of_ne, StorageValue.get_set_of_ne, StorageValue.get_set_of_ne]
    · have hone : Codec.U32 1 := Nat.one_lt_two_pow (by decide)
      exact StorageValue.get_set Codec.roundTrip_u32 hone _
    · rw [StorageMap.key_entry, StorageMap.key_entry]
      exact hkeys .version .admin nofun
    · rw [StorageMap.key_entry, StorageMap.key_entry]
      exact hversioned .version .code
    · rw [StorageMap.key_entry, StorageMap.key_entry]
      exact hversioned .version .codeHash

end ContractOffice

end Finastate.Governance
