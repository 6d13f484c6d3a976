import Finastate.Module.Governed

/-!
# The law of governance

What the admin of a module or contract decides on changes with the vote that
brings the weight of all that voted for a proposal up to the threshold, and
becomes what was proposed. `Lawful` says so of one call after a run. It is so in
every run whose genesis admins list no address twice; otherwise the weights of
such an address are counted once.
-/

namespace Finastate.Governance

open Executor
open Contract (Admin Library)

/-- The law for a proposal: exactly the members of the current admin can make
it, and it counts as their vote. -/
structure Proposes (util : Util) (h : History) (sender : Option Address) (o : Office)
    (value : o.Value) : Prop where
  allowed : (∃ c', o.update util h.context sender value = .ok c') ↔
    ∃ x, sender = some x ∧ o.Member util h.context x
  counted : ∀ x c', sender = some x → o.update util h.context sender value = .ok c' →
    ∃ a, o.admin util h.context = .ok (some a) ∧
      o.Counted util h.context c' a (o.nextId util h.context) (o.proposed value)
        (insert x (Ballot.voters (h.log o) (o.nextId util h.context)))

/-- The law for a vote: exactly the members of the current admin can vote, for
the proposal that is pending, and all votes for it are counted. -/
structure Votes (util : Util) (h : History) (sender : Option Address) (o : Office) (id : Nat) :
    Prop where
  allowed : (∃ c', o.updateVote util h.context sender id = .ok c') ↔
    (∃ x, sender = some x ∧ o.Member util h.context x) ∧
      ∃ p, o.pending util h.context = .ok (some p) ∧ p.proposalId = id
  counted : ∀ x c', sender = some x → o.updateVote util h.context sender id = .ok c' →
    ∃ a value, o.admin util h.context = .ok (some a) ∧
      (id, value) ∈ Ballot.proposals (h.log o) ∧
      o.Counted util h.context c' a id value (insert x (Ballot.voters (h.log o) id))

/-- The law for a call; what the call is not about stays. -/
structure Lawful (lib : Library) (h : History) (sender : Option Address) (call : Invocation) :
    Prop where
  proposes : ∀ o value, call = .propose o value → Proposes lib.util h sender o value
  votes : ∀ o id, call = .vote o id → Votes lib.util h sender o id
  others : ∀ c', call.exec lib h.context sender = .ok c' →
    ∀ o : Office, ¬ call.Sets lib h.context o → o.read lib.util c' = o.read lib.util h.context

/-- Every id of a kind is used for one proposal, and the law holds for every
call of a kind `P`. -/
structure LawfulFor (lib : Library) (P : History → Option Address → Invocation → Prop)
    (h : History) : Prop where
  ids : ∀ o : Office, ((Ballot.proposals (h.log o)).map Prod.fst).Nodup
  calls : ∀ sender call, P h sender call → Lawful lib h sender call

namespace Governed

variable {lib : Library} {util : Util} {h : History} {c c' : Context} {sender : Option Address}

/-! ## Who may call -/

theorem proposes (hg : Governed util h) {o : Office} {value : o.Value}
    (hsender : ∀ x ∈ sender, ValidAddress x) (htyped : o.Typed value)
    (hlt : (Ballot.proposals (h.log o)).length + 2 < 2 ^ 32) :
    Proposes util h sender o value := by
  constructor
  · cases o with
    | consensus o =>
        obtain ⟨hstaffed, hkeeps⟩ := hg.councils o
        have heq : (Office.consensus o).update util h.context sender value =
            o.seat.kind.update o.seat.pass h.context sender (o.proposed value) :=
          o.update_eq h.context sender value
        rw [heq]
        exact o.sound.update_isOk_iff hstaffed hkeeps sender (o.proposed value)
    | contract o a =>
        have heq : (Office.contract o a).update util h.context sender value =
            (o.seat util a).kind.update (o.seat util a).pass h.context sender
              (o.proposed value) :=
          o.update_eq util a h.context sender value
        rw [heq]
        by_cases ha : a.bytes.length = util.addressLength
        · obtain ⟨hstaffed, hkeeps⟩ := hg.contracts.kept a ha o
          exact (o.sound a util).update_isOk_iff hstaffed hkeeps sender (o.proposed value)
        · constructor
          · rintro ⟨c', hcall⟩
            obtain ⟨x, admin, -, -, -, hadmin, -⟩ := Kind.update_eq_ok _ _ hcall
            exact absurd (hg.proper hadmin) ha
          · rintro ⟨x, -, admin, hadmin, -⟩
            exact absurd (hg.proper hadmin) ha
  · rintro x c' rfl hcall
    exact (hg.propose (hsender x rfl) htyped hlt hcall).2

theorem votes (hg : Governed util h) {o : Office} {id : Nat}
    (hsender : ∀ x ∈ sender, ValidAddress x)
    (hfits : ∀ p, o.pending util h.context = .ok (some p) → p.vote.length + 1 < 2 ^ 32) :
    Votes util h sender o id := by
  constructor
  · cases o with
    | consensus o =>
        have heq : (Office.consensus o).updateVote util h.context sender id =
            o.seat.kind.updateVote o.seat.pass h.context sender id :=
          o.updateVote_eq h.context sender id
        rw [heq]
        exact o.sound.updateVote_isOk_iff (hg.councils o).1 sender id
    | contract o a =>
        have heq : (Office.contract o a).updateVote util h.context sender id =
            (o.seat util a).kind.updateVote (o.seat util a).pass h.context sender id :=
          o.updateVote_eq util a h.context sender id
        rw [heq]
        by_cases ha : a.bytes.length = util.addressLength
        · exact (o.sound a util).updateVote_isOk_iff (hg.contracts.kept a ha o).1 sender id
        · constructor
          · rintro ⟨c', hcall⟩
            obtain ⟨x, admin, -, -, hadmin, -⟩ := Kind.updateVote_eq_ok _ _ hcall
            exact absurd (hg.proper hadmin) ha
          · rintro ⟨⟨x, -, admin, hadmin, -⟩, -⟩
            exact absurd (hg.proper hadmin) ha
  · rintro x c' rfl hcall
    exact (hg.vote (hsender x rfl) hfits hcall).2

/-! ## What stays -/

/-- Nothing is read under an address that is not of the chain. -/
theorem read_of_nobody (hg : Governed util h) {a : Address} (o : ContractOffice)
    (ha : a.bytes.length ≠ util.addressLength) :
    (o.seat util a).read h.context = .ok none := by
  obtain ⟨⟨hadmin, hversion⟩, -⟩ := hg.contracts.nobody a ha
  cases o with
  | admin =>
      rw [← StorageMap.get_entry] at hadmin
      exact hadmin
  | code =>
      change Contract.innerGetCode h.context a none = .ok none
      rw [Contract.innerGetCode, Contract.innerGetVersion, hversion]
      rfl

/-- The offices of the consensus modules after a call of the contract module. -/
theorem read_consensus {keys : Set DBKey} (htouched : Touched (C := Context) keys c c')
    (o : ConsensusOffice) : o.seat.read c' = o.seat.read c :=
  (o.same_of_keys fun key _ =>
    congrArg (fun s => ContextState.get s key) htouched.metaState_eq).read

/-- The offices of a contract whose entries are not written. -/
theorem read_contract {a : Address} (o : ContractOffice)
    (hget : ∀ key ∈ ContractOffice.entryKeys a, c'.payloadGet key = c.payloadGet key) :
    (o.seat util a).read c' = (o.seat util a).read c :=
  ((o.sound a util).congr c c' fun key hkey =>
    hget key (ContractOffice.reads_subset_entryKeys util a o hkey)).1

/-- The offices of other contracts after a call that writes entries of one. -/
theorem read_other {h' : History} (hg : Governed util h) (hg' : Governed util h')
    {keys : Set DBKey} {a a' : Address} (ha : a.bytes.length = util.addressLength)
    (htouched : Touched keys h.context h'.context) (hkeys : keys ⊆ ContractOffice.entryKeys a)
    (hne : a' ≠ a) (o : ContractOffice) :
    (o.seat util a').read h'.context = (o.seat util a').read h.context := by
  by_cases ha' : a'.bytes.length = util.addressLength
  · apply read_contract
    intro key hkey
    apply htouched.payloadGet_eq
    intro hmem
    exact ContractOffice.entryKeys_disjoint ha' ha hne hkey (hkeys hmem)
  · rw [hg'.read_of_nobody o ha', hg.read_of_nobody o ha']

/-- A contract after a call of a meta module. -/
theorem read_contract_of_meta {c c' : MetaContext} {keys : Set DBKey} {a : Address}
    (htouched : Touched keys c c') (o : ContractOffice) :
    (o.seat util a).read c' = (o.seat util a).read c :=
  read_contract o fun key _ => congrArg (fun s => ContextState.get s key) htouched.payloadState_eq

/-- The other offices after a vote on an office of a consensus module. -/
theorem others_consensus {o : ConsensusOffice} {c c' : MetaContext}
    (htouched : Touched (o.seat.writes ∪ {o.seat.kind.proposal.key, o.seat.kind.proposalId.key}) c c')
    {o' : Office} (hne : o' ≠ .consensus o) : o'.read util c' = o'.read util c := by
  cases o' with
  | consensus o' =>
      have hne' : o' ≠ o := fun heq => hne (congrArg Office.consensus heq)
      have hsame : o'.Same c c' := ConsensusOffice.same_of_touched htouched fun key hkey hmem =>
        ConsensusOffice.keys_disjoint hne' hkey (ConsensusOffice.mem_keys_of_written hmem)
      exact hsame.read
  | contract o' a => exact read_contract_of_meta htouched o'

/-- The other offices after a vote on an office of a contract. -/
theorem others_contract {h' : History} (hg : Governed util h) (hg' : Governed util h')
    {o : ContractOffice} {a : Address} (ha : a.bytes.length = util.addressLength)
    (htouched : Touched (ContractOffice.written util a o) h.context h'.context)
    {o' : Office} (hne : o' ≠ .contract o a) :
    o'.read util h'.context = o'.read util h.context := by
  cases o' with
  | consensus o' => exact read_consensus htouched o'
  | contract o' a' =>
      by_cases heq : a' = a
      · subst heq
        have hne' : o ≠ o' := fun heq => hne (by rw [heq])
        exact ((o'.sound a' util).congr h.context h'.context fun key hkey =>
          htouched.payloadGet_eq (ContractOffice.reads_notMem_written hne' hkey)).1
      · exact hg.read_other hg' ha htouched (fun _ => ContractOffice.mem_entryKeys_of_written _ _)
          heq o'

/-- The offices that an `init` is not about. -/
theorem others_genesis {m : ConsensusModule} {a : Admin} (hgenesis : Genesis m a c c')
    {o : Office} (hne : ∀ o' : ConsensusOffice, o = .consensus o' → o'.home ≠ m) :
    o.read util c' = o.read util c := by
  cases o with
  | consensus o => exact hgenesis.read_eq (hne o rfl)
  | contract o a => exact read_contract_of_meta hgenesis.touched o

theorem others (hlength : ∀ data, (lib.util.address data).bytes.length = lib.util.addressLength)
    (hg : Governed lib.util h) {call : Invocation} (hdomain : Domain h sender call)
    (hregular : Regular lib.util h call) (hexec : call.exec lib h.context sender = .ok c')
    {o : Office} (hsets : ¬ call.Sets lib h.context o) :
    o.read lib.util c' = o.read lib.util h.context := by
  have hg' := hg.call hlength hdomain hregular hexec
  obtain ⟨hsender, hvalues⟩ := hdomain
  cases call with
  | hotstuffInit params =>
      have hgood : GoodAdmin ⟨params.admin.1, params.admin.2⟩ := ⟨hvalues.1, hregular, hvalues.2⟩
      apply others_genesis (HotstuffModule.genesis_of_init hgood hexec)
      rintro o' rfl hhome
      cases o' <;> first | exact hsets (Or.inl rfl) | exact hsets (Or.inr rfl) | cases hhome
  | raftInit params =>
      have hgood : GoodAdmin ⟨params.admin.1, params.admin.2⟩ := ⟨hvalues.1, hregular, hvalues.2⟩
      apply others_genesis (RaftModule.genesis_of_init hgood hexec)
      rintro o' rfl hhome
      cases o' <;> first | exact hsets (Or.inl rfl) | exact hsets (Or.inr rfl) | cases hhome
  | poaInit params =>
      have hgood : GoodAdmin ⟨params.admin.1, params.admin.2⟩ := ⟨hvalues.1, hregular, hvalues.2⟩
      apply others_genesis (PoaModule.genesis_of_init hgood hexec)
      rintro o' rfl hhome
      cases o' <;> first | exact hsets (Or.inl rfl) | exact hsets (Or.inr rfl) | cases hhome
  | contractInit params =>
      have htouched := touched_contractInit hexec
      cases o with
      | consensus o => exact read_consensus htouched o
      | contract o a =>
          apply read_contract
          rintro key hkey
          apply htouched.payloadGet_eq
          rintro ⟨f, hf⟩
          exact ContractOffice.entryKeys_notMem_limits hkey f hf
  | create params =>
      obtain ⟨x, txHash, rfl, htxHash, htouched⟩ := create_eq_ok hexec
      have hstored := ContractOffice.touched_store lib h.context (lib.contractAddress txHash) x
        params.code
      cases o with
      | consensus o => exact (read_consensus htouched o).trans (read_consensus hstored o)
      | contract o a =>
          have hne : a ≠ lib.contractAddress txHash := by
            rintro rfl
            exact hsets ⟨txHash, o, htxHash, rfl⟩
          have hbetween : Governed lib.util
              ⟨lib.store h.context x (lib.contractAddress txHash) params.code, h.log⟩ :=
            ⟨hg.councils.of_payload hstored,
              hg.contracts.created lib (hlength _) (hsender x rfl) params.code⟩
          refine Eq.trans ?_ (hg.read_other hbetween (hlength _) hstored
            (ContractOffice.stored_subset_entryKeys _) hne o)
          exact read_contract o fun key hkey =>
            htouched.payloadGet_eq (ContractOffice.entryKeys_notMem_vmKeys hkey)
  | execute params =>
      have htouched := touched_execute hexec
      cases o with
      | consensus o => exact read_consensus htouched o
      | contract o a =>
          exact read_contract o fun key hkey =>
            htouched.payloadGet_eq (ContractOffice.entryKeys_notMem_vmKeys hkey)
  | propose o' value =>
      cases o' with
      | consensus o' =>
          exact others_consensus (o'.sound.touched_update
            ((o'.update_eq h.context sender value).symm.trans hexec)) hsets
      | contract o' a =>
          have hcall := (o'.update_eq lib.util a h.context sender value).symm.trans hexec
          obtain ⟨-, admin, -, -, -, hadmin, -⟩ := Kind.update_eq_ok _ _ hcall
          exact hg.others_contract hg' (hg.proper hadmin)
            ((o'.sound a lib.util).touched_update hcall) hsets
  | vote o' id =>
      cases o' with
      | consensus o' =>
          exact others_consensus (o'.sound.touched_updateVote
            ((o'.updateVote_eq h.context sender id).symm.trans hexec)) hsets
      | contract o' a =>
          have hcall := (o'.updateVote_eq lib.util a h.context sender id).symm.trans hexec
          obtain ⟨-, admin, -, -, hadmin, -⟩ := Kind.updateVote_eq_ok _ _ hcall
          exact hg.others_contract hg' (hg.proper hadmin)
            ((o'.sound a lib.util).touched_updateVote hcall) hsets

/-! ## The law -/

theorem lawful (hlength : ∀ data, (lib.util.address data).bytes.length = lib.util.addressLength)
    (hg : Governed lib.util h) {call : Invocation} (hdomain : Domain h sender call)
    (hregular : Regular lib.util h call) : Lawful lib h sender call := by
  constructor
  · rintro o value rfl
    exact hg.proposes hdomain.1 hdomain.2.1 hdomain.2.2
  · rintro o id rfl
    exact hg.votes hdomain.1 hregular
  · intro c' hexec o hsets
    exact hg.others hlength hdomain hregular hexec hsets

theorem nodup_ids (hg : Governed util h) (o : Office) :
    ((Ballot.proposals (h.log o)).map Prod.fst).Nodup := by
  cases o with
  | consensus o =>
      obtain ⟨pending, -, hkept, -⟩ := (hg.councils o).2.pending
      exact hkept.nodup_ids
  | contract o a =>
      by_cases ha : a.bytes.length = util.addressLength
      · obtain ⟨pending, -, hkept, -⟩ := (hg.contracts.kept a ha o).2.pending
        exact hkept.nodup_ids
      · rw [(hg.contracts.nobody a ha).2 o]
        exact List.nodup_nil

end Governed

section Runs

variable {lib : Library}

/-- The law of governance holds in every run whose genesis admins list no
address twice and whose lists of votes can be encoded. -/
theorem Run.lawfulFor
    (hlength : ∀ data, (lib.util.address data).bytes.length = lib.util.addressLength)
    {h : History}
    (hrun : Run lib (fun h sender call => Domain h sender call ∧ Regular lib.util h call) h) :
    LawfulFor lib (fun h sender call => Domain h sender call ∧ Regular lib.util h call) h := by
  have hg := hrun.governed hlength
  exact ⟨hg.nodup_ids, fun _ _ hcall => hg.lawful hlength hcall.1 hcall.2⟩

end Runs

/-! A chain with one-byte addresses and its hotstuff module, where the weights
of the admin have to add up to three. -/

def threeOf (members : List (Address × Nat)) : Methods.Hotstuff.InitParams where
  blockInterval := none
  viewTimeout := 0
  admin := (3, members)
  authorities := []

/-- The history after genesis. -/
def councilOf (members : List (Address × Nat)) : History where
  context := Result.get (HotstuffModule.init (C := MetaContext) (.new ⟨0, 0⟩ [] [])
    (threeOf members)) rfl
  log := fun _ => []

theorem run_councilOf {lib : Library} {P : History → Option Address → Invocation → Prop}
    {members : List (Address × Nat)}
    (hcall : P (.start ⟨0, 0⟩) none (.hotstuffInit (threeOf members))) :
    Run lib P (councilOf members) :=
  .call (.start ⟨0, 0⟩) hcall rfl

/-- A proposal of `9` as the only authority. -/
def proposeNine : Invocation := .propose (.consensus .hotstuffAuthorities) [(⟨[9]⟩, 1)]

theorem domain_proposeNine (members : List (Address × Nat)) :
    Domain (councilOf members) (some ⟨[7]⟩) proposeNine := by
  have hroom : 0 + 2 < 2 ^ 32 := by decide
  refine ⟨?_, ?_, hroom⟩
  · intro x hx
    cases hx
    decide
  · change Codec.ValidVec ValidMember [(⟨[9]⟩, 1)]
    decide

/-- Two members with weights two and one, the first of which has made a
proposal. -/
theorem lawfulFor_proposed : ∃ h,
    (Ballot.proposals (h.log (.consensus .hotstuffAuthorities))).length = 1 ∧
      LawfulFor (Contract.Sample.library [])
        (fun h sender call => Domain h sender call ∧
          Regular (Contract.Sample.library []).util h call) h := by
  have hgenesis : Run (Contract.Sample.library [])
      (fun h sender call => Domain h sender call ∧
        Regular (Contract.Sample.library []).util h call)
      (councilOf [(⟨[7]⟩, 2), (⟨[8]⟩, 1)]) :=
    run_councilOf ⟨⟨nofun, by decide, by decide⟩,
      (by decide : ([⟨[7]⟩, ⟨[8]⟩] : List Address).Nodup)⟩
  have hexec := Result.eq_ok_get (proposeNine.exec (Contract.Sample.library [])
    (councilOf [(⟨[7]⟩, 2), (⟨[8]⟩, 1)]).context (some ⟨[7]⟩)) (by decide +kernel)
  have hrun := hgenesis.call ⟨domain_proposeNine _, trivial⟩ hexec
  exact ⟨_, rfl, Run.lawfulFor (fun _ => rfl) hrun⟩

/-- With two entries of the one member the threshold is reached, but only the
last one is counted. -/
theorem not_lawfulFor_twice : ¬ ∀ (lib : Library) (h : History),
    (∀ data, (lib.util.address data).bytes.length = lib.util.addressLength) →
      Run lib Domain h → LawfulFor lib Domain h := by
  intro hall
  have hrun : Run (Contract.Sample.library []) Domain
      (councilOf [(⟨[7]⟩, 1), (⟨[7]⟩, 2)]) :=
    run_councilOf ⟨nofun, by decide, by decide⟩
  have hlaw := (hall _ _ (fun _ => rfl) hrun).calls (some ⟨[7]⟩) proposeNine (domain_proposeNine _)
  have hexec := Result.eq_ok_get (proposeNine.exec (Contract.Sample.library [])
    (councilOf [(⟨[7]⟩, 1), (⟨[7]⟩, 2)]).context (some ⟨[7]⟩)) (by decide +kernel)
  obtain ⟨a, ha, hcounted⟩ := (hlaw.proposes _ _ rfl).counted ⟨[7]⟩ _ rfl hexec
  have hadmin : HotstuffModule.admin.get (C := MetaContext)
      (councilOf [(⟨[7]⟩, 1), (⟨[7]⟩, 2)]).context =
        .ok (some ⟨3, [(⟨[7]⟩, 1), (⟨[7]⟩, 2)]⟩) := by
    decide +kernel
  cases hadmin.symm.trans ha
  obtain ⟨-, hnone⟩ := hcounted.passed (by decide +kernel)
  revert hnone
  decide +kernel

end Finastate.Governance
