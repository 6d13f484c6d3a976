import Finastate.Module.Frame
import Finastate.Module.History

/-!
# The seats along a run

`Governed` says of a history that every seat keeps what its record says and
has an admin by which votes can be counted, and that nothing is known of
addresses that contracts cannot have. It holds at the start, does not depend on
the transaction or block, and is kept by every call of a run.
-/

namespace Finastate.Governance

open Executor
open Contract (Admin Library)

/-- The records of all offices. -/
abbrev Log : Type := (o : Office) → List (Ballot.Entry Address o.Value)

/-! ## Consensus modules -/

/-- The consensus modules agree with their records. -/
def Councils (log : Log) (c : MetaContext) : Prop :=
  ∀ o : ConsensusOffice, o.seat.Staffed c ∧ o.seat.Keeps (log (.consensus o)) c

namespace Councils

variable {log log' : Log} {c c' : MetaContext}

/-- Nothing is pending as before, and admins are as before or new ones. -/
theorem of_get (h : Councils log c)
    (hpending : ∀ o : ConsensusOffice,
      o.seat.kind.proposalId.get c' = o.seat.kind.proposalId.get c ∧
        o.seat.kind.proposal.get c' = o.seat.kind.proposal.get c)
    (hadmin : ∀ o : ConsensusOffice, o.seat.kind.admin.get c' = o.seat.kind.admin.get c ∨
      ∃ a, GoodAdmin a ∧ o.seat.kind.admin.get c' = .ok (some a)) :
    Councils log c' := by
  intro o
  obtain ⟨hstaffed, hkeeps⟩ := h o
  refine ⟨?_, hkeeps.congr (hpending o).1 (hpending o).2⟩
  rcases hadmin o with hsame | ⟨a, hgood, ha⟩
  · rcases hstaffed with hnone | ⟨a, ha, hgood, -⟩
    · exact Or.inl (hsame.trans hnone)
    · exact Or.inr ⟨a, hsame.trans ha, hgood, o.ready c'⟩
  · exact Or.inr ⟨a, ha, hgood, o.ready c'⟩

theorem congr (h : Councils log c)
    (hget : ∀ key, ContextT.payloadGet c' key = ContextT.payloadGet c key) :
    Councils log c' :=
  h.of_get (fun _ => ⟨contextGet_congr (hget _), contextGet_congr (hget _)⟩)
    fun _ => Or.inl (contextGet_congr (hget _))

theorem genesis (h : Councils log c) {m : ConsensusModule} {a : Admin} (hgood : GoodAdmin a)
    (hgenesis : Genesis m a c c') : Councils log c' := by
  apply h.of_get
  · intro o
    obtain ⟨hid, hproposal⟩ := pending_notMem_initKeys m o
    exact ⟨hgenesis.touched.get_eq hid, hgenesis.touched.get_eq hproposal⟩
  · intro o
    exact (hgenesis.get_admin o).imp_right fun ha => ⟨a, hgood, ha⟩

/-- The other offices after a vote on one. -/
theorem written (h : Councils log c) {o : ConsensusOffice}
    {entries : List (Ballot.Entry Address o.Value)}
    (htouched : Touched (o.seat.writes ∪ {o.seat.kind.proposal.key, o.seat.kind.proposalId.key}) c c')
    (hstaffed : o.seat.Staffed c') (hkeeps : o.seat.Keeps entries c') :
    Councils (Function.update log (.consensus o) entries) c' := by
  intro o'
  by_cases hne : o' = o
  · subst hne
    rw [Function.update_self]
    exact ⟨hstaffed, hkeeps⟩
  · have hoffice : Office.consensus o' ≠ .consensus o := fun heq => hne (Office.consensus.inj heq)
    have hsame : o'.Same c c' := ConsensusOffice.same_of_touched htouched fun key hkey hmem =>
      ConsensusOffice.keys_disjoint hne hkey (ConsensusOffice.mem_keys_of_written hmem)
    rw [Function.update_of_ne hoffice]
    exact ⟨ConsensusOffice.staffed_of_touched htouched hstaffed (h o').1,
      (h o').2.congr hsame.id hsame.proposal⟩

/-- The record of a contract is of no concern. -/
theorem update_contract (h : Councils log c) (o : ContractOffice) (a : Address)
    (entries : List (Ballot.Entry Address o.Value)) :
    Councils (Function.update log (.contract o a) entries) c := by
  intro o'
  have hoffice : Office.consensus o' ≠ .contract o a := nofun
  rw [Function.update_of_ne hoffice]
  exact h o'

end Councils

/-! ## The contract module -/

/-- The contracts agree with their records, and there is none at an address of
another length. -/
structure Contracts (util : Util) (log : Log) (c : Context) : Prop where
  kept : ∀ a : Address, a.bytes.length = util.addressLength → ∀ o : ContractOffice,
    (o.seat util a).Staffed c ∧ (o.seat util a).Keeps (log (.contract o a)) c
  nobody : ∀ a : Address, a.bytes.length ≠ util.addressLength →
    (Contract.admin.get c a = .ok none ∧ Contract.version.get c a = .ok none) ∧
      ∀ o, log (.contract o a) = []

namespace Contracts

open Keys ContractOffice

variable {util : Util} {log log' : Log} {c c' : Context}

/-- Seats are as before if their entries are. -/
theorem seat_congr {a : Address} {o : ContractOffice}
    {entries : List (Ballot.Entry Address o.Value)}
    (hget : ∀ key ∈ entryKeys a, c'.payloadGet key = c.payloadGet key)
    (h : (o.seat util a).Staffed c ∧ (o.seat util a).Keeps entries c) :
    (o.seat util a).Staffed c' ∧ (o.seat util a).Keeps entries c' := by
  have hadmin : (o.seat util a).kind.admin.get c' = (o.seat util a).kind.admin.get c :=
    contextGet_congr (hget _ (admin_mem_entryKeys util a o))
  have hreads := (o.sound a util).congr c c' fun key hkey =>
    hget key (reads_subset_entryKeys util a o hkey)
  obtain ⟨hstaffed, hkeeps⟩ := h
  constructor
  · rcases hstaffed with hnone | ⟨admin, ha, hgood, hready⟩
    · exact Or.inl (hadmin.trans hnone)
    · exact Or.inr ⟨admin, hadmin.trans ha, hgood, hreads.2 hready⟩
  · exact hkeeps.congr (contextGet_congr (hget _ (id_mem_entryKeys util a o)))
      (contextGet_congr (hget _ (proposal_mem_entryKeys util a o)))

theorem congr (h : Contracts util log c)
    (hget : ∀ a, ∀ key ∈ entryKeys a, c'.payloadGet key = c.payloadGet key) :
    Contracts util log c' := by
  constructor
  · intro a ha o
    exact seat_congr (hget a) (h.kept a ha o)
  · intro a ha
    obtain ⟨⟨hadmin, hversion⟩, hlog⟩ := h.nobody a ha
    have hsame : ∀ f : ContractField, c'.payloadGet (f.key a) = c.payloadGet (f.key a) :=
      fun f => hget a _ (Or.inl ⟨f, rfl⟩)
    exact ⟨⟨(contextGet_congr (hsame .admin)).trans hadmin,
      (contextGet_congr (hsame .version)).trans hversion⟩, hlog⟩

/-- What running contracts write is of no concern. -/
theorem touched_vmKeys (h : Contracts util log c) (htouched : Touched (Contract.vmKeys util) c c') :
    Contracts util log c' :=
  h.congr fun _ _ hkey => htouched.payloadGet_eq (entryKeys_notMem_vmKeys hkey)

/-- A call writes entries of one contract. -/
theorem written (h : Contracts util log c) {a : Address} {keys : Set DBKey}
    (ha : a.bytes.length = util.addressLength) (htouched : Touched keys c c')
    (hkeys : keys ⊆ entryKeys a)
    (hother : ∀ o a', a' ≠ a → log' (.contract o a') = log (.contract o a'))
    (hseats : ∀ o : ContractOffice,
      (o.seat util a).Staffed c' ∧ (o.seat util a).Keeps (log' (.contract o a)) c') :
    Contracts util log' c' := by
  constructor
  · intro a' ha' o
    by_cases hne : a' = a
    · exact hne ▸ hseats o
    · rw [hother o a' hne]
      refine seat_congr ?_ (h.kept a' ha' o)
      intro key hkey
      exact htouched.payloadGet_eq fun hmem => entryKeys_disjoint ha' ha hne hkey (hkeys hmem)
  · intro a' ha'
    have hne : a' ≠ a := fun heq => ha' (heq ▸ ha)
    obtain ⟨⟨hadmin, hversion⟩, hlog⟩ := h.nobody a' ha'
    refine ⟨⟨?_, ?_⟩, fun o => (hother o a' hne).trans (hlog o)⟩
    · exact (contextGet_congr (htouched.payloadGet_eq fun hmem =>
        admin_notMem_entryKeys hne (hkeys hmem))).trans hadmin
    · exact (contextGet_congr (htouched.payloadGet_eq fun hmem =>
        version_notMem_entryKeys hne (hkeys hmem))).trans hversion

/-- A vote on an office of a contract. -/
theorem voted (h : Contracts util log c) {a : Address} {o : ContractOffice} {admin : Admin}
    {entries : List (Ballot.Entry Address o.Value)} (ha : a.bytes.length = util.addressLength)
    (hadmin : Contract.admin.get c a = .ok (some admin))
    (htouched : Touched (ContractOffice.written util a o) c c')
    (hstaffed : (o.seat util a).Staffed c') (hkeeps : (o.seat util a).Keeps entries c') :
    Contracts util (Function.update log (.contract o a) entries) c' := by
  apply h.written ha htouched fun _ => mem_entryKeys_of_written _ _
  · intro o' a' hne
    have hoffice : Office.contract o' a' ≠ .contract o a :=
      fun heq => hne (Office.contract.inj heq).2
    exact Function.update_of_ne hoffice _ _
  · intro o'
    refine ⟨staffed_of_written htouched hadmin hstaffed (h.kept a ha o').1, ?_⟩
    by_cases hne : o' = o
    · subst hne
      rw [Function.update_self]
      exact hkeeps
    · have hoffice : Office.contract o' a ≠ .contract o a :=
        fun heq => hne (Office.contract.inj heq).1
      obtain ⟨hid, hproposal⟩ := pending_notMem_written (Ne.symm hne)
      rw [Function.update_of_ne hoffice]
      exact (h.kept a ha o').2.congr (htouched.get_eq hid) (htouched.get_eq hproposal)

/-- The record of a consensus module is of no concern. -/
theorem update_consensus (h : Contracts util log c) (o : ConsensusOffice)
    (entries : List (Ballot.Entry Address o.Value)) :
    Contracts util (Function.update log (.consensus o) entries) c := by
  have hlog : ∀ (o' : ContractOffice) (a : Address),
      Function.update log (.consensus o) entries (.contract o' a) = log (.contract o' a) := by
    intro o' a
    have hoffice : Office.contract o' a ≠ .consensus o := nofun
    exact Function.update_of_ne hoffice _ _
  constructor
  · intro a ha o'
    rw [hlog]
    exact h.kept a ha o'
  · intro a ha
    exact ⟨(h.nobody a ha).1, fun o' => (hlog o' a).trans ((h.nobody a ha).2 o')⟩

/-- A new contract has its creator as admin and its code as version 1. -/
theorem created (h : Contracts util log c) (lib : Library) {a sender : Address} (ha : a.bytes.length = util.addressLength)
    (hsender : ValidAddress sender) (newCode : Bytes) :
    Contracts util log (lib.store c sender a newCode) := by
  obtain ⟨hadmin, hversion⟩ := store_spec lib c a hsender newCode
  have htouched := touched_store lib c a sender newCode
  apply h.written ha htouched (stored_subset_entryKeys a)
  · exact fun _ _ _ => rfl
  · intro o
    have hgood : GoodAdmin ⟨1, [(sender, 1)]⟩ := goodAdmin_creator hsender
    refine ⟨Or.inr ⟨_, ?_, hgood, ?_⟩, ?_⟩
    · rw [kind_admin, StorageMap.get_entry]
      exact hadmin
    · cases o with
      | admin => exact trivial
      | code => exact ⟨1, hversion⟩
    · obtain ⟨hid, hproposal⟩ := pending_notMem_stored util a o
      exact (h.kept a ha o).2.congr (htouched.get_eq hid) (htouched.get_eq hproposal)

end Contracts

/-! ## Calls -/

/-- A meta module leaves the contracts alone. -/
theorem Contracts.of_meta {util : Util} {log : Log} {c c' : MetaContext} {keys : Set DBKey}
    (h : Contracts util log c) (htouched : Touched keys c c') : Contracts util log c' :=
  h.congr fun _ key _ => congrArg (fun s => ContextState.get s key) htouched.payloadState_eq

/-- The contract module leaves the consensus modules alone. -/
theorem Councils.of_payload {log : Log} {c c' : Context} {keys : Set DBKey}
    (h : Councils log c) (htouched : Touched keys c c') : Councils log c' :=
  h.congr fun key => congrArg (fun s => ContextState.get s key) htouched.metaState_eq

/-- What holds of the history of every run. -/
structure Governed (util : Util) (h : History) : Prop where
  councils : Councils h.log h.context
  contracts : Contracts util h.log h.context

namespace Governed

variable {lib : Library} {util : Util} {h : History} {c' : Context} {sender : Option Address}

theorem start (util : Util) (env : ContextEnv) : Governed util (.start env) := by
  constructor
  · intro o
    exact ⟨Or.inl rfl, Seat.keeps_nil rfl rfl⟩
  · constructor
    · intro a ha o
      refine ⟨Or.inl ?_, Seat.keeps_nil ?_ ?_⟩ <;> cases o <;> rfl
    · exact fun a ha => ⟨⟨rfl, rfl⟩, fun o => rfl⟩

theorem resume (hg : Governed util h) (hdata : SameData util h.context c') :
    Governed util { h with context := c' } :=
  ⟨hg.councils.congr hdata.metaGet,
    hg.contracts.congr fun _ key hkey =>
      hdata.payloadGet key (ContractOffice.entryKeys_notMem_vmKeys hkey)⟩

theorem genesis (hg : Governed util h) {m : ConsensusModule} {a : Admin} (hgood : GoodAdmin a)
    (hgenesis : Genesis m a h.context c') : Governed util ⟨c', h.log⟩ :=
  ⟨hg.councils.genesis hgood hgenesis, hg.contracts.of_meta hgenesis.touched⟩

/-- An address that is not of the chain has no admin. -/
theorem proper (hg : Governed util h) {a : Address} {o : ContractOffice} {admin : Admin}
    (hadmin : (o.seat util a).kind.admin.get h.context = .ok (some admin)) :
    a.bytes.length = util.addressLength := by
  by_contra hne
  rw [ContractOffice.kind_admin, StorageMap.get_entry, (hg.contracts.nobody a hne).1.1] at hadmin
  cases hadmin

/-- There is room for the id after the next one. -/
theorem nextId_lt {C V : Type} [ContextT C] {s : Seat C V} {entries : List (Ballot.Entry Address V)}
    {c : C} (hkeeps : s.Keeps entries c) (hlt : (Ballot.proposals entries).length + 2 < 2 ^ 32) :
    s.nextId c + 1 < 2 ^ 32 := by
  obtain ⟨pending, -, hkept, -⟩ := hkeeps.pending
  rw [← hkept.length_proposals]
  exact hlt

theorem propose (hg : Governed util h) {o : Office} {value : o.Value} {x : Address}
    (hsender : ValidAddress x) (htyped : o.Typed value)
    (hlt : (Ballot.proposals (h.log o)).length + 2 < 2 ^ 32)
    (hcall : o.update util h.context (some x) value = .ok c') :
    Governed util ⟨c', h.record util (some x) (.propose o value)⟩ ∧
      ∃ a, o.admin util h.context = .ok (some a) ∧
        o.Counted util h.context c' a (o.nextId util h.context) (o.proposed value)
          (insert x (Ballot.voters (h.log o) (o.nextId util h.context))) := by
  cases o with
  | consensus o =>
      obtain ⟨hstaffed, hkeeps⟩ := hg.councils o
      have hcall' := (o.update_eq h.context (some x) value).symm.trans hcall
      have htouched := o.sound.touched_update hcall'
      obtain ⟨hstaffed', hkeeps', a, ha, hcounted⟩ := hkeeps.propose o.sound hstaffed
        (o.valid_proposed htyped) hsender (nextId_lt hkeeps hlt) hcall'
      exact ⟨⟨hg.councils.written htouched hstaffed' hkeeps',
        (hg.contracts.of_meta htouched).update_consensus o _⟩, a, ha, hcounted⟩
  | contract o a =>
      have hcall' := (o.update_eq util a h.context (some x) value).symm.trans hcall
      obtain ⟨-, admin, -, -, -, hadmin, -⟩ := Kind.update_eq_ok _ _ hcall'
      have ha := hg.proper hadmin
      rw [ContractOffice.kind_admin, StorageMap.get_entry] at hadmin
      obtain ⟨hstaffed, hkeeps⟩ := hg.contracts.kept a ha o
      have hsound := o.sound a util
      have htouched := hsound.touched_update hcall'
      obtain ⟨hstaffed', hkeeps', admin', ha', hcounted⟩ := hkeeps.propose hsound hstaffed
        (o.valid_proposed util a htyped) hsender (nextId_lt hkeeps hlt) hcall'
      exact ⟨⟨(hg.councils.of_payload htouched).update_contract o a _,
        hg.contracts.voted ha hadmin htouched hstaffed' hkeeps'⟩, admin', ha', hcounted⟩

theorem vote (hg : Governed util h) {o : Office} {id : Nat} {x : Address}
    (hsender : ValidAddress x)
    (hfits : ∀ p, o.pending util h.context = .ok (some p) → p.vote.length + 1 < 2 ^ 32)
    (hcall : o.updateVote util h.context (some x) id = .ok c') :
    Governed util ⟨c', h.record util (some x) (.vote o id)⟩ ∧
      ∃ a value, o.admin util h.context = .ok (some a) ∧
        (id, value) ∈ Ballot.proposals (h.log o) ∧
        o.Counted util h.context c' a id value (insert x (Ballot.voters (h.log o) id)) := by
  cases o with
  | consensus o =>
      obtain ⟨hstaffed, hkeeps⟩ := hg.councils o
      have hcall' := (o.updateVote_eq h.context (some x) id).symm.trans hcall
      have htouched := o.sound.touched_updateVote hcall'
      obtain ⟨hstaffed', hkeeps', hcounted⟩ :=
        hkeeps.vote o.sound hstaffed hsender hfits hcall'
      exact ⟨⟨hg.councils.written htouched hstaffed' hkeeps',
        (hg.contracts.of_meta htouched).update_consensus o _⟩, hcounted⟩
  | contract o a =>
      have hcall' := (o.updateVote_eq util a h.context (some x) id).symm.trans hcall
      obtain ⟨-, admin, -, -, hadmin, -⟩ := Kind.updateVote_eq_ok _ _ hcall'
      have ha := hg.proper hadmin
      rw [ContractOffice.kind_admin, StorageMap.get_entry] at hadmin
      obtain ⟨hstaffed, hkeeps⟩ := hg.contracts.kept a ha o
      have hsound := o.sound a util
      have htouched := hsound.touched_updateVote hcall'
      obtain ⟨hstaffed', hkeeps', hcounted⟩ :=
        hkeeps.vote hsound hstaffed hsender hfits hcall'
      exact ⟨⟨(hg.councils.of_payload htouched).update_contract o a _,
        hg.contracts.voted ha hadmin htouched hstaffed' hkeeps'⟩, hcounted⟩

end Governed

/-! ## Runs -/

section Runs

variable {lib : Library} {c c' : Context} {sender : Option Address}

/-- A contract that was created has been stored and then run. -/
theorem create_eq_ok {params : Library.CreateParams}
    (h : committed (lib.create c sender params) = .ok c') :
    ∃ x txHash, sender = some x ∧ c.callEnv.txHash = some txHash ∧
      Touched (Contract.vmKeys lib.util)
        (lib.store c x (lib.contractAddress txHash) params.code) c' := by
  unfold Library.create at h
  split at h
  case h_1 => cases h
  case h_2 x =>
    split at h
    case h_1 => cases h
    case h_2 txHash htxHash =>
      have htouched : Touched _ (lib.store c x (lib.contractAddress txHash) params.code) _ :=
        lib.touched_innerVmExecute x (lib.contractAddress txHash) params.code .init
          params.initMethod params.initParams params.initPayValue
      simp only at h
      split at h
      case h_1 hexec => cases h
      case h_2 hexec =>
        cases h
        rw [hexec] at htouched
        exact ⟨x, txHash, rfl, htxHash, htouched⟩

/-- An execution writes contract data and balances. -/
theorem touched_execute {params : Library.ExecuteParams}
    (h : committed (lib.execute c sender params) = .ok c') :
    Touched (Contract.vmKeys lib.util) c c' := by
  unfold Library.execute at h
  split at h
  case h_1 => cases h
  case h_2 x =>
    split at h
    case h_1 => cases h
    case h_2 => cases h
    case h_3 =>
      split at h
      case h_1 => cases h
      case h_2 => cases h
      case h_3 => cases h
      case h_4 code _ _ =>
        rw [← (committed_eq_ok h).1]
        exact lib.touched_innerVmExecute x params.contractAddress code .call params.method
          params.params params.payValue

/-- The keys of the limits. -/
theorem touched_contractInit {params : Contract.InitParams}
    (h : Contract.init c params = .ok c') :
    Touched {key | ∃ f : Keys.LimitField, key = f.key} c c' := by
  unfold Contract.init at h
  split at h
  case isTrue hnumber => cases h
  case isFalse hnumber =>
    have hkey : ∀ f : Keys.LimitField, f.key ∈ {key | ∃ f : Keys.LimitField, key = f.key} :=
      fun f => ⟨f, rfl⟩
    cases h
    exact (((((Touched.refl.set (hkey .maxStackHeight) _).set (hkey .initialMemoryPages) _).set
      (hkey .maxMemoryPages) _).set (hkey .maxShareValueLen) _).set (hkey .maxShareSize) _).set
        (hkey .maxNestDepth) _

variable {h : History}

/-- A call keeps what is governed. -/
theorem Governed.call (hlength : ∀ data, (lib.util.address data).bytes.length = lib.util.addressLength)
    (hg : Governed lib.util h) {call : Invocation} (hdomain : Domain h sender call)
    (hregular : Regular lib.util h call) (hexec : call.exec lib h.context sender = .ok c') :
    Governed lib.util ⟨c', h.record lib.util sender call⟩ := by
  obtain ⟨hsender, hvalues⟩ := hdomain
  cases call with
  | hotstuffInit params =>
      have hgood : GoodAdmin ⟨params.admin.1, params.admin.2⟩ := ⟨hvalues.1, hregular, hvalues.2⟩
      exact hg.genesis hgood (HotstuffModule.genesis_of_init hgood hexec)
  | raftInit params =>
      have hgood : GoodAdmin ⟨params.admin.1, params.admin.2⟩ := ⟨hvalues.1, hregular, hvalues.2⟩
      exact hg.genesis hgood (RaftModule.genesis_of_init hgood hexec)
  | poaInit params =>
      have hgood : GoodAdmin ⟨params.admin.1, params.admin.2⟩ := ⟨hvalues.1, hregular, hvalues.2⟩
      exact hg.genesis hgood (PoaModule.genesis_of_init hgood hexec)
  | contractInit params =>
      have htouched := touched_contractInit hexec
      refine ⟨hg.councils.of_payload htouched, hg.contracts.congr ?_⟩
      rintro a key hkey
      apply htouched.payloadGet_eq
      rintro ⟨f, hf⟩
      exact ContractOffice.entryKeys_notMem_limits hkey f hf
  | create params =>
      obtain ⟨x, txHash, rfl, -, htouched⟩ := create_eq_ok hexec
      have hstored := ContractOffice.touched_store lib h.context (lib.contractAddress txHash) x
        params.code
      exact ⟨(hg.councils.of_payload hstored).of_payload htouched,
        (hg.contracts.created lib (hlength _) (hsender x rfl) params.code).touched_vmKeys htouched⟩
  | execute params =>
      have htouched := touched_execute hexec
      exact ⟨hg.councils.of_payload htouched, hg.contracts.touched_vmKeys htouched⟩
  | propose o value =>
      cases sender with
      | none => cases o with
        | consensus o =>
            have hnone := (o.update_eq h.context none value).symm.trans hexec
            cases hnone
        | contract o a =>
            have hnone := (o.update_eq lib.util a h.context none value).symm.trans hexec
            cases hnone
      | some x => exact (hg.propose (hsender x rfl) hvalues.1 hvalues.2 hexec).1
  | vote o id =>
      cases sender with
      | none => cases o with
        | consensus o =>
            have hnone := (o.updateVote_eq h.context none id).symm.trans hexec
            cases hnone
        | contract o a =>
            have hnone := (o.updateVote_eq lib.util a h.context none id).symm.trans hexec
            cases hnone
      | some x => exact (hg.vote (hsender x rfl) hregular hexec).1

/-- Every run is governed. -/
theorem Run.governed (hlength : ∀ data, (lib.util.address data).bytes.length = lib.util.addressLength)
    (hrun : Run lib (fun h sender call => Domain h sender call ∧ Regular lib.util h call) h) :
    Governed lib.util h := by
  induction hrun with
  | start env => exact .start lib.util env
  | resume hrun hdata ih => exact ih.resume hdata
  | call hrun hcall hexec ih => exact ih.call hlength hcall.1 hcall.2 hexec

end Runs

end Finastate.Governance
