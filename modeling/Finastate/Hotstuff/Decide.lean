import Finastate.Hotstuff.Slot

/-!
# Decide messages

A proposal that is verified takes the place of the block that is kept for the
commit, and a decide message for any stored proposal takes the kept block out.
So a decide message commits a stored proposal if and only if the kept block is
still the one of that proposal, and events that are calm keep it.
-/

namespace Finastate.Hotstuff

open Verifier (verifyProposal)

/-! ## Calm events -/

namespace Stream

/-- The consensus messages that the event hands to the role. -/
def Handles (s : Stream) (event : Event) (message : ConsensusMessage) : Prop :=
  event = .internal ∧
    ((∃ peerId, s.internal.head? = some (.consensusMessage message peerId)) ∨
      ∃ address peerId, s.internal.head? = some (.validatorRegistered address peerId) ∧
        message ∈ (AssocMap.get? s.pendingConsensusMessages peerId).getD [])

/-- The node goes on as it is and does not lead; no proposal of another block is
verified, and no decide message names another stored proposal. -/
structure Calm (support : Support) (params : CommitBlockParams) (oracle : Oracle) (s : Stream)
    (event : Event) : Prop where
  running : event ≠ .restart
  follows : s.state ≠ .leader
  stays : ∀ s', s.entersView support oracle event = some s' → s'.computeLeader ≠ .ok s'.address
  proposal : ∀ peerId res proposal built,
    event = .message peerId (some (.requestProposalRes res)) → res.proposal = some proposal →
      verifyProposal support s.storage.chain oracle.executedNumber proposal = .ok built →
        SameBlock built params
  decides : ∀ message, s.Handles event message → ∀ other, s.Names support message other →
    other.blockHash = params.blockHash

def CalmStep (support : Support) (params : CommitBlockParams) (s s' : Stream) : Prop :=
  ∃ oracle event, s.Calm support params oracle event ∧ s' = s.step support oracle event

/-- The chain has grown, or the block is kept still. -/
def Retains (params : CommitBlockParams) (s s' : Stream) : Prop :=
  (s'.Keeps params ∧ s'.storage.chain = s.storage.chain) ∨
    s.storage.chain.length < s'.storage.chain.length

section Calm

variable {support : Support} {oracle : Oracle} {s s' : Stream} {proposal : Proposal}
  {params : CommitBlockParams} {executedNumber : BlockNumber}

theorem retains_of_slot (hkeeps : s.Keeps params) (h : s'.slot = s.slot) : Retains params s s' :=
  Or.inl ⟨(keeps_of_slot h).2 hkeeps, congrArg Slot.chain h⟩

/-! ### Consensus messages -/

theorem length_le_decided (support : Support) (s : Stream) (message : ConsensusMessage) (address : Address) :
    s.storage.chain.length ≤ (s.decided support message address).storage.chain.length := by
  have hslot (h : (s.decided support message address).slot = s.slot) :
      s.storage.chain.length ≤ (s.decided support message address).storage.chain.length := by
    have hchain : (s.decided support message address).storage.chain = s.storage.chain :=
      congrArg Slot.chain h
    rw [hchain]
  by_cases htype : message.messageType = .decide
  · by_cases hnames : ∃ other, s.Names support message other
    · obtain ⟨other, hother⟩ := hnames
      obtain ⟨qc, -, ⟨-, hsame⟩ | ⟨kept, -, -, ⟨-, hcommit⟩ | ⟨hsame, -⟩⟩⟩ :=
        hother.decided_cases address
      · exact hslot hsame
      · rw [(Support.commitBlock_eq_ok hcommit).1]
        exact Nat.le_succ _
      · rw [hsame]
    · exact hslot (slot_decided_of_not_names htype (not_exists.1 hnames) address)
  · exact hslot (ReplicaState.slot_onValidatorConsensusMessage s htype address)

/-- A message that names no other proposal leaves the slot alone, or commits the
kept block. -/
theorem decided_cases
    (hverified : verifyProposal support s.storage.chain executedNumber proposal = .ok params)
    (hkeeps : s.Keeps params) {message : ConsensusMessage}
    (hnames : ∀ other, s.Names support message other → other.blockHash = params.blockHash)
    (address : Address) :
    (s.decided support message address).slot = s.slot ∨
      s.storage.chain.length < (s.decided support message address).storage.chain.length := by
  by_cases htype : message.messageType = .decide
  · by_cases hother : ∃ other, s.Names support message other
    · obtain ⟨other, hother⟩ := hother
      obtain ⟨qc, -, hcases⟩ := hother.decided_cases address
      obtain ⟨kept, hkept, hsame⟩ := hkeeps
      have hcommit := commitBlock_of_verifyProposal hverified hsame qc
      have hhash := hsame.1.trans (hnames other hother).symm
      rcases hcases with ⟨hnone, -⟩ | ⟨kept', hkept', -, ⟨-, hcommit'⟩ | ⟨-, herror⟩⟩
      · exact absurd (hnone.symm.trans hkept) (Option.some_ne_none kept).symm
      · right
        rw [(Support.commitBlock_eq_ok hcommit').1]
        exact Nat.lt_succ_self _
      · obtain rfl : kept = kept' := Option.some.inj (hkept.symm.trans hkept')
        obtain ⟨e, he⟩ := herror hhash
        exact absurd (he.symm.trans hcommit) nofun
    · exact Or.inl (slot_decided_of_not_names htype (not_exists.1 hother) address)
  · exact Or.inl (ReplicaState.slot_onValidatorConsensusMessage s htype address)

theorem names_of_slot (hslot : s'.slot = s.slot) (hstill : s'.still = s.still)
    {message : ConsensusMessage} {other : Proposal} :
    s'.Names support message other ↔ s.Names support message other := by
  have hproposal : s'.storage.db.proposal = s.storage.db.proposal := congrArg Slot.proposal hslot
  have hview : s'.storage.view = s.storage.view := congrArg Frame.view hstill
  have hauthorities : s'.authorities = s.authorities := congrArg (fun f => f.authorities) hstill
  simp only [Names, hview, hauthorities, Storage.getProposal, hproposal]

theorem length_le_replay (messages : List ConsensusMessage) (address : Address) (s : Stream) :
    s.storage.chain.length ≤ (replay (fun s message =>
      ReplicaState.onValidatorConsensusMessage support s message address) messages s).1.storage.chain.length := by
  induction messages generalizing s with
  | nil => exact le_refl _
  | cons message messages ih =>
      have hfirst := length_le_decided support s message address
      rw [replay, andThen]
      split
      · exact hfirst.trans (ih _)
      · exact hfirst

theorem replay_cases
    (hverified : verifyProposal support s.storage.chain executedNumber proposal = .ok params)
    (hkeeps : s.Keeps params) {messages : List ConsensusMessage}
    (hnames : ∀ message ∈ messages, ∀ other, s.Names support message other →
      other.blockHash = params.blockHash) (address : Address) :
    (replay (fun s message => ReplicaState.onValidatorConsensusMessage support s message address)
      messages s).1.slot = s.slot ∨
      s.storage.chain.length < (replay (fun s message =>
        ReplicaState.onValidatorConsensusMessage support s message address) messages s).1.storage.chain.length := by
  induction messages generalizing s with
  | nil => exact Or.inl rfl
  | cons message messages ih =>
      have hstill : (s.decided support message address).still = s.still :=
        (ReplicaState.dispatched s message address).still
      rw [replay, andThen]
      rcases decided_cases hverified hkeeps (hnames message List.mem_cons_self) address with
        hslot | hgrown
      · split
        · have hchain : (s.decided support message address).storage.chain = s.storage.chain :=
            congrArg Slot.chain hslot
          have hrest : ∀ message' ∈ messages, ∀ other,
              (s.decided support message address).Names support message' other →
                other.blockHash = params.blockHash := fun message' hmem other hother =>
            hnames message' (List.mem_cons_of_mem _ hmem) other
              ((names_of_slot hslot hstill).1 hother)
          have htail := ih (hchain ▸ hverified) ((keeps_of_slot hslot).2 hkeeps) hrest
          rw [hslot, hchain] at htail
          exact htail
        · exact Or.inl hslot
      · split
        · exact Or.inr (hgrown.trans_le (length_le_replay messages address _))
        · exact Or.inr hgrown

theorem slot_replay {handler : Stream → ConsensusMessage → Stream × Outcome}
    (h : ∀ s message, (handler s message).1.slot = s.slot) (messages : List ConsensusMessage)
    (s : Stream) : (replay handler messages s).1.slot = s.slot := by
  induction messages generalizing s with
  | nil => rfl
  | cons message messages ih =>
      rw [replay, slot_andThen ih]
      exact h s message

end Calm

end Stream

/-! ### Steps -/

namespace Stream

section Step

variable {support : Support} {oracle : Oracle} {s s' : Stream} {proposal : Proposal}
  {params : CommitBlockParams} {executedNumber : BlockNumber}

theorem retains_of_cases (hkeeps : s.Keeps params)
    (h : s'.slot = s.slot ∨ s.storage.chain.length < s'.storage.chain.length) :
    Retains params s s' :=
  h.elim (retains_of_slot hkeeps) Or.inr

theorem retains_logged {r : Stream × Outcome} (h : Retains params s r.1) :
    Retains params s (logged r) := by
  unfold logged
  split
  · exact h
  · exact h

/-- The messages that a replica has kept for a peer. -/
theorem replayPending_cases
    (hverified : verifyProposal support s.storage.chain executedNumber proposal = .ok params)
    (hkeeps : s.Keeps params) (peerId : PeerId)
    (hnames : ∀ message ∈ (AssocMap.get? s.pendingConsensusMessages peerId).getD [], ∀ other,
      s.Names support message other → other.blockHash = params.blockHash) (address : Address) :
    (s.replayPending peerId fun s message =>
        ReplicaState.onValidatorConsensusMessage support s message address).1.slot = s.slot ∨
      s.storage.chain.length < (s.replayPending peerId fun s message =>
        ReplicaState.onValidatorConsensusMessage support s message address).1.storage.chain.length := by
  unfold replayPending
  cases hget : AssocMap.get? s.pendingConsensusMessages peerId with
  | none => exact Or.inl rfl
  | some messages =>
      rw [hget] at hnames
      exact replay_cases
        (s := { s with
          pendingConsensusMessages := AssocMap.erase s.pendingConsensusMessages peerId })
        hverified hkeeps hnames address

theorem retains_onValidatorRegistered
    (hverified : verifyProposal support s.storage.chain executedNumber proposal = .ok params)
    (hkeeps : s.Keeps params) (hfollows : s.state ≠ .leader) {address : Address} {peerId : PeerId}
    (hnames : ∀ message ∈ (AssocMap.get? s.pendingConsensusMessages peerId).getD [], ∀ other,
      s.Names support message other → other.blockHash = params.blockHash) :
    Retains params s (s.onValidatorRegistered support oracle address peerId).1 := by
  refine retains_of_cases hkeeps ?_
  unfold onValidatorRegistered
  cases hstate : s.state with
  | leader => exact absurd hstate hfollows
  | observer =>
      left
      simp only [replayPending]
      split
      · rfl
      · exact slot_replay
          (fun s message => ObserverState.slot_onValidatorConsensusMessage s message address) _ _
  | replica =>
      simp only
      -- the new view message, if there is one, changes neither the slot nor the pending messages
      have hsent : ∀ r : Stream × Outcome, r.1.slot = s.slot → r.1.still = s.still →
          r.1.pendingConsensusMessages = s.pendingConsensusMessages →
          (andThen r fun s => s.replayPending peerId fun s message =>
            ReplicaState.onValidatorConsensusMessage support s message address).1.slot = s.slot ∨
          s.storage.chain.length < (andThen r fun s => s.replayPending peerId fun s message =>
            ReplicaState.onValidatorConsensusMessage support s message address).1.storage.chain.length := by
        intro r hslot hstill hpending
        unfold andThen
        split
        · have hchain : r.1.storage.chain = s.storage.chain := congrArg Slot.chain hslot
          have hrest := replayPending_cases (s := r.1) (hchain ▸ hverified)
            ((keeps_of_slot hslot).2 hkeeps) peerId
            (fun message hmem other hother => hnames message (hpending ▸ hmem) other
              ((names_of_slot hslot hstill).1 hother)) address
          rw [hslot, hchain] at hrest
          exact hrest
        · exact Or.inl hslot
      split
      · exact hsent _ (ReplicaState.slot_sendNewView s)
          (still_of_frame (ReplicaState.frame_sendNewView s)) (pending_sendNewView s)
      · exact hsent _ rfl rfl rfl

theorem retains_onValidatorConsensusMessage
    (hverified : verifyProposal support s.storage.chain executedNumber proposal = .ok params)
    (hkeeps : s.Keeps params) (hfollows : s.state ≠ .leader) {message : ConsensusMessage}
    {address : Address} (hnames : ∀ other, s.Names support message other →
      other.blockHash = params.blockHash) :
    Retains params s (s.onValidatorConsensusMessage support oracle message address).1 := by
  unfold onValidatorConsensusMessage
  split
  · next hstate => exact absurd hstate hfollows
  · exact retains_of_cases hkeeps (decided_cases hverified hkeeps hnames address)
  · exact retains_of_slot hkeeps (ObserverState.slot_onValidatorConsensusMessage s message address)

theorem retains_internal
    (hverified : verifyProposal support s.storage.chain executedNumber proposal = .ok params)
    (hkeeps : s.Keeps params) (hcalm : s.Calm support params oracle .internal) :
    Retains params s (s.handle support oracle .internal) := by
  simp only [handle]
  cases hinternal : s.internal with
  | nil => exact retains_of_slot hkeeps rfl
  | cons internalMessage rest =>
      refine retains_logged ?_
      have hhead : s.internal.head? = some internalMessage := by rw [hinternal]; rfl
      cases internalMessage with
      | validatorRegistered address peerId =>
          exact retains_onValidatorRegistered (s := { s with internal := rest }) hverified hkeeps
            hcalm.follows fun message hmem other hother => hcalm.decides message
              ⟨rfl, Or.inr ⟨address, peerId, hhead, hmem⟩⟩ other hother
      | proposal address proposal =>
          simp only [onInternalMessage]
          split
          · next hstate => exact absurd hstate hcalm.follows
          · exact retains_of_slot hkeeps rfl
      | consensusMessage message peerId =>
          simp only [onInternalMessage]
          unfold onConsensusMessage
          split
          · split
            · exact retains_onValidatorConsensusMessage (s := { s with internal := rest }) hverified
                hkeeps hcalm.follows fun other hother => hcalm.decides message
                  ⟨rfl, Or.inl ⟨peerId, hhead⟩⟩ other hother
            · exact retains_of_slot hkeeps rfl
          · exact retains_of_slot hkeeps rfl

theorem retains_onNetworkMessage (hkeeps : s.Keeps params) {peerId : PeerId}
    {message : HotStuffMessage} (hcalm : s.Calm support params oracle (.message peerId (some message))) :
    Retains params s (s.onNetworkMessage support oracle peerId message).1 := by
  cases message with
  | registerValidatorReq req =>
      exact retains_of_slot hkeeps (slot_onReqRegisterValidator s peerId req)
  | registerValidatorRes res => exact retains_of_slot hkeeps rfl
  | requestProposalReq req =>
      simp only [onNetworkMessage]
      split
      · exact retains_of_slot hkeeps (slot_onReqRequestProposal s peerId req)
      · exact retains_of_slot hkeeps rfl
  | requestProposalRes res =>
      simp only [onNetworkMessage]
      split
      · unfold onResRequestProposal
        cases hres : res.proposal with
        | none => exact retains_of_slot hkeeps rfl
        | some proposal =>
            simp only [onProposal]
            cases hverify : verifyProposal support s.storage.chain oracle.executedNumber proposal with
            | error e => cases e <;> exact retains_of_slot hkeeps rfl
            | ok built =>
                exact Or.inl ⟨⟨built, rfl, hcalm.proposal peerId res proposal built rfl hres hverify⟩,
                  rfl⟩
      · exact retains_of_slot hkeeps rfl
  | consensusMessage message => exact retains_of_slot hkeeps rfl
  | timeoutMessage message =>
      simp only [onNetworkMessage]
      split
      · exact retains_of_slot hkeeps (slot_onTimeoutMessage s message _)
      · exact retains_of_slot hkeeps rfl

theorem retains_onBlockCommitted (hkeeps : s.Keeps params) :
    Retains params s (s.onBlockCommitted support).1 := by
  unfold onBlockCommitted
  cases hrefresh : Storage.refresh support s.storage.chain s.storage.db with
  | none => exact retains_of_slot hkeeps rfl
  | some storage =>
      obtain ⟨genesisQc, hspec⟩ := Storage.refreshed_of_refresh hrefresh
      exact Or.inl ⟨hkeeps, hspec.chain⟩

theorem retains_handle
    (hverified : verifyProposal support s.storage.chain executedNumber proposal = .ok params)
    (hkeeps : s.Keeps params) {event : Event} (hcalm : s.Calm support params oracle event) :
    Retains params s (s.handle support oracle event) := by
  cases event with
  | timeout =>
      simp only [handle]
      split
      · exact retains_of_slot hkeeps rfl
      · exact retains_of_slot hkeeps ((slot_fatal _).trans (slot_onTimeout s))
  | schedule timestamp =>
      simp only [handle]
      split
      · next hstate => exact absurd hstate hcalm.follows
      · exact retains_of_slot hkeeps rfl
  | internal => exact retains_internal hverified hkeeps hcalm
  | «open» peerId localNonce remoteNonce =>
      exact retains_of_slot hkeeps (slot_registerValidator _ peerId)
  | close peerId => exact retains_of_slot hkeeps rfl
  | message peerId message =>
      cases message with
      | none => exact retains_of_slot hkeeps rfl
      | some message => exact retains_logged (retains_onNetworkMessage hkeeps hcalm)
  | blockCommitted =>
      simp only [handle]
      split
      · exact retains_of_slot hkeeps rfl
      · exact retains_logged (retains_onBlockCommitted (s := { s with notices := s.notices - 1 }) hkeeps)
  | restart => exact retains_of_slot hkeeps rfl
  | sync block => exact retains_of_slot hkeeps rfl

/-- A role that does not lead starts with a message at most. -/
theorem slot_runView (hstays : s.computeLeader ≠ .ok s.address) :
    (s.runView support oracle).1.slot = s.slot := by
  unfold runView
  cases hleader : s.computeLeader with
  | error e => rfl
  | ok leader =>
      have hother : s.address ≠ leader := fun h => hstays (hleader.trans (congrArg Except.ok h.symm))
      simp only [if_neg hother]
      split
      · next heq => split at heq <;> cases heq
      · exact ReplicaState.slot_sendNewView _
      · rfl

theorem retains_syncBlock (hkeeps : s.Keeps params) (block : ConfirmedBlock) :
    Retains params s (s.syncBlock support block) := by
  unfold syncBlock
  split
  · next hcommit =>
    right
    simp only [setStorage, note, (Support.commitBlock_eq_ok hcommit).1]
    exact Nat.lt_succ_self _
  · exact retains_of_slot hkeeps rfl

theorem Retains.trans_slot (h : Retains params s s') {s'' : Stream} (hslot : s''.slot = s'.slot) :
    Retains params s s'' := by
  have hchain : s''.storage.chain = s'.storage.chain := congrArg Slot.chain hslot
  rcases h with ⟨hkeeps, hsame⟩ | hgrown
  · exact Or.inl ⟨(keeps_of_slot hslot).2 hkeeps, hchain.trans hsame⟩
  · right
    rw [hchain]
    exact hgrown

/-- A calm event keeps the block, or the chain grows. -/
theorem retains_step
    (hverified : verifyProposal support s.storage.chain executedNumber proposal = .ok params)
    (hkeeps : s.Keeps params) {event : Event} (hcalm : s.Calm support params oracle event) :
    Retains params s (s.step support oracle event) := by
  rcases step_cases support oracle s event with
    ⟨rfl, -⟩ | ⟨block, rfl, hstep⟩ | ⟨-, hstep⟩ | ⟨-, -, hstep⟩ | ⟨-, henters, hstep⟩
  · exact absurd rfl hcalm.running
  · rw [hstep]
    exact retains_syncBlock hkeeps block
  · rw [hstep]
    exact retains_of_slot hkeeps rfl
  · rw [hstep]
    exact retains_handle hverified hkeeps hcalm
  · rw [hstep]
    refine (retains_handle hverified hkeeps hcalm).trans_slot ?_
    rw [slot_fatal, slot_runView (hcalm.stays _ henters)]

end Step

end Stream

/-! ## Runs -/

theorem Act.length_chain_le {support : Support} {event : Event} {c c' : Core}
    (h : Act support event c c') : c.storage.chain.length ≤ c'.storage.chain.length := by
  have hcommit : ∀ {chain chain' : Chain} {params : CommitBlockParams} {qc : QC},
      support.commitBlock chain params qc = .ok chain' → chain.length ≤ chain'.length := by
    intro chain chain' params qc hcommit
    rw [(Support.commitBlock_eq_ok hcommit).1]
    exact Nat.le_succ _
  have hrefresh : ∀ {storage : Storage},
      Storage.refresh support c.storage.chain c.storage.db = some storage →
        c.storage.chain.length ≤ storage.chain.length := by
    intro storage hrefresh
    obtain ⟨genesisQc, hspec⟩ := Storage.refreshed_of_refresh hrefresh
    rw [hspec.chain]
  have hcommon : ∀ {c' : Core}, CommonAct support c c' →
      c.storage.chain.length ≤ c'.storage.chain.length := by
    intro c' h
    cases h <;> exact le_refl _
  cases h with
  | common c' h => exact hcommon h
  | leader c' state view h =>
      cases h with
      | common c' h => exact hcommon h
      | decide order qc chain collected decides =>
          obtain ⟨proposal, params, -, -, -, hchain⟩ := decides
          exact hcommit hchain
      | _ => exact le_refl _
  | replica c' state h =>
      cases h with
      | common c' h => exact hcommon h
      | vote message address leaderAddress t view node justify acting received current casts
          leader => cases t <;> exact le_refl _
      | decide message address qc chain acting received type justify valid decides =>
          obtain ⟨proposal, params, -, -, -, hchain⟩ := decides
          exact hcommit hchain
  | newTimeout message address first second acting type signed view attached alone =>
      cases first <;> cases second <;> exact le_refl _
  | refresh storage h => exact hrefresh h
  | restart storage h => exact hrefresh h
  | sync block params chain h hash header commits => exact hcommit commits
  | _ => exact le_refl _

theorem Run.length_chain_le {support : Support} {secretKey : SecretKey} {s : Stream}
    (h : Run support secretKey s) (oracle : Oracle) (event : Event) :
    s.storage.chain.length ≤ (s.step support oracle event).storage.chain.length := by
  obtain ⟨hwf, hrunning⟩ := h.wf_running
  obtain ⟨hacts, -⟩ := Stream.step_acts support oracle hwf hrunning event
  exact Acts.induction (P := fun c => s.storage.chain.length ≤ c.storage.chain.length)
    (fun hact _ hle => hle.trans hact.length_chain_le) hacts hwf (le_refl _)

/-- Through calm events the block is kept, until the chain grows. -/
theorem Run.retains_of_calm {support : Support} {secretKey : SecretKey} {s s' : Stream}
    {proposal : Proposal} {params : CommitBlockParams} (hrun : Run support secretKey s)
    (hcandidate : s.Candidate support proposal params) (hkeeps : s.Keeps params)
    (hcalm : Relation.ReflTransGen (Stream.CalmStep support params) s s') :
    Run support secretKey s' ∧ Stream.Retains params s s' := by
  obtain ⟨executedNumber, hverified⟩ := hcandidate.verified
  induction hcalm with
  | refl => exact ⟨hrun, Or.inl ⟨hkeeps, rfl⟩⟩
  | tail _ hlast ih =>
      obtain ⟨oracle, event, hevent, rfl⟩ := hlast
      obtain ⟨hrun', hretains⟩ := ih
      refine ⟨hrun'.step oracle event, ?_⟩
      rcases hretains with ⟨hkeeps', hchain⟩ | hgrown
      · have hstep := Stream.retains_step (hchain ▸ hverified) hkeeps' hevent
        rw [Stream.Retains, hchain] at hstep
        exact hstep
      · exact Or.inr (hgrown.trans_le (hrun'.length_chain_le oracle event))

/-- A decide message for a verified proposal commits it if and only if the
replica keeps its block. A decide message that commits nothing leaves that so if
and only if it names no stored proposal, and calm events leave it so. -/
theorem decide_commits_iff {support : Support} {secretKey : SecretKey} {s : Stream}
    {proposal : Proposal} {params : CommitBlockParams} (hrun : Run support secretKey s)
    (hcandidate : s.Candidate support proposal params) :
    (∀ message address, s.Names support message proposal →
      (s.Commits support message address params ↔ s.Keeps params)) ∧
    (∀ message address, message.messageType = .decide →
      (s.decided support message address).storage.chain = s.storage.chain →
      ∀ message' address', (s.decided support message address).Names support message' proposal →
        ((s.decided support message address).Commits support message' address' params ↔
          s.Keeps params ∧ ∀ other, ¬ s.Names support message other)) ∧
    (s.Keeps params → ∀ s', Relation.ReflTransGen (Stream.CalmStep support params) s s' →
      ∀ params', s'.Candidate support proposal params' →
        ∀ message address, s'.Names support message proposal →
          s'.Commits support message address params') := by
  refine ⟨fun message address hnames => Stream.commits_iff hcandidate hnames address, ?_, ?_⟩
  · intro message address htype hchain message' address' hnames'
    have hcandidate' := hcandidate.decided htype hchain
    rw [Stream.commits_iff hcandidate' hnames' address']
    exact Stream.keeps_decided_iff htype address
  · intro hkeeps s' hcalm params' hcandidate' message address hnames
    obtain ⟨executedNumber, hverified⟩ := hcandidate.verified
    obtain ⟨executedNumber', hverified'⟩ := hcandidate'.verified
    rw [Stream.commits_iff hcandidate' hnames address]
    rcases (hrun.retains_of_calm hcandidate hkeeps hcalm).2 with ⟨hkeeps', hchain⟩ | hgrown
    · rw [hchain] at hverified'
      rw [Verifier.verifyProposal_unique hverified hverified']
      exact hkeeps'
    · have hlength := Verifier.length_of_verifyProposal hverified hverified'
      exact absurd hlength (Nat.ne_of_gt hgrown)

/-! ## Samples -/

namespace Sample

/-- The commit certificate of a proposal, signed by validators `1`, `2` and `3`. -/
def commitQcFor (view : Nat) (proposal : Proposal) : QC :=
  let node : Node := { parentHash := proposal.parentHash, blockHash := proposal.blockHash }
  { messageType := .commit
    view
    node
    leaderAddress := ⟨[1]⟩
    sig := signatures [1, 2, 3] (.vote .commit view (some node) ⟨[1]⟩) }

def decideFor (view : Nat) (proposal : Proposal) : ConsensusMessage where
  requestId := 0
  messageType := .decide
  view
  node := none
  justify := some (commitQcFor view proposal)
  sig := none

/-- Validator `3` sends a proposal. -/
def offer (proposal : Proposal) : List Event :=
  [.message [3] (some (.requestProposalRes { requestId := 0, proposal := some proposal })),
    .internal]

def built (header : Header) : CommitBlockParams where
  blockHash := ⟨encodeHeader header⟩
  header := header
  body := { metaTxs := [], payloadTxs := [] }
  proof := { name := "", data := [] }

/-- The block `2` on top of the proposal of time `1`. -/
def nextHeader : Header :=
  { header 1 with
    number := 2
    parentHash := (proposal 1).blockHash
    payloadExecutionGap := 2 }

def nextProposal : Proposal :=
  { proposal 1 with
    number := 2
    parentHash := (proposal 1).blockHash
    blockHash := ⟨encodeHeader nextHeader⟩ }

/-- Validator `0` is sent one proposal. -/
def offered : Stream := validator 4 0 (register 3 ++ offer (proposal 1))

/-- Validator `0` is sent two proposals of block `1`. -/
def offeredTwo : Stream := validator 4 0 (register 3 ++ offer (proposal 1) ++ offer (proposal 2))

/-- Validator `0` commits block `1`, verifies block `2`, and is sent the decide
message for block `1` again before it hears of the commit. -/
def decidedTwice : Stream :=
  validator 4 0 (register 3 ++ offer (proposal 1) ++ deliver 3 (decideFor 1 (proposal 1)) ++
    offer nextProposal ++ deliver 3 (decideFor 1 (proposal 1)) ++ [.blockCommitted])

end Sample

theorem decide_commits_offered :
    Sample.offered.Commits (Sample.support 4) (Sample.decideFor 1 (Sample.proposal 1)) ⟨[3]⟩
      (Sample.built (Sample.header 1)) := by
  have hcandidate : Sample.offered.Candidate (Sample.support 4) (Sample.proposal 1)
      (Sample.built (Sample.header 1)) := ⟨by decide +kernel, 0, by decide +kernel⟩
  have hnames : Sample.offered.Names (Sample.support 4) (Sample.decideFor 1 (Sample.proposal 1))
      (Sample.proposal 1) :=
    ⟨by decide +kernel, by decide +kernel, Sample.commitQcFor 1 (Sample.proposal 1), rfl,
      by decide +kernel, by decide +kernel⟩
  have hrun : Run (Sample.support 4) ⟨[0]⟩ Sample.offered := (Run.start Sample.oracle).steps _ _
  refine ((decide_commits_iff hrun hcandidate).1 _ _ hnames).2
    ⟨Sample.built (Sample.header 1), by decide +kernel, rfl, rfl⟩

/-- The second proposal takes the place of the first one, and the decide message
for the first is lost. And a decide message that comes twice takes out the next
block, whose own decide message is lost then. -/
theorem decide_not_commits :
    (Run (Sample.support 4) ⟨[0]⟩ Sample.offeredTwo ∧ Sample.offeredTwo.state = .replica ∧
      Sample.offeredTwo.Candidate (Sample.support 4) (Sample.proposal 1)
        (Sample.built (Sample.header 1)) ∧
      Sample.offeredTwo.Names (Sample.support 4) (Sample.decideFor 1 (Sample.proposal 1))
        (Sample.proposal 1) ∧
      ¬ Sample.offeredTwo.Commits (Sample.support 4) (Sample.decideFor 1 (Sample.proposal 1)) ⟨[3]⟩
        (Sample.built (Sample.header 1))) ∧
    (Run (Sample.support 4) ⟨[0]⟩ Sample.decidedTwice ∧ Sample.decidedTwice.state = .replica ∧
      Sample.decidedTwice.Candidate (Sample.support 4) Sample.nextProposal
        (Sample.built Sample.nextHeader) ∧
      Sample.decidedTwice.Names (Sample.support 4) (Sample.decideFor 2 Sample.nextProposal)
        Sample.nextProposal ∧
      ¬ Sample.decidedTwice.Commits (Sample.support 4) (Sample.decideFor 2 Sample.nextProposal)
        ⟨[3]⟩ (Sample.built Sample.nextHeader)) := by
  constructor
  · refine ⟨(Run.start Sample.oracle).steps _ _, by decide +kernel,
      ⟨by decide +kernel, 0, by decide +kernel⟩,
      ⟨by decide +kernel, by decide +kernel, Sample.commitQcFor 1 (Sample.proposal 1), rfl,
        by decide +kernel, by decide +kernel⟩, ?_⟩
    rintro ⟨qc, -, hchain⟩
    have hnone : (Sample.offeredTwo.decided (Sample.support 4)
        (Sample.decideFor 1 (Sample.proposal 1)) ⟨[3]⟩).storage.chain = [] := by decide +kernel
    rw [hnone] at hchain
    cases hchain
  · have hrun : Run (Sample.support 4) ⟨[0]⟩ Sample.decidedTwice := by
      unfold Sample.decidedTwice Sample.validator
      exact (Run.start Sample.oracle).steps Sample.oracle _
    refine ⟨hrun, by decide +kernel, ⟨by decide +kernel, 0, by decide +kernel⟩,
      ⟨by decide +kernel, by decide +kernel, Sample.commitQcFor 2 Sample.nextProposal, rfl,
        by decide +kernel, by decide +kernel⟩, ?_⟩
    rintro ⟨qc, -, hchain⟩
    have hsame : (Sample.decidedTwice.decided (Sample.support 4)
        (Sample.decideFor 2 Sample.nextProposal) ⟨[3]⟩).storage.chain =
          Sample.decidedTwice.storage.chain := by decide +kernel
    rw [hsame] at hchain
    exact List.cons_ne_self _ _ hchain.symm

end Finastate.Hotstuff
