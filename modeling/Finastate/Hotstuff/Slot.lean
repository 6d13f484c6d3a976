import Finastate.Hotstuff.Agreement
import Finastate.Hotstuff.Admission

/-!
# The block kept for the commit

A replica keeps one block, the one of the proposal it has verified last, and a
decide message takes it out. What a decide message does with it is said here
case by case, and that all other handlers leave it alone. The kept block, the
chain and the stored proposals together are the `Slot` of a stream.
-/

namespace Finastate.Hotstuff

open Verifier (verifyProposal)

/-- The same hash and the same header. -/
def SameBlock (kept params : CommitBlockParams) : Prop :=
  kept.blockHash = params.blockHash ∧ kept.header = params.header

namespace Stream

variable (support : Support)

/-- A proposal that is stored, and that passes verification on the chain as it
is: it extends the confirmed block and is not committed. -/
structure Candidate (s : Stream) (proposal : Proposal) (params : CommitBlockParams) : Prop where
  stored : s.storage.getProposal proposal.blockHash = some proposal
  verified : ∃ executedNumber,
    verifyProposal support s.storage.chain executedNumber proposal = .ok params

/-- The block that is kept for the commit. -/
def Keeps (s : Stream) (params : CommitBlockParams) : Prop :=
  ∃ kept, s.commitBlockParams = some kept ∧ SameBlock kept params

/-- A decide message of the current view with a valid commit certificate of a
stored proposal. -/
def Names (s : Stream) (message : ConsensusMessage) (proposal : Proposal) : Prop :=
  message.messageType = .decide ∧ message.view = s.storage.view ∧
    ∃ qc, message.justify = some qc ∧
      verifyQc support.basic qc (some .commit) s.authorities = .ok () ∧
      s.storage.getProposal qc.node.blockHash = some proposal

/-- The replica handles the message. -/
def decided (s : Stream) (message : ConsensusMessage) (address : Address) : Stream :=
  (ReplicaState.onValidatorConsensusMessage support s message address).1

/-- The message adds this block to the chain. -/
def Commits (s : Stream) (message : ConsensusMessage) (address : Address)
    (params : CommitBlockParams) : Prop :=
  ∃ qc, message.justify = some qc ∧
    (s.decided support message address).storage.chain =
      { blockHash := params.blockHash, header := params.header, commitQc := qc } ::
        s.storage.chain

end Stream

/-! ## Verified blocks -/

section Verified

variable {support : Support} {chain chain' : Chain} {executedNumber executedNumber' : BlockNumber}
  {proposal : Proposal} {params params' kept : CommitBlockParams}

/-- The block does not depend on what has been executed. -/
theorem Verifier.verifyProposal_body
    (h : verifyProposal support chain executedNumber proposal = .ok params) :
    ((Consensus.Verifier.verifyBody (support.verifierSupport chain 0) proposal.metaTxs
        proposal.payloadTxs).bind fun txs =>
      Consensus.Verifier.verifyHeader (support.verifierSupport chain 0) proposal.blockHash
        { number := proposal.number
          timestamp := proposal.timestamp
          metaTxs := txs.1
          payloadTxs := txs.2
          executionNumber := proposal.executionNumber }) = .ok params := by
  obtain ⟨_, _, h⟩ := Result.bind_eq_ok.1 h
  obtain ⟨_, _, h⟩ := Result.bind_eq_ok.1 h
  obtain ⟨_, _, h⟩ := Result.bind_eq_ok.1 h
  have hbody : Consensus.Verifier.verifyBody (support.verifierSupport chain 0) proposal.metaTxs
      proposal.payloadTxs = Consensus.Verifier.verifyBody
        (support.verifierSupport chain executedNumber) proposal.metaTxs proposal.payloadTxs := by
    apply Consensus.Verifier.verifyBody_congr
    · rfl
    · rfl
  rw [hbody]
  exact h

theorem Verifier.verifyProposal_unique
    (h : verifyProposal support chain executedNumber proposal = .ok params)
    (h' : verifyProposal support chain executedNumber' proposal = .ok params') :
    params' = params :=
  Except.ok.inj ((verifyProposal_body h').symm.trans (verifyProposal_body h))

theorem Verifier.getHeader_of_verifyProposal
    (h : verifyProposal support chain executedNumber proposal = .ok params) :
    support.getHeader chain proposal.blockHash = none := by
  obtain ⟨_, hrepeat, -⟩ := Result.bind_eq_ok.1 h
  exact Consensus.Verifier.verifyNotRepeat_eq_ok_iff.1 hrepeat

/-- The chain takes the block of a proposal that passes verification on it. -/
theorem commitBlock_of_verifyProposal
    (h : verifyProposal support chain executedNumber proposal = .ok params)
    (hsame : SameBlock kept params) (qc : QC) :
    support.commitBlock chain kept qc =
      .ok ({ blockHash := params.blockHash, header := params.header, commitQc := qc } :: chain) := by
  obtain ⟨hnumber, -, hhash, p, hp, hbuild⟩ := Verifier.verifyProposal_eq_ok h
  obtain ⟨-, hheader, hparent⟩ := Consensus.Support.buildBlock_eq_ok hbuild
  have hfresh : support.getHeader chain kept.blockHash = none := by
    rw [hsame.1, hhash]
    exact Verifier.getHeader_of_verifyProposal h
  have hplace : kept.header.number = chain.length + 1 ∧
      kept.header.parentHash = support.confirmedBlockHash chain := by
    rw [hsame.2, hheader, hp, hnumber]
    rw [hp, hnumber] at hparent
    exact ⟨rfl, (Option.some.inj ((support.getBlockHash_length chain).symm.trans hparent)).symm⟩
  rw [Support.commitBlock, hfresh, if_neg (by simp), if_pos hplace, hsame.1, hsame.2]

/-- A proposal is verified for one height. -/
theorem Verifier.length_of_verifyProposal
    (h : verifyProposal support chain executedNumber proposal = .ok params)
    (h' : verifyProposal support chain' executedNumber' proposal = .ok params') :
    chain'.length = chain.length := by
  have hnumber := (Verifier.verifyProposal_eq_ok h).1
  have hnumber' := (Verifier.verifyProposal_eq_ok h').1
  exact Nat.succ.inj (hnumber'.symm.trans hnumber)

end Verified

/-! ## What a decide message does -/

/-- The kept block, the chain and the stored proposals. -/
structure Slot where
  kept : Option CommitBlockParams
  chain : Chain
  proposal : List (Hash × Proposal)

namespace Stream

def slot (s : Stream) : Slot where
  kept := s.commitBlockParams
  chain := s.storage.chain
  proposal := s.storage.db.proposal

section Decide

variable {support : Support} {s : Stream} {message : ConsensusMessage} {proposal : Proposal}
  {params : CommitBlockParams}

/-- Without a kept block nothing happens. With one it is taken out, and it is
committed if it is the one of the proposal and the chain takes it. -/
theorem slot_decideBlock (support : Support) {qc : QC} (hget : s.storage.getProposal qc.node.blockHash = some proposal) :
    (s.commitBlockParams = none ∧ (s.decideBlock support qc).1 = s) ∨
    ∃ kept, s.commitBlockParams = some kept ∧
      (s.decideBlock support qc).1.commitBlockParams = none ∧
      ((kept.blockHash = proposal.blockHash ∧
          support.commitBlock s.storage.chain kept qc =
            .ok (s.decideBlock support qc).1.storage.chain) ∨
        (s.decideBlock support qc).1.storage.chain = s.storage.chain ∧
          (kept.blockHash = proposal.blockHash →
            ∃ e, support.commitBlock s.storage.chain kept qc = .error e)) := by
  unfold decideBlock
  rw [hget]
  cases hkept : s.commitBlockParams with
  | none => exact Or.inl ⟨rfl, rfl⟩
  | some kept =>
      refine Or.inr ⟨kept, rfl, ?_⟩
      by_cases hhash : kept.blockHash = proposal.blockHash
      · simp only [hhash, if_true]
        unfold onDecide
        cases hcommit : support.commitBlock s.storage.chain kept qc with
        | error e => exact ⟨rfl, Or.inr ⟨rfl, fun _ => ⟨e, rfl⟩⟩⟩
        | ok chain => exact ⟨rfl, Or.inl ⟨trivial, rfl⟩⟩
      · simp only [hhash, if_false]
        exact ⟨rfl, Or.inr ⟨rfl, fun h => absurd h id⟩⟩

/-- A decide message that names a proposal is a decision with its certificate. -/
theorem Names.decided_eq (h : s.Names support message proposal) (address : Address) :
    ∃ qc, message.justify = some qc ∧
      s.storage.getProposal qc.node.blockHash = some proposal ∧
      s.decided support message address =
        ((s.note (.phase message address)).decideBlock support qc).1 := by
  obtain ⟨htype, hview, qc, hjustify, hvalid, hget⟩ := h
  refine ⟨qc, hjustify, hget, ?_⟩
  have hvalid' : verifyQc support.basic qc (some .commit)
      (s.note (.phase message address)).authorities = .ok () := hvalid
  simp only [decided, ReplicaState.onValidatorConsensusMessage, htype, reduceCtorEq, if_false,
    hview, ne_eq, not_true_eq_false]
  rw [ReplicaState.onDecide, hjustify]
  simp only [hvalid']

/-- The named proposal is committed, or nothing is, and the kept block is gone. -/
theorem Names.decided_cases (h : s.Names support message proposal) (address : Address) :
    ∃ qc, message.justify = some qc ∧
      ((s.commitBlockParams = none ∧ (s.decided support message address).slot = s.slot) ∨
      ∃ kept, s.commitBlockParams = some kept ∧
        (s.decided support message address).commitBlockParams = none ∧
        ((kept.blockHash = proposal.blockHash ∧
            support.commitBlock s.storage.chain kept qc =
              .ok (s.decided support message address).storage.chain) ∨
          (s.decided support message address).storage.chain = s.storage.chain ∧
            (kept.blockHash = proposal.blockHash →
              ∃ e, support.commitBlock s.storage.chain kept qc = .error e))) := by
  obtain ⟨qc, hjustify, hget, heq⟩ := h.decided_eq address
  have hnote : (s.note (.phase message address)).storage.getProposal qc.node.blockHash =
      some proposal := hget
  refine ⟨qc, hjustify, ?_⟩
  rw [heq]
  rcases slot_decideBlock support hnote with ⟨hnone, hsame⟩ | htaken
  · left
    rw [hsame]
    exact ⟨hnone, rfl⟩
  · exact Or.inr htaken

/-- Any other decide message changes nothing. -/
theorem slot_decided_of_not_names (htype : message.messageType = .decide)
    (h : ∀ proposal, ¬ s.Names support message proposal) (address : Address) :
    (s.decided support message address).slot = s.slot := by
  simp only [decided, ReplicaState.onValidatorConsensusMessage, htype, reduceCtorEq, if_false]
  by_cases hview : message.view = s.storage.view
  · rw [if_neg (not_not.2 hview), ReplicaState.onDecide]
    cases hjustify : message.justify with
    | none => rfl
    | some qc =>
        simp only
        cases hvalid : verifyQc support.basic qc (some .commit)
            (s.note (.phase message address)).authorities with
        | error e => rfl
        | ok u =>
            have hnone : s.storage.getProposal qc.node.blockHash = none := by
              cases hget : s.storage.getProposal qc.node.blockHash with
              | none => rfl
              | some proposal => exact absurd ⟨htype, hview, qc, hjustify, hvalid, hget⟩ (h proposal)
            have hnote : (s.note (.phase message address)).storage.getProposal qc.node.blockHash =
                none := hnone
            simp only [decideBlock, hnote]
            rfl
  · rw [if_pos hview]
    rfl

theorem keeps_of_slot {s' : Stream} (h : s'.slot = s.slot) :
    s'.Keeps params ↔ s.Keeps params := by
  have hkept : s'.commitBlockParams = s.commitBlockParams := congrArg Slot.kept h
  rw [Keeps, hkept, Keeps]

/-- A message for a verified proposal commits it if and only if its block is
the one that is kept. -/
theorem commits_iff (hcandidate : s.Candidate support proposal params)
    (hnames : s.Names support message proposal) (address : Address) :
    s.Commits support message address params ↔ s.Keeps params := by
  obtain ⟨executedNumber, hverified⟩ := hcandidate.verified
  obtain ⟨qc, hjustify, hcases⟩ := hnames.decided_cases address
  have hhash := (Verifier.verifyProposal_eq_ok hverified).2.2.1
  have hlength : ∀ block : ConfirmedBlock, s.storage.chain ≠ block :: s.storage.chain :=
    fun block h => List.cons_ne_self block s.storage.chain h.symm
  rw [Commits]
  constructor
  · rintro ⟨qc', hjustify', hchain⟩
    obtain rfl : qc = qc' := Option.some.inj (hjustify.symm.trans hjustify')
    rcases hcases with ⟨-, hslot⟩ | ⟨kept, hkept, -, ⟨-, hcommit⟩ | ⟨hsame, -⟩⟩
    · exact absurd ((congrArg Slot.chain hslot).symm.trans hchain) (hlength _)
    · rw [hchain] at hcommit
      obtain ⟨hblock, hheader, -⟩ :=
        ConfirmedBlock.mk.inj (List.cons.inj (Support.commitBlock_eq_ok hcommit).1).1
      exact ⟨kept, hkept, hblock.symm, hheader.symm⟩
    · rw [hsame] at hchain
      exact absurd hchain (hlength _)
  · rintro ⟨kept, hkept, hsame⟩
    have hcommit := commitBlock_of_verifyProposal hverified hsame qc
    refine ⟨qc, hjustify, ?_⟩
    rcases hcases with ⟨hnone, -⟩ | ⟨kept', hkept', -, ⟨-, hcommit'⟩ | ⟨-, herror⟩⟩
    · exact absurd (hnone.symm.trans hkept) (Option.some_ne_none kept).symm
    · obtain rfl : kept = kept' := Option.some.inj (hkept.symm.trans hkept')
      exact Except.ok.inj (hcommit'.symm.trans hcommit)
    · obtain rfl : kept = kept' := Option.some.inj (hkept.symm.trans hkept')
      obtain ⟨e, he⟩ := herror (hsame.1.trans hhash)
      exact absurd (he.symm.trans hcommit) nofun

theorem proposal_decideBlock (s : Stream) (qc : QC) :
    (s.decideBlock support qc).1.storage.db = s.storage.db := by
  unfold decideBlock
  split
  · rfl
  · split
    · rfl
    · simp only
      split
      · unfold onDecide
        split
        · rfl
        · rfl
      · rfl

/-- A decide message leaves the kept block if and only if it names no stored
proposal. -/
theorem keeps_decided_iff (htype : message.messageType = .decide) (address : Address) :
    (s.decided support message address).Keeps params ↔
      s.Keeps params ∧ ∀ other, ¬ s.Names support message other := by
  by_cases hnames : ∃ other, s.Names support message other
  · obtain ⟨other, hother⟩ := hnames
    obtain ⟨qc, -, hcases⟩ := hother.decided_cases address
    constructor
    · rintro ⟨kept, hkept, -⟩
      rcases hcases with ⟨hnone, hslot⟩ | ⟨-, -, hnone, -⟩
      · have hsame := congrArg Slot.kept hslot
        exact absurd (hkept.symm.trans (hsame.trans hnone)) (Option.some_ne_none kept)
      · exact absurd (hkept.symm.trans hnone) (Option.some_ne_none kept)
    · intro h
      exact absurd hother (h.2 other)
  · have hnone : ∀ other, ¬ s.Names support message other := not_exists.1 hnames
    rw [keeps_of_slot (slot_decided_of_not_names htype hnone address)]
    exact ⟨fun h => ⟨h, hnone⟩, And.left⟩

/-- A decide message that commits nothing leaves the proposal as it is. -/
theorem Candidate.decided (hcandidate : s.Candidate support proposal params)
    (htype : message.messageType = .decide) {address : Address}
    (hchain : (s.decided support message address).storage.chain = s.storage.chain) :
    (s.decided support message address).Candidate support proposal params := by
  have hdb : (s.decided support message address).storage.db.proposal = s.storage.db.proposal := by
    by_cases hnames : ∃ other, s.Names support message other
    · obtain ⟨other, hother⟩ := hnames
      obtain ⟨qc, -, -, heq⟩ := hother.decided_eq address
      rw [heq, proposal_decideBlock]
      rfl
    · exact congrArg Slot.proposal
        (slot_decided_of_not_names htype (not_exists.1 hnames) address)
  constructor
  case stored =>
    rw [Storage.getProposal, hdb]
    exact hcandidate.stored
  case verified =>
    rw [hchain]
    exact hcandidate.verified

end Decide

end Stream

/-! ## What leaves the slot alone -/

namespace Stream

@[simp] theorem slot_requestTo (s : Stream) (address : Address)
    (message : Nat → HotStuffMessage) : (s.requestTo address message).slot = s.slot := by
  unfold requestTo
  split
  · rfl
  · rfl

@[simp] theorem slot_consensusMessage (s : Stream) (address : Address)
    (message : ConsensusMessage) : (s.consensusMessage address message).slot = s.slot :=
  slot_requestTo s _ _

theorem slot_sendTimeouts (addresses : List Address) (message : TimeoutMessage) (s : Stream) :
    (addresses.foldl (fun s address => s.timeoutMessage address message) s).slot = s.slot := by
  induction addresses generalizing s with
  | nil => rfl
  | cons address addresses ih =>
      rw [List.foldl_cons, ih]
      exact slot_requestTo s _ _

theorem slot_andThen {r : Stream × Outcome} {k : Stream → Stream × Outcome}
    (hk : ∀ s, (k s).1.slot = s.slot) : (andThen r k).1.slot = r.1.slot := by
  unfold andThen
  split
  · exact hk r.1
  · rfl

variable {support : Support} {oracle : Oracle}

theorem slot_signMessage {s s' : Stream} {message message' : ConsensusMessage}
    (h : s.signMessage support message = .ok (s', message')) : s'.slot = s.slot := by
  unfold signMessage at h
  split at h
  · cases h
  · cases h
    rfl

theorem slot_fatal (r : Stream × Outcome) : (fatal r).slot = r.1.slot := by
  unfold fatal
  split
  · rfl
  · rfl

end Stream

namespace ReplicaState

variable {support : Support}

@[simp] theorem slot_vote (s : Stream) (messageType : MessageType) (view : Nat) (node : Node) :
    (vote support s messageType view node).1.slot = s.slot := by
  unfold vote
  split
  · rfl
  · next s' voteMessage h =>
    have hs' := Stream.slot_signMessage h
    split
    · exact hs'
    · simp only [done, Stream.slot_consensusMessage, hs']

theorem slot_sendNewView (s : Stream) : (sendNewView s).1.slot = s.slot := by
  unfold sendNewView
  split
  · rfl
  · simp only [done, Stream.slot_consensusMessage]

theorem slot_onPrepare (s : Stream) (message : ConsensusMessage) :
    (onPrepare support s message).1.slot = s.slot := by
  unfold onPrepare
  split
  · rfl
  · split
    · rfl
    · split
      · rfl
      · split
        · rfl
        · split
          · rfl
          · split
            · rw [slot_vote]
            · rfl

theorem slot_onPreCommit (s : Stream) (message : ConsensusMessage) :
    (onPreCommit support s message).1.slot = s.slot := by
  unfold onPreCommit
  split
  · rfl
  · split
    · rfl
    · rw [slot_vote]
      rfl

theorem slot_onCommit (s : Stream) (message : ConsensusMessage) :
    (onCommit support s message).1.slot = s.slot := by
  unfold onCommit
  split
  · rfl
  · split
    · rfl
    · rw [slot_vote]
      rfl

/-- Only a decide message changes the slot. -/
theorem slot_onValidatorConsensusMessage (s : Stream) {message : ConsensusMessage}
    (htype : message.messageType ≠ .decide) (address : Address) :
    (onValidatorConsensusMessage support s message address).1.slot = s.slot := by
  unfold onValidatorConsensusMessage
  cases hmessage : message.messageType with
  | newView =>
      simp only [if_true]
      split
      · rfl
      · rfl
  | prepare =>
      simp only [reduceCtorEq, if_false]
      split
      · rfl
      · exact slot_onPrepare _ message
  | preCommit =>
      simp only [reduceCtorEq, if_false]
      split
      · rfl
      · exact slot_onPreCommit _ message
  | commit =>
      simp only [reduceCtorEq, if_false]
      split
      · rfl
      · exact slot_onCommit _ message
  | decide => exact absurd hmessage htype

end ReplicaState

theorem ObserverState.slot_onValidatorConsensusMessage (s : Stream) (message : ConsensusMessage)
    (address : Address) :
    (ObserverState.onValidatorConsensusMessage s message address).1.slot = s.slot := by
  unfold ObserverState.onValidatorConsensusMessage
  split
  · rfl
  · rfl

namespace Stream

variable {support : Support} {oracle : Oracle}

/-! ### Timeouts -/

theorem slot_processTc {s s' : Stream} {message : TimeoutMessage}
    (h : s.processTc support message = some s') : s'.slot = s.slot := by
  unfold processTc at h
  split at h
  · cases h
    rfl
  · split at h
    · split at h
      · cases h
      · cases h
        rfl
    · cases h
      rfl

theorem slot_collectTimeout (s : Stream) (message : TimeoutMessage) (address : Address) :
    (s.collectTimeout oracle message address).1.slot = s.slot := by
  unfold collectTimeout
  simp only
  split
  · rfl
  · rfl
  · simp only [done, slot_sendTimeouts]
    rfl

theorem slot_onTimeoutNewTimeout (s : Stream) (message : TimeoutMessage) (address : Address) :
    (s.onTimeoutNewTimeout support oracle message address).1.slot = s.slot := by
  unfold onTimeoutNewTimeout
  split
  · rfl
  · split
    · rfl
    · split
      · rfl
      · split
        · rfl
        · next hprocess => rw [slot_collectTimeout, slot_processTc hprocess]

theorem slot_onTimeoutDecide (s : Stream) (message : TimeoutMessage) :
    (s.onTimeoutDecide support message).1.slot = s.slot := by
  unfold onTimeoutDecide
  split
  · rfl
  · split
    · rfl
    · rfl

theorem slot_onTimeoutMessage (s : Stream) (message : TimeoutMessage) (address : Address) :
    (s.onTimeoutMessage support oracle message address).1.slot = s.slot := by
  unfold onTimeoutMessage
  split
  · rfl
  · cases message.messageType with
    | newTimeout => exact slot_onTimeoutNewTimeout _ message address
    | decide => exact slot_onTimeoutDecide _ message

theorem slot_onTimeout (s : Stream) : (s.onTimeout support oracle).1.slot = s.slot := by
  unfold onTimeout
  rw [slot_andThen fun s => slot_sendTimeouts _ _ s, slot_onTimeoutMessage]
  rfl

/-! ### The network -/

theorem slot_registerValidator (s : Stream) (peerId : PeerId) :
    (s.registerValidator support peerId).slot = s.slot := by
  unfold registerValidator
  split
  · rfl
  · rfl

theorem slot_onReqRegisterValidator (s : Stream) (peerId : PeerId) (req : RegisterValidatorReq) :
    (s.onReqRegisterValidator support peerId req).1.slot = s.slot := by
  unfold onReqRegisterValidator
  split
  · rfl
  · split
    · rfl
    · rfl

theorem slot_onReqRequestProposal (s : Stream) (peerId : PeerId) (req : RequestProposalReq) :
    (s.onReqRequestProposal peerId req).1.slot = s.slot := by
  unfold onReqRequestProposal
  split
  · rfl
  · rfl

end Stream

end Finastate.Hotstuff
