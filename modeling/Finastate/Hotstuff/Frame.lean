import Finastate.Hotstuff.Acts

/-!
# What the handlers leave alone

The handlers of consensus messages write certificates, proposals and the
fields of the leader, and they commit blocks. Everything that the choice of
the leader and the admission of messages depend on stays as it is: this is the
`Frame` of a stream, and every handler of a role keeps it. Timeouts move the
view; what they and all other messages leave alone is the `Ground`. The blocks
that the storage was last refreshed with are the `confirmed` blocks of the
stream: a commit adds an unread block to the chain, and leaves them as they are.
-/

namespace Finastate.Hotstuff

/-- What only a new block, a restart or a phase handler changes. -/
structure Ground where
  address : Address
  authorities : Authorities
  lastAuthorities : Authorities
  baseCommitQc : QC
  confirmed : Chain
  /-- What the phase handlers have acted on. -/
  acted : List Entry

/-- What the consensus handlers of a role leave alone. -/
structure Frame extends Ground where
  state : State
  currentLeader : Option Address
  view : Nat
  timeouts : List (Nat × List (Address × TimeoutMessage))

namespace Stream

/-- The blocks that the storage was last refreshed with. -/
def confirmed (s : Stream) : Chain := s.storage.chain.drop s.unread

def acted (s : Stream) : List Entry := s.trace.filter fun e => e.action.phase?.isSome

def ground (s : Stream) : Ground where
  address := s.address
  authorities := s.authorities
  lastAuthorities := s.lastAuthorities
  baseCommitQc := s.storage.baseCommitQc
  confirmed := s.confirmed
  acted := s.acted

def frame (s : Stream) : Frame where
  toGround := s.ground
  state := s.state
  currentLeader := s.currentLeader
  view := s.storage.view
  timeouts := s.timeoutMessageCollector

/-- The frame without the record of what has been acted on. -/
def still (s : Stream) : Frame := { s.frame with acted := [] }

theorem still_of_frame {s s' : Stream} (h : s'.frame = s.frame) : s'.still = s.still := by
  rw [still, still, h]

theorem ground_of_frame {s s' : Stream} (h : s'.frame = s.frame) : s'.ground = s.ground :=
  congrArg Frame.toGround h

/-! ## Messages out -/

@[simp] theorem frame_requestTo (s : Stream) (address : Address)
    (message : Nat → HotStuffMessage) : (s.requestTo address message).frame = s.frame := by
  unfold requestTo
  split
  · rfl
  · rfl

@[simp] theorem frame_requestProposal (s : Stream) (address : Address)
    (req : RequestProposalReq) : (s.requestProposal address req).frame = s.frame :=
  frame_requestTo s _ _

@[simp] theorem frame_consensusMessage (s : Stream) (address : Address)
    (message : ConsensusMessage) : (s.consensusMessage address message).frame = s.frame :=
  frame_requestTo s _ _

@[simp] theorem frame_timeoutMessage (s : Stream) (address : Address)
    (message : TimeoutMessage) : (s.timeoutMessage address message).frame = s.frame :=
  frame_requestTo s _ _

theorem frame_foldl {f : Stream → Address → Stream} (hf : ∀ s a, (f s a).frame = s.frame)
    (addresses : List Address) (s : Stream) :
    (addresses.foldl f s).frame = s.frame := by
  induction addresses generalizing s with
  | nil => rfl
  | cons a addresses ih => rw [List.foldl_cons, ih, hf]

theorem frame_andThen {r : Stream × Outcome} {k : Stream → Stream × Outcome}
    (hk : ∀ s, (k s).1.frame = s.frame) : (andThen r k).1.frame = r.1.frame := by
  unfold andThen
  split
  · exact hk r.1
  · rfl

theorem frame_signMessage {support : Support} {s s' : Stream}
    {message message' : ConsensusMessage}
    (h : s.signMessage support message = .ok (s', message')) : s'.frame = s.frame := by
  unfold signMessage at h
  split at h
  · cases h
  · cases h
    rfl

/-! ## Blocks -/

theorem confirmed_commit {support : Support} {s : Stream} {chain : Chain}
    {params : CommitBlockParams} {qc : QC}
    (h : support.commitBlock s.storage.chain params qc = .ok chain) :
    chain.drop (s.unread + 1) = s.confirmed := by
  unfold Support.commitBlock at h
  split at h
  · cases h
  · split at h
    · cases h
      rfl
    · cases h

@[simp] theorem frame_onDecide (support : Support) (s : Stream) (params : CommitBlockParams)
    (qc : QC) : (s.onDecide support params qc).1.frame = s.frame := by
  unfold onDecide
  split
  · rfl
  · next chain hcommit =>
    simp only [done, frame, ground, confirmed, setStorage, acted, confirmed_commit hcommit]

@[simp] theorem frame_decideBlock (support : Support) (s : Stream) (qc : QC) :
    (s.decideBlock support qc).1.frame = s.frame := by
  unfold decideBlock
  split
  · rfl
  · split
    · rfl
    · simp only
      split
      · rw [frame_onDecide]
        rfl
      · rfl

@[simp] theorem frame_onProposal (support : Support) (oracle : Oracle) (s : Stream)
    (proposal : Proposal) : (s.onProposal support oracle proposal).1.frame = s.frame := by
  unfold onProposal
  split
  · rfl
  · rfl
  · rfl

end Stream

/-! ## The leader -/

namespace LeaderState

variable {support : Support} {oracle : Oracle}

@[simp] theorem frame_broadcastMessage (s : Stream) (message : ConsensusMessage) :
    (broadcastMessage s message).frame = s.frame :=
  Stream.frame_foldl (fun s a => Stream.frame_consensusMessage s a message) _ _

@[simp] theorem frame_sendProposal (s : Stream) (proposal : Proposal)
    (message : ConsensusMessage) : (sendProposal s proposal message).frame = s.frame := by
  refine Stream.frame_foldl (fun s a => ?_) _ _
  rw [Stream.frame_consensusMessage]
  split
  · rfl
  · rfl

theorem frame_withVote {t : MessageType} {s : Stream} {message : ConsensusMessage}
    {address : Address} {k : Stream → Stream × Outcome}
    (hk : ∀ s, (k s).1.frame = s.frame) :
    (withVote support t s message address k).1.frame = s.frame := by
  unfold withVote
  split
  · rfl
  · rfl
  · next s' message' h =>
    rw [hk]
    have hs' : s'.frame = s.frame := by
      unfold verifyMessage at h
      split at h
      · split at h
        · cases h
        · exact Stream.frame_signMessage h
      · split at h
        · cases h
        · split at h
          · cases h
          · split at h
            · cases h
            · split at h
              · cases h
              · split at h
                · cases h
                · cases h
                  rfl
    rw [← hs']
    rfl

@[simp] theorem frame_onCommit (s : Stream) (message : ConsensusMessage)
    (address : Address) : (onCommit support oracle s message address).1.frame = s.frame := by
  refine frame_withVote fun s => ?_
  split
  · rfl
  · rfl
  · split
    · rfl
    · simp only
      rw [Stream.frame_andThen fun s => frame_broadcastMessage s _, Stream.frame_decideBlock]
      rfl

@[simp] theorem frame_onPreCommit (s : Stream) (message : ConsensusMessage)
    (address : Address) :
    (onPreCommit support oracle s message address).1.frame = s.frame := by
  refine frame_withVote fun s => ?_
  split
  · rfl
  · rfl
  · split
    · rfl
    · simp only
      rw [Stream.frame_andThen fun s => frame_broadcastMessage s _, frame_onCommit]
      rfl

@[simp] theorem frame_onPrepare (s : Stream) (message : ConsensusMessage)
    (address : Address) :
    (onPrepare support oracle s message address).1.frame = s.frame := by
  refine frame_withVote fun s => ?_
  split
  · rfl
  · rfl
  · split
    · rfl
    · simp only
      rw [Stream.frame_andThen fun s => frame_broadcastMessage s _, frame_onPreCommit]
      rfl

/-- A proposal of the leader itself is noted, but no phase handler acts on it. -/
theorem frame_note_propose (s : Stream) (node : Node) (highQc : QC) :
    (s.note (.propose node highQc)).frame = s.frame := by
  simp [Stream.note, Stream.frame, Stream.ground, Stream.confirmed, Stream.acted,
    Action.phase?]

@[simp] theorem frame_onProposal (s : Stream) (proposal : Proposal) :
    (onProposal support oracle s proposal).1.frame = s.frame := by
  unfold onProposal
  split
  · rfl
  · next highQc hsignal =>
    simp only
    rw [Stream.frame_andThen fun s => frame_sendProposal s _ _, frame_onPrepare]
    exact frame_note_propose s _ highQc

@[simp] theorem frame_createProposal (s : Stream) (timestamp : Nat) :
    (createProposal support oracle s timestamp).1.frame = s.frame := by
  unfold createProposal
  split
  · rfl
  · split
    · rfl
    · simp only [frame_onProposal]
      rfl

@[simp] theorem frame_onLocalProposal (s : Stream) (proposal : Proposal) :
    (onLocalProposal support oracle s proposal).1.frame = s.frame := by
  unfold onLocalProposal
  split
  · rw [frame_onProposal]
  · split
    · rfl
    · rw [frame_onProposal]
      rfl

@[simp] theorem frame_reuseProposal (s : Stream) (highQc : QC) :
    (reuseProposal support oracle s highQc).1.frame = s.frame := by
  unfold reuseProposal
  split
  · rw [frame_onLocalProposal]
  · simp only
    split
    · rfl
    · rw [← Stream.frame_requestProposal s]
      rfl

@[simp] theorem frame_tryWork (s : Stream) (schedule : Option Nat) (newView : Option QC) :
    (tryWork support oracle s schedule newView).1.frame = s.frame := by
  unfold tryWork
  simp only
  split
  · split
    · unfold work
      simp only
      split
      · rw [frame_createProposal]
        rfl
      · split
        · rw [frame_reuseProposal]
          rfl
        · rfl
    · rfl
  · rfl

@[simp] theorem frame_onRemoteProposal (s : Stream) (proposal : Proposal) :
    (onRemoteProposal support oracle s proposal).1.frame = s.frame := by
  unfold onRemoteProposal
  split
  · rfl
  · split
    · rfl
    · rw [frame_onLocalProposal]
      rfl

@[simp] theorem frame_onNewView (s : Stream) (message : ConsensusMessage)
    (address : Address) :
    (onNewView support oracle s message address).1.frame =
      (s.note (.phase message address)).frame := by
  unfold onNewView
  simp only
  split
  · rfl
  · split
    · rfl
    · split
      · rfl
      · rfl
      · split
        · rfl
        · rw [frame_tryWork]
          rfl

end LeaderState

/-! ## The replica -/

namespace ReplicaState

variable {support : Support}

@[simp] theorem frame_vote (s : Stream) (messageType : MessageType) (view : Nat)
    (node : Node) : (vote support s messageType view node).1.frame = s.frame := by
  unfold vote
  split
  · rfl
  · next s' voteMessage h =>
    have hs' := Stream.frame_signMessage h
    split
    · exact hs'
    · simp only [done, Stream.frame_consensusMessage, hs']

@[simp] theorem frame_sendNewView (s : Stream) : (sendNewView s).1.frame = s.frame := by
  unfold sendNewView
  split
  · rfl
  · simp only [done, Stream.frame_consensusMessage]

@[simp] theorem frame_onPrepare (s : Stream) (message : ConsensusMessage) :
    (onPrepare support s message).1.frame = s.frame := by
  unfold onPrepare
  split
  · rfl
  · split
    · rfl
    · split
      · rfl
      · split
        · rfl
        · split
          · rfl
          · split
            · rw [frame_vote]
            · rfl

@[simp] theorem frame_onPreCommit (s : Stream) (message : ConsensusMessage) :
    (onPreCommit support s message).1.frame = s.frame := by
  unfold onPreCommit
  split
  · rfl
  · split
    · rfl
    · rw [frame_vote]
      rfl

@[simp] theorem frame_onCommit (s : Stream) (message : ConsensusMessage) :
    (onCommit support s message).1.frame = s.frame := by
  unfold onCommit
  split
  · rfl
  · split
    · rfl
    · rw [frame_vote]
      rfl

@[simp] theorem frame_onDecide (s : Stream) (message : ConsensusMessage) :
    (onDecide support s message).1.frame = s.frame := by
  unfold onDecide
  split
  · rfl
  · split
    · rfl
    · rw [Stream.frame_decideBlock]

end ReplicaState

/-! ## Messages of a validator -/

/-- The messages that a role has a phase handler for. -/
def State.handles : State → MessageType → Bool
  | .leader, t => decide (t ≠ .decide)
  | .replica, t => decide (t ≠ .newView)
  | .observer, _ => false

/-- Nothing is done about a message, or a phase handler of the role acts on it,
in the view of the message. -/
def Stream.Dispatched (role : State) (s : Stream) (message : ConsensusMessage)
    (address : Address) (s' : Stream) : Prop :=
  s'.frame = s.frame ∨
    role.handles message.messageType = true ∧ message.view = s.storage.view ∧
      s'.frame = (s.note (.phase message address)).frame

theorem LeaderState.dispatched {support : Support} {oracle : Oracle} (s : Stream)
    (message : ConsensusMessage) (address : Address) :
    s.Dispatched .leader message address
      (LeaderState.onValidatorConsensusMessage support oracle s message address).1 := by
  unfold LeaderState.onValidatorConsensusMessage
  split
  · exact Or.inl rfl
  · next hview =>
    have hview : message.view = s.storage.view := not_not.1 hview
    cases htype : message.messageType with
    | newView => exact Or.inr ⟨by rw [htype]; rfl, hview, frame_onNewView s message address⟩
    | prepare => exact Or.inr ⟨by rw [htype]; rfl, hview, frame_onPrepare _ message address⟩
    | preCommit =>
        exact Or.inr ⟨by rw [htype]; rfl, hview, frame_onPreCommit _ message address⟩
    | commit => exact Or.inr ⟨by rw [htype]; rfl, hview, frame_onCommit _ message address⟩
    | decide => exact Or.inl rfl

theorem ReplicaState.dispatched {support : Support} (s : Stream)
    (message : ConsensusMessage) (address : Address) :
    s.Dispatched .replica message address
      (ReplicaState.onValidatorConsensusMessage support s message address).1 := by
  unfold ReplicaState.onValidatorConsensusMessage
  cases htype : message.messageType with
  | newView =>
      simp only [if_true]
      split
      · exact Or.inl rfl
      · exact Or.inl rfl
  | prepare =>
      simp only [reduceCtorEq, if_false]
      split
      · exact Or.inl rfl
      · next hview =>
        exact Or.inr ⟨by rw [htype]; rfl, not_not.1 hview, frame_onPrepare _ message⟩
  | preCommit =>
      simp only [reduceCtorEq, if_false]
      split
      · exact Or.inl rfl
      · next hview =>
        exact Or.inr ⟨by rw [htype]; rfl, not_not.1 hview, frame_onPreCommit _ message⟩
  | commit =>
      simp only [reduceCtorEq, if_false]
      split
      · exact Or.inl rfl
      · next hview =>
        exact Or.inr ⟨by rw [htype]; rfl, not_not.1 hview, frame_onCommit _ message⟩
  | decide =>
      simp only [reduceCtorEq, if_false]
      split
      · exact Or.inl rfl
      · next hview =>
        exact Or.inr ⟨by rw [htype]; rfl, not_not.1 hview, frame_onDecide _ message⟩

theorem ObserverState.dispatched (s : Stream) (message : ConsensusMessage)
    (address : Address) :
    s.Dispatched .observer message address
      (ObserverState.onValidatorConsensusMessage s message address).1 := by
  unfold ObserverState.onValidatorConsensusMessage
  split
  · exact Or.inl rfl
  · exact Or.inl rfl

namespace Stream

variable {support : Support} {oracle : Oracle}

theorem Dispatched.still {role : State} {s s' : Stream} {message : ConsensusMessage}
    {address : Address} (h : s.Dispatched role message address s') : s'.still = s.still := by
  rcases h with h | ⟨-, -, h⟩
  · exact still_of_frame h
  · rw [still_of_frame h]
    rfl

theorem still_andThen {r : Stream × Outcome} {k : Stream → Stream × Outcome}
    (hk : ∀ s, (k s).1.still = s.still) : (andThen r k).1.still = r.1.still := by
  unfold andThen
  split
  · exact hk r.1
  · rfl

theorem onValidatorConsensusMessage_dispatched (s : Stream) (message : ConsensusMessage)
    (address : Address) :
    s.Dispatched s.state message address
      (s.onValidatorConsensusMessage support oracle message address).1 := by
  unfold onValidatorConsensusMessage
  cases s.state with
  | leader => exact LeaderState.dispatched s message address
  | replica => exact ReplicaState.dispatched s message address
  | observer => exact ObserverState.dispatched s message address

theorem still_replay {handler : Stream → ConsensusMessage → Stream × Outcome}
    (h : ∀ s message, (handler s message).1.still = s.still)
    (messages : List ConsensusMessage) (s : Stream) :
    (replay handler messages s).1.still = s.still := by
  induction messages generalizing s with
  | nil => rfl
  | cons message messages ih =>
      rw [replay, still_andThen ih]
      exact h s message

theorem still_replayPending {handler : Stream → ConsensusMessage → Stream × Outcome}
    (h : ∀ s message, (handler s message).1.still = s.still) (s : Stream)
    (peerId : PeerId) : (s.replayPending peerId handler).1.still = s.still := by
  unfold replayPending
  split
  · rfl
  · exact still_replay h _ _

theorem still_onValidatorRegistered (s : Stream) (address : Address) (peerId : PeerId) :
    (s.onValidatorRegistered support oracle address peerId).1.still = s.still := by
  unfold onValidatorRegistered
  split
  · exact still_replayPending (fun s m => (LeaderState.dispatched s m address).still) s peerId
  · simp only
    rw [still_andThen fun s =>
      still_replayPending (fun s m => (ReplicaState.dispatched s m address).still) s peerId]
    split
    · exact still_of_frame (ReplicaState.frame_sendNewView s)
    · rfl
  · exact still_replayPending (fun s m => (ObserverState.dispatched s m address).still) s
      peerId

theorem still_onInternalMessage (s : Stream) (internalMessage : InternalMessage) :
    (s.onInternalMessage support oracle internalMessage).1.still = s.still := by
  cases internalMessage with
  | validatorRegistered address peerId => exact still_onValidatorRegistered s address peerId
  | consensusMessage message peerId =>
      simp only [onInternalMessage]
      unfold onConsensusMessage
      split
      · next address _ =>
        split
        · exact (onValidatorConsensusMessage_dispatched s message address).still
        · rfl
      · rfl
  | proposal address proposal =>
      simp only [onInternalMessage]
      split
      · exact still_of_frame (LeaderState.frame_onRemoteProposal s proposal)
      · rfl

theorem still_processPendingNewView (messages : List (ConsensusMessage × Address))
    (s : Stream) :
    (LeaderState.processPendingNewView support oracle messages s).1.still = s.still := by
  induction messages generalizing s with
  | nil => rfl
  | cons p messages ih =>
      rw [LeaderState.processPendingNewView, still_andThen ih,
        still_of_frame (LeaderState.frame_onNewView s p.1 p.2)]
      rfl

theorem still_start (s : Stream) :
    (LeaderState.start support oracle s).1.still = s.still := by
  unfold LeaderState.start
  rw [still_andThen, still_processPendingNewView]
  · rfl
  · intro s
    rw [LeaderState.sendNewViewToSelf, still_of_frame (LeaderState.frame_onNewView s _ _)]
    rfl

/-! ## Timeouts and the network -/

theorem ground_andThen {r : Stream × Outcome} {k : Stream → Stream × Outcome}
    (hk : ∀ s, (k s).1.ground = s.ground) : (andThen r k).1.ground = r.1.ground := by
  unfold andThen
  split
  · exact hk r.1
  · rfl

theorem ground_sendTimeouts (addresses : List Address) (message : TimeoutMessage)
    (s : Stream) :
    (addresses.foldl (fun s address => s.timeoutMessage address message) s).ground =
      s.ground :=
  ground_of_frame (frame_foldl (fun s a => frame_timeoutMessage s a message) _ _)

theorem ground_processTc {s s' : Stream} {message : TimeoutMessage}
    (h : s.processTc support message = some s') : s'.ground = s.ground := by
  unfold processTc at h
  split at h
  · cases h
    rfl
  · split at h
    · split at h
      · cases h
      · cases h
        rfl
    · cases h
      rfl

@[simp] theorem ground_collectTimeout (s : Stream) (message : TimeoutMessage)
    (address : Address) : (s.collectTimeout oracle message address).1.ground = s.ground := by
  unfold collectTimeout
  simp only
  split
  · rfl
  · rfl
  · simp only [done, ground_sendTimeouts]
    rfl

@[simp] theorem ground_onTimeoutNewTimeout (s : Stream) (message : TimeoutMessage)
    (address : Address) :
    (s.onTimeoutNewTimeout support oracle message address).1.ground = s.ground := by
  unfold onTimeoutNewTimeout
  split
  · rfl
  · split
    · rfl
    · split
      · rfl
      · split
        · rfl
        · next s' h => rw [ground_collectTimeout, ground_processTc h]

@[simp] theorem ground_onTimeoutDecide (s : Stream) (message : TimeoutMessage) :
    (s.onTimeoutDecide support message).1.ground = s.ground := by
  unfold onTimeoutDecide
  split
  · rfl
  · split
    · rfl
    · rfl

theorem ground_note_timeout (s : Stream) (message : TimeoutMessage) (address : Address) :
    (s.note (.timeout message address)).ground = s.ground := by
  simp [note, ground, confirmed, acted, Action.phase?]

@[simp] theorem ground_onTimeoutMessage (s : Stream) (message : TimeoutMessage)
    (address : Address) :
    (s.onTimeoutMessage support oracle message address).1.ground = s.ground := by
  unfold onTimeoutMessage
  split
  · rfl
  · simp only
    split
    · rw [ground_onTimeoutNewTimeout, ground_note_timeout]
    · rw [ground_onTimeoutDecide, ground_note_timeout]

@[simp] theorem ground_onTimeout (s : Stream) :
    (s.onTimeout support oracle).1.ground = s.ground := by
  unfold onTimeout
  simp only
  rw [ground_andThen fun s => ground_sendTimeouts _ _ s, ground_onTimeoutMessage]
  rfl

@[simp] theorem ground_registerValidator (s : Stream) (peerId : PeerId) :
    (s.registerValidator support peerId).ground = s.ground := by
  unfold registerValidator
  split
  · rfl
  · rfl

@[simp] theorem ground_onReqRegisterValidator (s : Stream) (peerId : PeerId)
    (req : RegisterValidatorReq) :
    (s.onReqRegisterValidator support peerId req).1.ground = s.ground := by
  unfold onReqRegisterValidator
  split
  · rfl
  · split
    · rfl
    · rfl

@[simp] theorem ground_onNetworkMessage (s : Stream) (peerId : PeerId)
    (message : HotStuffMessage) :
    (s.onNetworkMessage support oracle peerId message).1.ground = s.ground := by
  cases message with
  | registerValidatorReq req => exact ground_onReqRegisterValidator s peerId req
  | registerValidatorRes res => rfl
  | requestProposalReq req =>
      simp only [onNetworkMessage]
      split
      · unfold onReqRequestProposal
        split
        · rfl
        · rfl
      · rfl
  | requestProposalRes res =>
      simp only [onNetworkMessage]
      split
      · unfold onResRequestProposal
        split
        · rfl
        · rw [ground_andThen fun s => rfl]
          exact ground_of_frame (frame_onProposal support oracle s _)
      · rfl
  | consensusMessage message => rfl
  | timeoutMessage message =>
      simp only [onNetworkMessage]
      split
      · exact ground_onTimeoutMessage s message _
      · rfl

end Stream

end Finastate.Hotstuff
