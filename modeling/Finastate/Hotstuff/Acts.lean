import Mathlib.Logic.Relation
import Finastate.Hotstuff.State

/-!
# What the handlers can do

Every handler is a sequence of acts. `Core` is the part of a stream that
safety depends on, an `Act` is one write to it with the checks that the code
has made before, and `Stream.step_acts` says that whatever event a node
handles, its core moves by acts. An invariant of all runs is then proved once
for each act instead of once for each handler.
-/

namespace Finastate.Hotstuff

/-- The part of a stream that safety depends on. -/
structure Core where
  secretKey : SecretKey
  publicKey : PublicKey
  address : Address
  storage : Storage
  currentLeader : Option Address
  state : State
  leader : LeaderState
  currentView : Nat
  authorities : Authorities
  lastAuthorities : Authorities
  commitBlockParams : Option CommitBlockParams
  /-- The consensus messages that wait to be handled. -/
  queued : List ConsensusMessage
  timeouts : List (Nat × List (Address × TimeoutMessage))
  signed : List SigMessage
  received : List ConsensusMessage
  history : List Storage
  trace : List Entry

def InternalMessage.consensus? : InternalMessage → Option ConsensusMessage
  | .consensusMessage message _ => some message
  | _ => none

def Stream.queued (s : Stream) : List ConsensusMessage :=
  s.internal.filterMap InternalMessage.consensus? ++
    s.pendingConsensusMessages.flatMap Prod.snd ++ s.pendingNewViewMessages.map Prod.fst

def Stream.core (s : Stream) : Core where
  secretKey := s.secretKey
  publicKey := s.publicKey
  address := s.address
  storage := s.storage
  currentLeader := s.currentLeader
  state := s.state
  leader := s.leader
  currentView := s.currentView
  authorities := s.authorities
  lastAuthorities := s.lastAuthorities
  commitBlockParams := s.commitBlockParams
  queued := s.queued
  timeouts := s.timeoutMessageCollector
  signed := s.signed
  received := s.received
  history := s.history
  trace := s.trace

/-- The block of a sync. -/
def Action.block? : Action → Option ConfirmedBlock
  | .sync block => some block
  | _ => none

/-- The message that a phase handler acts on, and its sender. -/
def Action.phase? : Action → Option (ConsensusMessage × Address)
  | .phase message address => some (message, address)
  | _ => none

namespace LeaderState

/-- The collector of the votes of a phase. -/
def votes (l : LeaderState) : MessageType → List (Address × ConsensusMessage)
  | .prepare => l.prepareCollector
  | .preCommit => l.preCommitCollector
  | .commit => l.commitCollector
  | _ => []

end LeaderState

/-- The vote that a replica casts on what it acts on, after all its checks: the
phase, the view, the node and the justify. -/
def Entry.replicaVote (support : Support) (e : Entry) :
    Option (MessageType × Nat × Node × QC) :=
  match e.state, e.action with
  | .replica, .phase message _ =>
      match message.messageType, message.justify with
      | .prepare, some justify =>
          let authorities :=
            if justify.view = e.storage.baseCommitQc.view then e.lastAuthorities
            else e.authorities
          match message.node with
          | some node =>
              if (verifyQc support.basic justify none authorities).isOk ∧
                  (e.storage.getProposal node.blockHash).map Proposal.parentHash =
                    some node.parentHash ∧
                  Stream.safeNode e.storage node justify then
                some (.prepare, message.view, node, justify)
              else none
          | none => none
      | .preCommit, some justify =>
          if (verifyQc support.basic justify (some .prepare) e.authorities).isOk then
            some (.preCommit, message.view, justify.node, justify)
          else none
      | .commit, some justify =>
          if (verifyQc support.basic justify (some .preCommit) e.authorities).isOk then
            some (.commit, message.view, justify.node, justify)
          else none
      | _, _ => none
  | _, _ => none

/-- What a replica has checked when it votes. -/
theorem Entry.replicaVote_eq_some {support : Support} {e : Entry} {message : ConsensusMessage}
    {address : Address} (haction : e.action = .phase message address) {t : MessageType}
    {view : Nat} {node : Node} {justify : QC}
    (h : e.replicaVote support = some (t, view, node, justify)) :
    (e.state = .replica ∧ message.messageType = t) ∧ message.justify = some justify ∧
      view = message.view ∧
      ((t = .prepare ∧ message.node = some node ∧
          (e.storage.getProposal node.blockHash).map Proposal.parentHash =
            some node.parentHash ∧ Stream.safeNode e.storage node justify) ∨
        (t = .preCommit ∧ node = justify.node ∧
          verifyQc support.basic justify (some .prepare) e.authorities = .ok ()) ∨
        (t = .commit ∧ node = justify.node ∧
          verifyQc support.basic justify (some .preCommit) e.authorities = .ok ())) := by
  have hok {x : Except ErrorKind Unit} (h : x.isOk) : x = .ok () := by
    cases x with
    | error e => cases h
    | ok u => rfl
  unfold Entry.replicaVote at h
  rw [haction] at h
  split at h
  · next m hstate hm =>
    cases hm
    split at h
    · next htype hjustify =>
      simp only at h
      split at h
      · next hnode =>
        rw [Option.ite_none_right_eq_some] at h
        obtain ⟨hchecks, h⟩ := h
        cases h
        exact ⟨⟨hstate, htype⟩, hjustify, rfl, Or.inl ⟨rfl, hnode, hchecks.2⟩⟩
      · cases h
    · next htype hjustify =>
      rw [Option.ite_none_right_eq_some] at h
      obtain ⟨hverify, h⟩ := h
      cases h
      exact ⟨⟨hstate, htype⟩, hjustify, rfl, Or.inr (Or.inl ⟨rfl, rfl, hok hverify⟩)⟩
    · next htype hjustify =>
      rw [Option.ite_none_right_eq_some] at h
      obtain ⟨hverify, h⟩ := h
      cases h
      exact ⟨⟨hstate, htype⟩, hjustify, rfl, Or.inr (Or.inr ⟨rfl, rfl, hok hverify⟩)⟩
    · cases h
  · cases h

namespace Core

def entry (c : Core) (action : Action) : Entry :=
  { action, state := c.state, storage := c.storage, authorities := c.authorities,
    lastAuthorities := c.lastAuthorities, timeouts := c.timeouts }

def note (c : Core) (action : Action) : Core :=
  { c with trace := c.entry action :: c.trace }

def setStorage (c : Core) (storage : Storage) : Core :=
  { c with storage, history := storage :: c.history }

/-- The handler of this action is running, and has changed neither the storage nor the
collected timeouts. -/
def Acting (c : Core) (action : Action) : Prop := c.trace.head? = some (c.entry action)

/-- The leader casts its own vote: for the node it has just proposed, or after
it has collected the certificate of the phase before. A message that comes in
under the own address also ends here. -/
def OwnVote (c : Core) (t : MessageType) : Prop :=
  (∃ message : ConsensusMessage,
    message.messageType = t ∧ c.Acting (.phase message c.address)) ∨
    match t with
    | .prepare => ∃ node highQc pm, c.Acting (.propose node highQc) ∧
        c.leader.workNewViewSignal = some highQc ∧
        c.leader.prepareMessage = some pm ∧ pm.node = some node
    | .preCommit => c.leader.preCommitMessage.isSome
    | .commit => c.leader.commitMessage.isSome
    | _ => False

/-- The block of a certificate is stored and built, and the chain takes it. -/
def Decides (support : Support) (c : Core) (commitQc : QC) (chain : Chain) : Prop :=
  ∃ proposal params, c.storage.getProposal commitQc.node.blockHash = some proposal ∧
    c.commitBlockParams = some params ∧ params.blockHash = proposal.blockHash ∧
    support.commitBlock c.storage.chain params commitQc = .ok chain

def decide (c : Core) (chain : Chain) : Core :=
  { c with commitBlockParams := none }.setStorage { c.storage with chain }

/-- The node is started again and has read its storage. -/
def restarted (support : Support) (c : Core) (storage : Storage) : Core :=
  { c.setStorage storage with
    currentLeader := none
    state := .observer
    leader := LeaderState.new
    authorities := support.getHotstuffAuthorities storage.chain storage.chain.length
    lastAuthorities :=
      support.getHotstuffAuthorities storage.chain (storage.chain.length - 1)
    commitBlockParams := none
    queued := []
    timeouts := [] }

/-- What a vote of a phase writes to the storage of a replica. -/
def afterVote (c : Core) (t : MessageType) (justify : QC) : Core :=
  match t with
  | .preCommit => c.setStorage (c.storage.updatePrepareQc justify)
  | .commit => c.setStorage (c.storage.updateLockedQc justify)
  | _ => c

/-- The view after a new timeout message: an attached certificate and a
completed one each move it. -/
def timeoutFirst (c : Core) : Option TC → Core
  | some tc => c.setStorage (c.storage.updateView (wrapAdd 64 tc.view 1))
  | none => c

def timeoutSecond (c : Core) (message : TimeoutMessage) : Bool → Core
  | true => c.setStorage (c.storage.updateView (wrapAdd 64 message.view 1))
  | false => c

end Core

/-- The weight of one sender on its own, as the collector counts it. -/
def Authorities.aloneWeight (authorities : Authorities) (address : Address) : Nat :=
  match Weights.weight? authorities.members address with
  | some weight => wrapAdd 32 0 weight
  | none => 0

/-- What the senders of the timeouts that are collected for a view weigh together, as an
exact number. -/
def TimeoutMessageCollector.weight (authorities : Authorities)
    (m : List (Nat × List (Address × TimeoutMessage))) (view : Nat) : Nat :=
  (((AssocMap.get? m view).getD []).map fun p =>
    (Weights.weight? authorities.members p.1).getD 0).sum

/-- With this message the senders that are collected for its view weigh a quorum. -/
def TimeoutMessageCollector.Completes (authorities : Authorities)
    (m : List (Nat × List (Address × TimeoutMessage))) (message : TimeoutMessage)
    (address : Address) : Prop :=
  authorities.quorum ≤ weight authorities (add m address message) message.view

instance (authorities : Authorities) (m : List (Nat × List (Address × TimeoutMessage)))
    (message : TimeoutMessage) (address : Address) :
    Decidable (TimeoutMessageCollector.Completes authorities m message address) :=
  Nat.decLe _ _

/-- Every collected timeout message stands under its view. -/
def TimeoutMessageCollector.ByView (m : List (Nat × List (Address × TimeoutMessage))) :
    Prop :=
  ∀ p ∈ m, ∀ q ∈ p.2, q.2.view = p.1

/-- The message is signed by its sender. -/
def TimeoutMessage.SignedBy (support : Support) (message : TimeoutMessage)
    (address : Address) : Prop :=
  ∃ s ∈ message.sig, support.basic.address s.1 = address ∧
    support.basic.verify (.timeout message.messageType message.view) s.1 s.2 = .ok ()

instance (support : Support) (message : TimeoutMessage) (address : Address) :
    Decidable (message.SignedBy support address) :=
  inferInstanceAs (Decidable (∃ s ∈ message.sig, _))

/-- A message of the second collector is one of the first, or a new timeout that its
sender has signed. -/
def TimeoutMessageCollector.Admits (support : Support)
    (m m' : List (Nat × List (Address × TimeoutMessage))) : Prop :=
  ∀ p ∈ m', ∀ q ∈ p.2, (∃ p' ∈ m, p'.1 = p.1 ∧ q ∈ p'.2) ∨
    q.2.messageType = .newTimeout ∧ q.2.SignedBy support q.1

/-- Acts of any role. -/
inductive CommonAct (support : Support) (c : Core) : Core → Prop
  | note (action : Action) (h : action.block? = none) : CommonAct support c (c.note action)
  | queue (queued : List ConsensusMessage)
      (h : ∀ message ∈ queued, message ∈ c.queued ∨ message ∈ c.received) :
      CommonAct support c { c with queued }
  | params (params : Option CommitBlockParams)
      (built : ∀ x ∈ params, ∃ p, support.buildBlock c.storage.chain p = .ok x) :
      CommonAct support c { c with commitBlockParams := params }
  | putProposal (proposal : Proposal) (x : CommitBlockParams) (p : BuildBlockParams)
      (built : support.buildBlock c.storage.chain p = .ok x)
      (number : p.number = c.storage.chain.length + 1)
      (parent : proposal.parentHash = x.header.parentHash)
      (hash : proposal.blockHash = x.blockHash) :
      CommonAct support c
        ({ c with commitBlockParams := some x }.setStorage
          (c.storage.putProposal proposal))

/-- The fields of the leader that are not votes change: new view messages, the
signals to work, the pending proposal. -/
structure LeaderWork (c : Core) (l : LeaderState) : Prop where
  votes : l.votes = c.leader.votes
  prepareMessage : l.prepareMessage = c.leader.prepareMessage
  preCommitMessage : l.preCommitMessage = c.leader.preCommitMessage
  commitMessage : l.commitMessage = c.leader.commitMessage
  newView : ∀ p ∈ l.newViewCollector, p ∈ c.leader.newViewCollector ∨
    p.2 ∈ c.received ∨ p.2.justify = some c.storage.prepareQc
  signal : ∀ qc ∈ l.workNewViewSignal, c.leader.workNewViewSignal = some qc ∨
    ∃ p ∈ l.newViewCollector, p.2.justify = some qc
  pending : l.pendingRemoteProposal.isSome →
    c.leader.pendingRemoteProposal.isSome ∨ c.leader.prepareMessage = none

/-- Acts of the leader. None of them changes the view. -/
inductive LeaderAct (support : Support) (c : Core) : Core → Prop
  | common (c' : Core) (h : CommonAct support c c') : LeaderAct support c c'
  | work (l : LeaderState) (h : LeaderWork c l) : LeaderAct support c { c with leader := l }
  | propose (node : Node) (highQc : QC) (pm : ConsensusMessage)
      (signal : c.leader.workNewViewSignal = some highQc)
      (acting : c.Acting (.propose node highQc))
      (fresh : c.leader.prepareMessage = none) (pmNode : pm.node = some node)
      (idle : c.leader.pendingRemoteProposal = none) :
      LeaderAct support c { c with leader.prepareMessage := some pm }
  | ownVote (t : MessageType) (message pm : ConsensusMessage) (leaderAddress : Address)
      (phase : t = .prepare ∨ t = .preCommit ∨ t = .commit)
      (leader : c.currentLeader = some leaderAddress)
      (type : message.messageType = t) (view : message.view = c.storage.view)
      (proposed : c.leader.prepareMessage = some pm) (node : message.node = pm.node)
      (own : c.OwnVote t)
      (sig : message.sig = some (c.publicKey, support.basic.sign
        (.vote message.messageType message.view message.node leaderAddress) c.secretKey)) :
      LeaderAct support c
        { c with
          signed := .vote t message.view message.node leaderAddress :: c.signed
          leader := c.leader.addVote t c.address message }
  | remoteVote (t : MessageType) (message pm : ConsensusMessage) (address : Address)
      (s : PublicKey × Signature) (phase : t = .prepare ∨ t = .preCommit ∨ t = .commit)
      (other : address ≠ c.address) (received : message ∈ c.received)
      (type : message.messageType = t) (view : message.view = c.storage.view)
      (sig : message.sig = some s) (signer : support.basic.address s.1 = address)
      (valid : support.basic.verify
        (.vote message.messageType message.view message.node c.address) s.1 s.2 = .ok ())
      (proposed : c.leader.prepareMessage = some pm) (node : message.node = pm.node) :
      LeaderAct support c { c with leader := c.leader.addVote t address message }
  | prepareQc (order : IterOrder) (qc : QC) (message : ConsensusMessage)
      (collected : ConsensusMessageCollector.getQc order c.leader.prepareCollector
        c.authorities c.address = .ok (some qc))
      (fresh : c.leader.preCommitMessage = none) :
      LeaderAct support c
        { c.setStorage (c.storage.updatePrepareQc qc) with
          leader := { c.leader with preCommitMessage := some message } }
  | preCommitQc (order : IterOrder) (qc : QC) (message : ConsensusMessage)
      (collected : ConsensusMessageCollector.getQc order c.leader.preCommitCollector
        c.authorities c.address = .ok (some qc))
      (fresh : c.leader.commitMessage = none) :
      LeaderAct support c
        { c.setStorage (c.storage.updateLockedQc qc) with
          leader := { c.leader with commitMessage := some message } }
  | decide (order : IterOrder) (qc : QC) (chain : Chain)
      (collected : ConsensusMessageCollector.getQc order c.leader.commitCollector
        c.authorities c.address = .ok (some qc))
      (decides : c.Decides support qc chain) : LeaderAct support c (c.decide chain)

/-- Acts of the replica. None of them changes the view. -/
inductive ReplicaAct (support : Support) (c : Core) : Core → Prop
  | common (c' : Core) (h : CommonAct support c c') : ReplicaAct support c c'
  | vote (message : ConsensusMessage) (address leaderAddress : Address) (t : MessageType)
      (view : Nat) (node : Node) (justify : QC)
      (acting : c.Acting (.phase message address)) (received : message ∈ c.received)
      (current : message.view = c.storage.view)
      (casts : (c.entry (.phase message address)).replicaVote support =
        some (t, view, node, justify))
      (leader : c.currentLeader = some leaderAddress) :
      ReplicaAct support c
        { c.afterVote t justify with
          signed := .vote t view (some node) leaderAddress :: c.signed }
  | decide (message : ConsensusMessage) (address : Address) (qc : QC) (chain : Chain)
      (acting : c.Acting (.phase message address)) (received : message ∈ c.received)
      (type : message.messageType = .decide) (justify : message.justify = some qc)
      (valid : verifyQc support.basic qc (some .commit) c.authorities = .ok ())
      (decides : c.Decides support qc chain) : ReplicaAct support c (c.decide chain)

/-- One write of a node to its core while it handles an event. -/
inductive Act (support : Support) (event : Event) (c : Core) : Core → Prop
  | common (c' : Core) (h : CommonAct support c c') : Act support event c c'
  | leader (c' : Core) (state : c.state = .leader) (view : c.storage.view = c.currentView)
      (h : LeaderAct support c c') : Act support event c c'
  | replica (c' : Core) (state : c.state = .replica) (h : ReplicaAct support c c') :
      Act support event c c'
  | receive (peerId : PeerId) (message : ConsensusMessage)
      (h : event = .message peerId (some (.consensusMessage message))) :
      Act support event c { c with received := message :: c.received }
  | sign (message : SigMessage) (h : ∀ t v n l, message ≠ .vote t v n l) :
      Act support event c { c with signed := message :: c.signed }
  | timeouts (timeouts : List (Nat × List (Address × TimeoutMessage)))
      (byView : TimeoutMessageCollector.ByView c.timeouts →
        TimeoutMessageCollector.ByView timeouts)
      (admits : TimeoutMessageCollector.Admits support c.timeouts timeouts) :
      Act support event c { c with timeouts }
  | newTimeout (message : TimeoutMessage) (address : Address) (first : Option TC)
      (second : Bool) (acting : c.Acting (.timeout message address))
      (type : message.messageType = .newTimeout) (signed : message.SignedBy support address)
      (view : c.storage.view ≤ message.view)
      (attached : ∀ tc ∈ first, message.justify = some tc ∧ c.storage.view ≤ tc.view ∧
        verifyTc support.basic tc c.authorities = .ok ())
      (alone : second = true → ∀ tc ∈ first, message.view < tc.view →
        c.authorities.quorum ≤ c.authorities.aloneWeight address)
      (complete : second = true →
        TimeoutMessageCollector.Completes c.authorities c.timeouts message address) :
      Act support event c ((c.timeoutFirst first).timeoutSecond message second)
  | decideTimeout (message : TimeoutMessage) (address : Address) (tc : TC)
      (acting : c.Acting (.timeout message address)) (type : message.messageType = .decide)
      (attached : message.justify = some tc)
      (valid : verifyTc support.basic tc c.authorities = .ok ()) :
      Act support event c (c.setStorage (c.storage.updateView (wrapAdd 64 tc.view 1)))
  | refresh (storage : Storage)
      (h : Storage.refresh support c.storage.chain c.storage.db = some storage) :
      Act support event c
        { c.setStorage storage with
          authorities := support.getHotstuffAuthorities storage.chain storage.chain.length
          lastAuthorities := c.authorities }
  | restart (storage : Storage)
      (h : Storage.refresh support c.storage.chain c.storage.db = some storage) :
      Act support event c (c.restarted support storage)
  | runView (state : State) (leader : Address)
      (own : state = .leader → c.address = leader)
      (other : state = .replica → c.address ≠ leader) :
      Act support event c
        { c with
          state
          currentLeader := some leader
          currentView := c.storage.view
          leader := LeaderState.new }
  | sync (block : ConfirmedBlock) (params : CommitBlockParams) (chain : Chain)
      (h : event = .sync block) (hash : params.blockHash = support.basic.hash params.header)
      (header : params.header = block.header)
      (commits : support.commitBlock c.storage.chain params block.commitQc = .ok chain) :
      Act support event c ((c.note (.sync block)).setStorage { c.storage with chain })

/-- Any number of acts. -/
abbrev Acts (support : Support) (event : Event) : Core → Core → Prop :=
  Relation.ReflTransGen (Act support event)

abbrev CommonActs (support : Support) : Core → Core → Prop :=
  Relation.ReflTransGen (CommonAct support)

abbrev ReplicaActs (support : Support) : Core → Core → Prop :=
  Relation.ReflTransGen (ReplicaAct support)

abbrev LeaderActs (support : Support) : Core → Core → Prop :=
  Relation.ReflTransGen (LeaderAct support)

end Finastate.Hotstuff
