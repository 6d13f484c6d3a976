import Mathlib.Logic.Relation
import Finastate.Raft.State

/-!
# What the handlers of a Raft node can do

Every handler is a sequence of acts. `Core` is the part of a stream that
safety depends on, and an `Act` is one change of it with the checks that the
code has made before. An act knows the event and the core that the event found
(`o`). `Stream.step_acts` says that whatever event a node handles, its core
moves by acts, so that an invariant of all runs is proved once for each act.
-/

namespace Finastate.Raft

/-- The part of a stream that safety depends on. -/
structure Core where
  publicKey : PublicKey
  address : Address
  authorities : List Address
  peers : List (PeerId × PeerInfo)
  knownValidators : List (Address × PeerId)
  nextRequestId : Nat
  out : List (PeerId × RaftMessage)
  storage : Storage
  state : State
  role : State
  leader : LeaderState
  candidate : CandidateState
  internal : List InternalMessage
  trace : List Record
  history : List Snapshot
  announcedBy : Option (Address × Nat)
  compared : List ((Address × Nat) × Nat)

def Stream.core (s : Stream) : Core where
  publicKey := s.publicKey
  address := s.address
  authorities := s.authorities
  peers := s.peers
  knownValidators := s.knownValidators
  nextRequestId := s.nextRequestId
  out := s.out
  storage := s.storage
  state := s.state
  role := s.role
  leader := s.leader
  candidate := s.candidate
  internal := s.internal
  trace := s.trace
  history := s.history
  announcedBy := s.announcedBy
  compared := s.compared

/-- A message that is not about elections or the log; a node registers itself. -/
def RaftMessage.IsChat (publicKey : PublicKey) : RaftMessage → Prop
  | .registerValidatorReq req => req.publicKey = publicKey
  | .registerValidatorRes _ => True
  | .requestProposalReq _ => True
  | .requestProposalRes _ => True
  | _ => False

/-- `next_request_id`. -/
def nextId (requestId : Nat) : Nat := if requestId + 1 < 2 ^ 64 then requestId + 1 else 0

namespace Core

def note (c : Core) (action : Action) : Core :=
  { c with trace := { action, storage := c.storage } :: c.trace }

def snapshot (c : Core) : Snapshot where
  chain := c.storage.chain
  db := c.storage.db
  trace := c.trace

/-- One write. -/
def write (c : Core) (storage : Storage) : Core :=
  { c with
    storage
    history := { chain := storage.chain, db := storage.db, trace := c.trace } :: c.history }

/-- A new term. -/
def writeTerm (c : Core) (currentTerm : Nat) : Core :=
  c.write (c.storage.updateCurrentTerm currentTerm)

/-- A new term and the vote in it, in two writes. -/
def writeTermVote (c : Core) (currentTerm : Nat) (currentVotedFor : Option Address) : Core :=
  let c := c.writeTerm currentTerm
  c.write (c.storage.updateCurrentVotedFor currentVotedFor)

def getPeerAddress (c : Core) (peerId : PeerId) : Option Address :=
  (AssocMap.get? c.peers peerId).bind PeerInfo.address

/-- `update_state` to follow. -/
def follower (c : Core) : Core :=
  { c with state := if c.address ∈ c.authorities then .follower else .observer }

theorem follower_state (c : Core) :
    c.follower.state ≠ .leader ∧ c.follower.state ≠ .candidate := by
  unfold follower
  simp only
  split
  · exact ⟨nofun, nofun⟩
  · exact ⟨nofun, nofun⟩

/-- The message comes from the peer of a validator. -/
def Receives (c : Core) (event : Event) (address : Address) (message : RaftMessage) : Prop :=
  ∃ peerId, event = .message peerId (some message) ∧ c.getPeerAddress peerId = some address

/-- A message of the task itself: a reply was received, or the authorities are
others than before. -/
def Queues (c o : Core) (event : Event) : InternalMessage → Prop
  | .requestVoteRes address res => o.Receives event address (.requestVoteRes res)
  | .appendEntriesRes address res => o.Receives event address (.appendEntriesRes res)
  | .authoritiesUpdated authorities => authorities = c.authorities ∧ authorities ≠ o.authorities
  | _ => True

/-- The storage is read again from a repaired database. -/
def refresh (c : Core) : Core :=
  let chain := c.storage.chain
  { c with
    storage := Storage.refresh chain c.storage.db
    history := (Storage.refreshDbs chain c.storage.db).map
      (fun db => { chain, db, trace := c.trace }) ++ c.history }

/-- The node is started again. -/
def restarted (support : Support) (c : Core) : Core :=
  let c := c.refresh
  let authorities := support.getRaftAuthorities c.storage.chain c.storage.chain.length
  let state := if c.address ∈ authorities then State.follower else State.observer
  { c with
    authorities
    peers := []
    knownValidators := []
    nextRequestId := 0
    state
    role := state
    leader := LeaderState.new
    candidate := CandidateState.new
    internal := [] }

/-- The request of a leader that a node is handling. -/
def Follows (c o : Core) (event : Event) (address : Address) (req : AppendEntriesReq) : Prop :=
  o.Receives event address (.appendEntriesReq req) ∧
    o.storage.currentTerm ≤ req.term ∧ c.storage.currentTerm = req.term ∧
    c.storage.baseLogIndex = o.storage.baseLogIndex ∧
    c.storage.baseLogTerm = o.storage.baseLogTerm

end Core

/-- The peer registers under the address. -/
def Event.Registers (support : Support) (event : Event) (peerId : PeerId)
    (address : Address) : Prop :=
  ∃ req, event = .message peerId (some (.registerValidatorReq req)) ∧
    support.basic.address req.publicKey = address

/-- One change of the core. -/
inductive Act (support : Support) (event : Event) (o : Core) (c : Core) : Core → Prop
  /-- Peers come, go and register. -/
  | peers (peers : List (PeerId × PeerInfo)) (knownValidators : List (Address × PeerId))
      (registered : ∀ peerId address,
        (AssocMap.get? peers peerId).bind PeerInfo.address = some address →
          c.getPeerAddress peerId = some address ∨ event.Registers support peerId address)
      (known : ∀ address peerId, AssocMap.get? knownValidators address = some peerId →
        AssocMap.get? c.knownValidators address = some peerId ∨
          event.Registers support peerId address) :
      Act support event o c { c with peers, knownValidators }
  | chat (peerId : PeerId) (message : RaftMessage) (nextRequestId : Nat)
      (chat : message.IsChat c.publicKey)
      (id : nextRequestId = c.nextRequestId ∨ nextRequestId = nextId c.nextRequestId) :
      Act support event o c { c with out := (peerId, message) :: c.out, nextRequestId }
  | queue (message : InternalMessage) (queues : c.Queues o event message) :
      Act support event o c { c with internal := c.internal ++ [message] }
  | pop (message : InternalMessage) (internal : List InternalMessage)
      (first : c.internal = message :: internal) :
      Act support event o c { c with internal }
  | setState (state : State)
      (rule : state = .observer ∨ state = .shutdown ∨
        (state = .follower ∧ c.address ∈ c.authorities) ∨
        (state = .candidate ∧ c.state = .follower ∧ c.role = .follower)) :
      Act support event o c { c with state }
  | rest (calm : c.state ≠ .leader ∧ c.state ≠ .candidate) :
      Act support event o c { c with role := c.state }
  /-- A new round of the candidate. -/
  | campaign (timeout : event = .election) (before : o.role = .follower ∨ o.role = .candidate)
      (storage : c.storage = o.storage)
      (trace : c.trace = o.trace) (state : c.state = .candidate) :
      Act support event o c
        ({ c with
          role := .candidate
          candidate :=
            { votesGranted := 1, votesNeeded := c.authorities.length / 2 + 1, requests := []
              asked := [], voters := [] } }.writeTermVote
            (wrapAdd 64 c.storage.currentTerm 1) (some c.address))
  | ask (target : Address) (peerId : PeerId) (role : c.role = .candidate)
      (timeout : event = .election) (state : c.state = .candidate)
      (member : target ∈ c.authorities) (other : target ≠ c.address)
      (fresh : c.authorities.Nodup → target ∉ c.candidate.asked.map Prod.snd)
      (known : AssocMap.get? c.knownValidators target = some peerId) :
      Act support event o c
        { c with
          nextRequestId := nextId c.nextRequestId
          out :=
            (peerId, .requestVoteReq
              { requestId := c.nextRequestId, term := c.storage.currentTerm
                lastLogIndex := c.storage.lastLog.1, lastLogTerm := c.storage.lastLog.2 }) ::
              c.out
          candidate :=
            { c.candidate with
              requests := c.nextRequestId :: c.candidate.requests
              asked := (c.nextRequestId, target) :: c.candidate.asked } }
  | forget (requestId : Nat) :
      Act support event o c
        { c with candidate.requests := c.candidate.requests.filter fun id => id ≠ requestId }
  /-- A vote is counted. -/
  | count (address : Address) (res : RequestVoteRes) (internal : List InternalMessage)
      (role : c.role = .candidate) (state : c.state = .candidate)
      (first : c.internal = .requestVoteRes address res :: internal)
      (open_ : res.requestId ∈ c.candidate.requests) (granted : res.voteGranted = true)
      (member : address ∈ c.authorities) :
      Act support event o c
        { c with
          internal
          candidate :=
            { c.candidate with
              requests := c.candidate.requests.filter fun id => id ≠ res.requestId
              votesGranted := c.candidate.votesGranted + 1
              voters := address :: c.candidate.voters } }
  | win (role : c.role = .candidate) (state : c.state = .candidate)
      (enough : c.candidate.votesNeeded ≤ c.candidate.votesGranted) :
      Act support event o c { c with state := .leader }
  | lead (role : c.role = .candidate) (state : c.state = .leader)
      (enough : c.candidate.votesNeeded ≤ c.candidate.votesGranted) :
      Act support event o c
        { c.note (.lead c.candidate.voters) with
          role := .leader
          leader :=
            { replications := c.authorities.foldl (fun m target =>
                if target = c.address ∨ (AssocMap.get? m target).isSome then m
                else AssocMap.insert m target (LeaderState.newReplication c.storage)) []
              replicationOut := [] } }
  /-- The leader appends an entry. -/
  | append (data : EntryData) (role : c.role = .leader) (state : c.state = .leader)
      (last : c.storage.lastLog = o.storage.lastLog) :
      Act support event o c
        (let entry : Entry :=
          { term := c.storage.currentTerm, index := wrapAdd 64 c.storage.lastLog.1 1, data }
        (c.note (.append entry)).write (c.storage.appendLogEntries [entry]))
  | raise (commitLogIndex : Nat) (role : c.role = .leader) (state : c.state = .leader)
      (majority : commitLogIndex = LeaderState.getNewCommitLogIndex
        ((c.leader.replications.map fun p => p.2.matchIndex) ++ [c.storage.lastLog.1])
        c.storage.commitLogIndex)
      (higher : commitLogIndex ≠ c.storage.commitLogIndex) :
      Act support event o c
        { (c.note (.raise commitLogIndex)).write
            (c.storage.updateCommitLogIndex commitLogIndex) with announcedBy := none }
  /-- A step of a replication task. -/
  | task (target : Address) (replication : Replication) (stream : ReplicationStream)
      (messages : List ReplicationOutMessage) (role : c.role = .leader)
      (state : c.state = .leader)
      (found : AssocMap.get? c.leader.replications target = some replication)
      (step : (event = .replicate target ∧ (stream, messages) =
          ReplicationStream.replicate c.storage target replication.stream) ∨
        (event = .replicationIn target ∧ (stream, messages) =
          ReplicationStream.onInMessage c.storage target replication.stream)) :
      Act support event o c
        { c with
          leader :=
            { replications :=
                AssocMap.insert c.leader.replications target { replication with stream }
              replicationOut := c.leader.replicationOut ++ messages } }
  /-- A reply goes to its replication task. -/
  | deliver (address : Address) (res : AppendEntriesRes) (internal : List InternalMessage)
      (replication : Replication)
      (first : c.internal = .appendEntriesRes address res :: internal)
      (found : AssocMap.get? c.leader.replications address = some replication) :
      Act support event o c
        { c with
          internal
          leader.replications := AssocMap.insert c.leader.replications address
            { replication with
              stream.inbox := replication.stream.inbox ++ [.appendEntriesRes res] } }
  | popOut (message : ReplicationOutMessage) (replicationOut : List ReplicationOutMessage)
      (first : c.leader.replicationOut = message :: replicationOut) :
      Act support event o c { c with leader.replicationOut := replicationOut }
  | matched (address : Address) (matchIndex : Nat) (replication : Replication)
      (replicationOut : List ReplicationOutMessage)
      (first : c.leader.replicationOut = .updateMatchIndex address matchIndex :: replicationOut)
      (found : AssocMap.get? c.leader.replications address = some replication) :
      Act support event o c
        { c with
          leader :=
            { replications := AssocMap.insert c.leader.replications address
                { replication with matchIndex }
              replicationOut } }
  /-- A request of a replication task is sent, if the peer is known. -/
  | replicate (address : Address) (req : AppendEntriesReq) (replication : Replication)
      (replicationOut : List ReplicationOutMessage) (role : c.role = .leader)
      (state : c.state = .leader)
      (first : c.leader.replicationOut = .appendEntriesReq address req :: replicationOut)
      (found : AssocMap.get? c.leader.replications address = some replication) (peerId : PeerId)
      (known : AssocMap.get? c.knownValidators address = some peerId) :
      Act support event o c
        { c with
          nextRequestId := nextId c.nextRequestId
          out := (peerId, .appendEntriesReq { req with requestId := c.nextRequestId }) :: c.out
          leader :=
            { replications := AssocMap.insert c.leader.replications address
                { replication with
                  stream.inbox := replication.stream.inbox ++
                    [.appendEntriesReqResult (some c.nextRequestId)] }
              replicationOut } }
  | withhold (address : Address) (req : AppendEntriesReq) (replication : Replication)
      (replicationOut : List ReplicationOutMessage)
      (first : c.leader.replicationOut = .appendEntriesReq address req :: replicationOut)
      (found : AssocMap.get? c.leader.replications address = some replication) :
      Act support event o c
        { c with
          leader :=
            { replications := AssocMap.insert c.leader.replications address
                { replication with
                  stream.inbox := replication.stream.inbox ++
                    [.appendEntriesReqResult none] }
              replicationOut } }
  | regroup (replications : List (Address × Replication)) (authorities : List Address)
      (internal : List InternalMessage)
      (first : c.internal = .authoritiesUpdated authorities :: internal) :
      Act support event o c { c with internal, leader.replications := replications }
  /-- The request of a leader is followed: the commit index comes first. -/
  | follow (address : Address) (req : AppendEntriesReq)
      (receives : o.Receives event address (.appendEntriesReq req)) (start : c = o)
      (term : c.storage.currentTerm ≤ req.term) :
      Act support event o c
        { (c.note (.follow address req)).write
            (c.storage.updateCommitLogIndex req.commitLogIndex) with
          announcedBy := some (address, req.term) }.follower
  /-- A higher term is taken over from a message, with no vote. -/
  | newTerm (term : Nat) (calm : c.state ≠ .leader ∧ c.state ≠ .candidate)
      (higher : c.storage.currentTerm < term) :
      Act support event o c (c.writeTermVote term none)
  | vote (address : Address) (req : RequestVoteReq)
      (receives : o.Receives event address (.requestVoteReq req))
      (term : c.storage.currentTerm = req.term) (none_ : c.storage.currentVotedFor = none)
      (calm : c.state ≠ .leader ∧ c.state ≠ .candidate) :
      Act support event o c (c.write (c.storage.updateCurrentVotedFor (some address)))
  /-- A vote is granted, to the own address by a candidate. -/
  | grant (candidate : Address) (lastLog : Nat × Nat)
      (voted : c.storage.currentVotedFor = some candidate)
      (uptodate : c.storage.lastLog.1 ≤ lastLog.1 ∧ c.storage.lastLog.2 ≤ lastLog.2)
      (asked : (event = .election ∧ candidate = c.address ∧ lastLog = c.storage.lastLog) ∨
        ∃ req : RequestVoteReq, o.Receives event candidate (.requestVoteReq req) ∧
          req.term = c.storage.currentTerm ∧ lastLog = (req.lastLogIndex, req.lastLogTerm)) :
      Act support event o c (c.note (.grant candidate lastLog))
  | respondVote (peerId : PeerId) (address : Address) (req : RequestVoteReq)
      (res : RequestVoteRes) (message : event = .message peerId (some (.requestVoteReq req)))
      (peer : o.getPeerAddress peerId = some address) (id : res.requestId = req.requestId)
      (granted : res.voteGranted = true → ∃ r ∈ c.trace,
        r.action = .grant address (req.lastLogIndex, req.lastLogTerm) ∧
          r.storage.currentTerm = req.term) :
      Act support event o c { c with out := (peerId, .requestVoteRes res) :: c.out }
  /-- What comes after the previous entry of a request is deleted. -/
  | truncate (address : Address) (req : AppendEntriesReq)
      (follows : c.Follows o event address req) (logs : c.storage.logs = o.storage.logs)
      (exists_ : Stream.prevLogExists c.storage req = true)
      (next : req.entries.head?.map Entry.index = some (wrapAdd 64 req.prevLogIndex 1)) :
      Act support event o c
        (c.write (c.storage.deleteLogEntries (wrapAdd 64 req.prevLogIndex 1)))
  /-- The log has been compared with the one of the leader. -/
  | compare (address : Address) (req : AppendEntriesReq) (index : Nat)
      (kept : List ((Address × Nat) × Nat)) (follows : c.Follows o event address req) :
      Act support event o c { c with compared := ((address, req.term), index) :: kept }
  | extend (address : Address) (req : AppendEntriesReq)
      (follows : c.Follows o event address req)
      (next : req.entries.head?.map Entry.index = some (wrapAdd 64 req.prevLogIndex 1))
      (logs : (c.storage.logs = o.storage.logs ∧
          (req.prevLogIndex, req.prevLogTerm) = c.storage.lastLog) ∨
        (Stream.prevLogExists o.storage req = true ∧
          c.storage.logs =
            o.storage.logs.filter fun p => p.1 < wrapAdd 64 req.prevLogIndex 1)) :
      Act support event o c (c.write (c.storage.appendLogEntries req.entries))
  | proposal (proposal : Option Proposal) :
      Act support event o c (c.write (c.storage.updateProposal proposal))
  | report (lastLog : Nat × Nat)
      (position : lastLog = c.storage.lastLog ∨
        lastLog = (c.storage.baseLogIndex, c.storage.baseLogTerm)) :
      Act support event o c (c.note (.report lastLog))
  | respondAppend (peerId : PeerId) (address : Address) (req : AppendEntriesReq)
      (res : AppendEntriesRes)
      (message : event = .message peerId (some (.appendEntriesReq req)))
      (peer : o.getPeerAddress peerId = some address) (id : res.requestId = req.requestId)
      (term : req.term < res.term ∨ c.storage.currentTerm = req.term)
      (reported : c.trace.head? =
        some ⟨.report (res.lastLogIndex, res.lastLogTerm), c.storage⟩) :
      Act support event o c { c with out := (peerId, .appendEntriesRes res) :: c.out }
  /-- The block of the first proposal up to the commit index is committed. -/
  | commit (block : ConfirmedBlock) (start : c.storage = o.storage)
      (number : block.header.number = c.storage.chain.length + 1)
      (found : (Stream.committedBlockHash c.storage).isSome)
      (position : (block.proof.logIndex, block.proof.logTerm) = c.storage.lastLog) :
      Act support event o c
        ((c.note (.commit block.blockHash block.header.number)).write
          { c.storage with chain := block :: c.storage.chain })
  | sync (block : ConfirmedBlock) (learnt : event = .sync block) (start : c = o)
      (blockHash : Hash) :
      Act support event o c
        (c.write { c.storage with chain := { block with blockHash } :: c.storage.chain })
  | refresh (told : event = .blockCommitted) (start : c = o) :
      Act support event o c c.refresh
  | authorities (told : event = .blockCommitted) :
      Act support event o c
        { c with
          authorities :=
            support.getRaftAuthorities c.storage.chain c.storage.chain.length }
  | restart (told : event = .restart) : Act support event o c (c.restarted support)

/-- Acts one after the other. -/
abbrev Acts (support : Support) (event : Event) (o : Core) : Core → Core → Prop :=
  Relation.ReflTransGen (Act support event o)

end Finastate.Raft
