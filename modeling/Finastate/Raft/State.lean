import Mathlib.Data.List.Sort
import Finastate.Raft.Stream

/-!
# The states of a Raft node

`stream/state.rs`: the leader with its replication tasks, the candidate, the
follower and the observer, and the loop that runs them. A replication task has
its own queue and is scheduled like the loop; one of its steps reads the
storage at once.
-/

namespace Finastate.Raft

namespace LeaderState

variable (support : Support) (oracle : Oracle)

/-- `get_new_commit_log_index`: the highest index that more than half of the
indices reach. -/
def getNewCommitLogIndex (matchIndices : List Nat) (oldCommitLogIndex : Nat) : Nat :=
  let sorted := matchIndices.insertionSort (· ≥ ·)
  max (sorted.getD (sorted.length / 2) 0) oldCommitLogIndex

def onMaybeCommit (s : Stream) : Stream :=
  let matchIndices := s.leader.replications.map fun p => p.2.matchIndex
  let newCommitLogIndex :=
    getNewCommitLogIndex (matchIndices ++ [s.storage.lastLog.1]) s.storage.commitLogIndex
  if newCommitLogIndex ≠ s.storage.commitLogIndex then
    let s := s.note (.raise newCommitLogIndex)
    { s.setStorage (s.storage.updateCommitLogIndex newCommitLogIndex) with
      announcedBy := none }.sendInternal .logUpdated
  else s

def onUpdateMatchIndex (s : Stream) (address : Address) (matchIndex : Nat) : Stream :=
  let s :=
    match AssocMap.get? s.leader.replications address with
    | some replication =>
        { s with
          leader.replications :=
            AssocMap.insert s.leader.replications address { replication with matchIndex } }
    | none => s
  onMaybeCommit s

/-- `append_entries` with the one entry it is always called with. -/
def appendEntry (s : Stream) (data : EntryData) : Stream :=
  let entry : Entry :=
    { term := s.storage.currentTerm, index := wrapAdd 64 s.storage.lastLog.1 1, data }
  let s := s.note (.append entry)
  let s := s.setStorage (s.storage.appendLogEntries [entry])
  if s.leader.replications.isEmpty then onUpdateMatchIndex s s.address s.storage.lastLog.1
  else s

/-- `prepare_block` of the support. -/
def prepareBlock (chain : Chain) (timestamp : Nat) :
    Except Consensus.HandlerError BuildBlockParams :=
  let number := chain.length + 1
  let gap := Int.bmod (wrapSub 64 number oracle.executedNumber) (2 ^ 8)
  if support.maxExecutionGap chain < gap then
    .error (.data (Chain.gapExceeds gap (support.maxExecutionGap chain)))
  else
    .ok { number, timestamp, metaTxs := oracle.metaTxs, payloadTxs := oracle.payloadTxs,
          executionNumber := oracle.executedNumber }

/-- `work`; an error is logged by the loop. -/
def work (s : Stream) (timestamp : Nat) : Stream :=
  if s.storage.logs.any fun p => p.2.proposed?.isSome then s
  else
    match prepareBlock support oracle s.storage.chain timestamp with
    | .error _ => s
    | .ok params =>
        match support.buildBlock s.storage.chain params with
        | .error _ => s
        | .ok commitBlockParams =>
            let proposal : Proposal :=
              { blockHash := commitBlockParams.blockHash
                number := params.number
                timestamp := params.timestamp
                metaTxs := params.metaTxs.map FullTransaction.tx
                payloadTxs := params.payloadTxs.map FullTransaction.tx
                executionNumber := params.executionNumber }
            let s := { s with commitBlockParams := some commitBlockParams }
            let s := s.setStorage (s.storage.updateProposal (some proposal))
            appendEntry s (.proposal commitBlockParams.blockHash)

/-! ## Replications -/

/-- `Replication::new`: the base of the leader is where a replication starts. -/
def newReplication (storage : Storage) : Replication where
  matchIndex := storage.baseLogIndex
  stream :=
    { matchIndex := storage.baseLogIndex, matchTerm := storage.baseLogTerm, requests := []
      inbox := [] }

/-- Replications to the targets that are not there yet. -/
def addReplications (s : Stream) (targets : List Address) : Stream :=
  { s with
    leader.replications := targets.foldl (fun m target =>
      if target = s.address ∨ (AssocMap.get? m target).isSome then m
      else AssocMap.insert m target (newReplication s.storage)) s.leader.replications }

def onAuthoritiesUpdated (s : Stream) (authorities : List Address) : Stream :=
  if s.address ∉ authorities then s.updateState .observer
  else
    addReplications
      { s with
        leader.replications := s.leader.replications.filter fun p => p.1 ∈ authorities }
      authorities

/-- Put a message into the queue of a replication task. -/
def sendReplicationIn (s : Stream) (address : Address) (message : ReplicationInMessage) :
    Stream :=
  match AssocMap.get? s.leader.replications address with
  | some replication =>
      { s with
        leader.replications := AssocMap.insert s.leader.replications address
          { replication with
            stream.inbox := replication.stream.inbox ++ [message] } }
  | none => s

def onAppendEntriesRes (s : Stream) (address : Address) (res : AppendEntriesRes) : Stream :=
  sendReplicationIn s address (.appendEntriesRes res)

def onReplicationOutMessage (s : Stream) : ReplicationOutMessage → Stream
  | .appendEntriesReq address req =>
      match AssocMap.get? s.leader.replications address with
      | some _ =>
          let (s, requestId) := s.appendEntries address req
          sendReplicationIn s address (.appendEntriesReqResult requestId)
      | none => s
  | .updateMatchIndex address matchIndex => onUpdateMatchIndex s address matchIndex
  | .updateState state => s.updateState state

/-- `start` up to the loop. -/
def start (s : Stream) : Stream :=
  let s := s.note (.lead s.candidate.voters)
  let s := addReplications { s with role := .leader, leader := LeaderState.new } s.authorities
  let s := { s with lastHeartbeat := false, currentLeader := some s.address }
  appendEntry s .blank

end LeaderState

namespace ReplicationStream

/-- A step of the replication task to a node. -/
def update (s : Stream) (address : Address)
    (f : ReplicationStream → ReplicationStream × List ReplicationOutMessage) : Stream :=
  match AssocMap.get? s.leader.replications address with
  | some replication =>
      let (stream, messages) := f replication.stream
      { s with
        leader :=
          { replications :=
              AssocMap.insert s.leader.replications address { replication with stream }
            replicationOut := s.leader.replicationOut ++ messages } }
  | none => s

def onAppendEntriesRes (storage : Storage) (target : Address) (r : ReplicationStream)
    (res : AppendEntriesRes) : ReplicationStream × List ReplicationOutMessage :=
  if res.requestId ∉ r.requests then (r, [])
  else
    let r := { r with requests := r.requests.filter fun id => id ≠ res.requestId }
    if storage.currentTerm < res.term then (r, [.updateState .follower])
    else
      ({ r with matchIndex := res.lastLogIndex, matchTerm := res.lastLogTerm },
        if res.lastLogIndex ≠ r.matchIndex then
          [.updateMatchIndex target res.lastLogIndex]
        else [])

def onInMessage (storage : Storage) (target : Address) (r : ReplicationStream) :
    ReplicationStream × List ReplicationOutMessage :=
  match r.inbox with
  | [] => (r, [])
  | message :: inbox =>
      let r := { r with inbox }
      match message with
      | .appendEntriesReqResult (some requestId) =>
          ({ r with requests := requestId :: r.requests }, [])
      | .appendEntriesReqResult none => (r, [])
      | .appendEntriesRes res => onAppendEntriesRes storage target r res

def replicate (storage : Storage) (target : Address) (r : ReplicationStream) :
    ReplicationStream × List ReplicationOutMessage :=
  let lastLogIndex := storage.lastLog.1
  let entries :=
    if r.matchIndex < lastLogIndex then
      storage.getLogEntries fun k => r.matchIndex < k ∧ k ≤ lastLogIndex
    else []
  (r, [.appendEntriesReq target
    { requestId := 0
      term := storage.currentTerm
      prevLogIndex := r.matchIndex
      prevLogTerm := r.matchTerm
      commitLogIndex := storage.commitLogIndex
      entries }])

end ReplicationStream

namespace CandidateState

def onMaybeBecomeLeader (s : Stream) : Stream :=
  if s.candidate.votesNeeded ≤ s.candidate.votesGranted then s.updateState .leader else s

/-- One request; its id is remembered. -/
def requestVoteFrom (term : Nat) (lastLog : Nat × Nat) (s : Stream) (address : Address) :
    Stream :=
  let (s, requestId) := s.requestVote address
    { requestId := 0, term, lastLogIndex := lastLog.1, lastLogTerm := lastLog.2 }
  match requestId with
  | some requestId =>
      { s with
        candidate.requests := requestId :: s.candidate.requests
        candidate.asked := (requestId, address) :: s.candidate.asked }
  | none => s

def requestVote (s : Stream) : Stream :=
  let targets := s.authorities.filter fun address => address ≠ s.address
  if targets.isEmpty then onMaybeBecomeLeader s
  else targets.foldl (requestVoteFrom s.storage.currentTerm s.storage.lastLog) s

/-- A round of `start` up to the loop. -/
def start (s : Stream) : Stream :=
  let s :=
    { s with
      role := .candidate
      currentLeader := none
      candidate :=
        { votesGranted := 1, votesNeeded := s.authorities.length / 2 + 1, requests := []
          asked := [], voters := [] } }
  let s := s.updateTermVote (wrapAdd 64 s.storage.currentTerm 1) (some s.address)
  requestVote (s.note (.grant s.address s.storage.lastLog))

def onResRequestVote (s : Stream) (address : Address) (res : RequestVoteRes) : Stream :=
  if res.requestId ∉ s.candidate.requests then s
  else
    let s :=
      { s with
        candidate.requests := s.candidate.requests.filter fun id => id ≠ res.requestId }
    if s.storage.currentTerm < res.term then
      ({ s with currentLeader := none }.updateState .follower).updateTermVote res.term none
    else if res.voteGranted then
      let s :=
        if address ∈ s.authorities then
          { s with
            candidate.votesGranted := s.candidate.votesGranted + 1
            candidate.voters := address :: s.candidate.voters }
        else s
      onMaybeBecomeLeader s
    else s

end CandidateState

/-- `on_authorities_updated` of the candidate and the follower. -/
def FollowerState.onAuthoritiesUpdated (s : Stream) (authorities : List Address) : Stream :=
  if s.address ∉ authorities then s.updateState .observer else s

def ObserverState.onAuthoritiesUpdated (s : Stream) (authorities : List Address) : Stream :=
  if s.address ∈ authorities then s.updateState .follower else s

/-- What the loops wait for, a restart of the node, and a block that the
coordinator commits. A network message is `none` when it does not decode. -/
inductive Event where
  | election
  | schedule (timestamp : Nat)
  | internal
  | replicationOut
  | replicate (target : Address)
  | replicationIn (target : Address)
  | open (peerId : PeerId) (localNonce remoteNonce : Nat)
  | close (peerId : PeerId)
  | message (peerId : PeerId) (message : Option RaftMessage)
  | blockCommitted
  | generate
  | shutdown
  | restart
  | sync (block : ConfirmedBlock)
  deriving DecidableEq, Repr

namespace Stream

variable (support : Support) (oracle : Oracle)

/-- A message of the task itself, as the loop of the state handles it. -/
def handleInternal (s : Stream) (message : InternalMessage) : Stream :=
  match s.role, message with
  | .leader, .appendEntriesRes address res => LeaderState.onAppendEntriesRes s address res
  | .leader, .generate => LeaderState.work support oracle s oracle.now
  | .leader, .authoritiesUpdated authorities => LeaderState.onAuthoritiesUpdated s authorities
  | .candidate, .requestVoteRes address res => CandidateState.onResRequestVote s address res
  | .candidate, .authoritiesUpdated authorities =>
      FollowerState.onAuthoritiesUpdated s authorities
  | .follower, .authoritiesUpdated authorities =>
      FollowerState.onAuthoritiesUpdated s authorities
  | .observer, .authoritiesUpdated authorities =>
      ObserverState.onAuthoritiesUpdated s authorities
  | _, message => s.onInternalMessage support message

/-- One event of the loop of the running state; a restart and a synced block do
not go through it. -/
def handle (s : Stream) : Event → Stream
  | .election =>
      match s.role with
      | .follower => s.updateState .candidate
      | .candidate => CandidateState.start s
      | _ => s
  | .schedule timestamp =>
      match s.role with
      | .leader => LeaderState.work support oracle s timestamp
      | _ => s
  | .internal =>
      match s.internal with
      | [] => s
      | message :: internal => { s with internal }.handleInternal support oracle message
  | .replicationOut =>
      match s.role, s.leader.replicationOut with
      | .leader, message :: replicationOut =>
          LeaderState.onReplicationOutMessage { s with leader.replicationOut := replicationOut }
            message
      | _, _ => s
  | .replicate target =>
      match s.role with
      | .leader =>
          ReplicationStream.update s target (ReplicationStream.replicate s.storage target)
      | _ => s
  | .replicationIn target =>
      match s.role with
      | .leader =>
          ReplicationStream.update s target (ReplicationStream.onInMessage s.storage target)
      | _ => s
  | .open peerId localNonce remoteNonce =>
      s.onNetworkProtocolOpen support peerId localNonce remoteNonce
  | .close peerId => s.onNetworkProtocolClose peerId
  | .message _ none => s
  | .message peerId (some message) => s.onNetworkMessage support oracle peerId message
  | .blockCommitted =>
      if s.notices = 0 then s
      else { s with notices := s.notices - 1 }.onBlockCommitted support
  | .generate => s.sendInternal .generate
  | .shutdown => s.updateState .shutdown
  | .restart => s
  | .sync _ => s

/-- The loop of `start`: when the state has changed, the new one is started. -/
def enter (s : Stream) : Stream :=
  if s.state = s.role then s
  else
    match s.state with
    | .leader => LeaderState.start s
    | .candidate =>
        let s := CandidateState.start s
        if s.state = .leader then LeaderState.start s else s
    | .follower => { s with role := .follower }
    | .observer => { s with role := .observer, currentLeader := none }
    | .shutdown => { s with role := .shutdown, halted := true }

/-- `spawn` and the start of the loop, on the chain and the database that are
there. -/
def spawn (s : Stream) : Stream :=
  let s := s.refresh
  let s :=
    { s with
      peers := []
      knownValidators := []
      nextRequestId := 0
      currentLeader := none
      lastHeartbeat := false
      state := .observer
      role := .shutdown
      leader := LeaderState.new
      candidate := CandidateState.new
      authorities := support.getRaftAuthorities s.storage.chain s.storage.chain.length
      internal := []
      lastRequestProposal := false
      pendingProposal := none
      commitBlockParams := none
      notices := 0
      halted := false }
  (s.updateState .follower).enter

/-- A block that the coordinator commits: its proof has the key of an
authority. -/
def syncBlock (s : Stream) (block : ConfirmedBlock) : Stream :=
  if support.basic.address block.proof.publicKey ∈
      support.getRaftAuthorities s.storage.chain (wrapSub 64 block.header.number 1) then
    match support.commitBlock s.storage.chain
        { blockHash := support.basic.hash block.header
          header := block.header
          body := { metaTxs := [], payloadTxs := [] }
          proof := { name := "", data := [] } } block.proof with
    | .ok chain =>
        { s.setStorage { s.storage with chain } with notices := s.notices + 1 }
    | .error _ => s
  else s

/-- One event, and the start of the next state when it has changed. A node that
has stopped only restarts. -/
def step (s : Stream) : Event → Stream
  | .restart => s.spawn support
  | .sync block => s.syncBlock support block
  | event => if s.halted then s else (s.handle support oracle event).enter

/-- The writes of an event, the last one first. -/
def writes (s : Stream) (event : Event) : List Snapshot :=
  let history := (s.step support oracle event).history
  history.take (history.length - s.history.length)

/-- The process stops when all but the last `k` writes of an event are done. What
an event sends comes after its writes. -/
def stopped (s : Stream) (event : Event) (k : Nat) : Stream :=
  match (s.writes support oracle event).drop k with
  | [] => s
  | snapshot :: rest =>
      { s with
        history := snapshot :: rest ++ s.history
        trace := snapshot.trace
        storage := { s.storage with chain := snapshot.chain, db := snapshot.db } }

/-- The process stops during an event and restarts from what is on disk. -/
def crash (s : Stream) (event : Event) (k : Nat) : Stream :=
  (s.stopped support oracle event k).spawn support

end Stream

end Finastate.Raft
