import Finastate.Library.AssocMap
import Finastate.Raft.Verifier

/-!
# The Raft stream

`stream.rs`: the state of a running node and the handlers that do not depend
on its role. A handler takes the stream and returns it with its result; an
error ends the handler but keeps what it has written. The clock, the executed
block and the transaction pool are read from an `Oracle`.

The fields at the end record a run and are never read by a handler: `trace`
(what the handlers decided, with the storage of the moment), `history` (the
chain and the database after every write), `announcedBy` (the leader that the
commit index comes from) and `compared` (up to where the log has been compared
with the log of a leader).
-/

namespace Finastate.Raft

open Consensus (HandlerError)

abbrev PeerId := Bytes

structure PeerInfo where
  localNonce : Nat
  remoteNonce : Nat
  address : Option Address
  deriving DecidableEq, Repr

inductive InternalMessage where
  | logUpdated
  | requestVoteRes (address : Address) (res : RequestVoteRes)
  | appendEntriesRes (address : Address) (res : AppendEntriesRes)
  | generate
  | authoritiesUpdated (authorities : List Address)
  deriving DecidableEq, Repr

inductive State where
  | leader
  | candidate
  | follower
  | observer
  | shutdown
  deriving DecidableEq, Repr

inductive ReplicationInMessage where
  | appendEntriesReqResult (requestId : Option Nat)
  | appendEntriesRes (res : AppendEntriesRes)
  deriving DecidableEq, Repr

inductive ReplicationOutMessage where
  | appendEntriesReq (address : Address) (req : AppendEntriesReq)
  | updateMatchIndex (address : Address) (matchIndex : Nat)
  | updateState (state : State)
  deriving DecidableEq, Repr

/-- The task that replicates the log to one node, with its queue. -/
structure ReplicationStream where
  matchIndex : Nat
  matchTerm : Nat
  requests : List Nat
  inbox : List ReplicationInMessage
  deriving DecidableEq, Repr

/-- The replication as the leader sees it, and the task behind it. -/
structure Replication where
  matchIndex : Nat
  stream : ReplicationStream
  deriving DecidableEq, Repr

/-- The fields of `LeaderState` beside the stream it borrows. -/
structure LeaderState where
  replications : List (Address × Replication)
  replicationOut : List ReplicationOutMessage
  deriving DecidableEq, Repr

def LeaderState.new : LeaderState where
  replications := []
  replicationOut := []

/-- The fields of `CandidateState`, with a record of the requests of the round
and of the votes that were counted. -/
structure CandidateState where
  votesGranted : Nat
  votesNeeded : Nat
  requests : List Nat
  asked : List (Nat × Address)
  voters : List Address
  deriving DecidableEq, Repr

def CandidateState.new : CandidateState where
  votesGranted := 0
  votesNeeded := 0
  requests := []
  asked := []
  voters := []

/-- What a handler decides: to vote for a candidate with the given last entry,
to lead, to append an entry of its own, to follow the request of a leader, to
report a position of its log, to raise the commit index as the leader, to
commit the block of an entry. -/
inductive Action where
  | grant (candidate : Address) (lastLog : Nat × Nat)
  | lead (voters : List Address)
  | append (entry : Entry)
  | follow (leader : Address) (req : AppendEntriesReq)
  | report (lastLog : Nat × Nat)
  | raise (commitLogIndex : Nat)
  | commit (blockHash : Hash) (number : BlockNumber)
  deriving DecidableEq, Repr

/-- An action and the storage it is taken on. -/
structure Record where
  action : Action
  storage : Storage
  deriving DecidableEq, Repr

/-- What is on disk after a write. -/
structure Snapshot where
  chain : Chain
  db : Db
  trace : List Record
  deriving DecidableEq, Repr

/-- `RaftStream`. Of an instant only its presence is kept, and what has to do
with the next election is left open. -/
structure Stream where
  secretKey : SecretKey
  publicKey : PublicKey
  address : Address
  out : List (PeerId × RaftMessage)
  peers : List (PeerId × PeerInfo)
  knownValidators : List (Address × PeerId)
  nextRequestId : Nat
  storage : Storage
  currentLeader : Option Address
  lastHeartbeat : Bool
  state : State
  /-- The state whose loop is running. -/
  role : State
  leader : LeaderState
  candidate : CandidateState
  authorities : List Address
  internal : List InternalMessage
  lastRequestProposal : Bool
  pendingProposal : Option Proposal
  commitBlockParams : Option CommitBlockParams
  /-- The blocks of the chain that the stream has not been told of yet. -/
  notices : Nat
  halted : Bool
  trace : List Record
  history : List Snapshot
  announcedBy : Option (Address × Nat)
  compared : List ((Address × Nat) × Nat)
  deriving DecidableEq, Repr

/-- What the code leaves open during one event. The transactions are the valid
ones of the pool. -/
structure Oracle where
  now : Nat
  heartbeatRecent : Bool
  requestProposalRecent : Bool
  executedNumber : BlockNumber
  metaTxs : List FullTransaction
  payloadTxs : List FullTransaction

namespace Stream

variable (support : Support) (oracle : Oracle)

/-! ## Records of the run -/

def note (s : Stream) (action : Action) : Stream :=
  { s with trace := { action, storage := s.storage } :: s.trace }

def setStorage (s : Stream) (storage : Storage) : Stream :=
  { s with
    storage
    history := { chain := storage.chain, db := storage.db, trace := s.trace } :: s.history }

/-! ## Messages out -/

/-- `request`: the message gets the next request id, which is returned. -/
def request (s : Stream) (peerId : PeerId) (message : Nat → RaftMessage) : Stream × Nat :=
  ({ s with
      nextRequestId := if s.nextRequestId + 1 < 2 ^ 64 then s.nextRequestId + 1 else 0
      out := (peerId, message s.nextRequestId) :: s.out },
    s.nextRequestId)

def response (s : Stream) (peerId : PeerId) (message : RaftMessage) : Stream :=
  { s with out := (peerId, message) :: s.out }

/-- `append_entries`, `request_vote` and `request_proposal`: a request to the
peer of a validator, if one is known. -/
def requestTo (s : Stream) (address : Address) (message : Nat → RaftMessage) :
    Stream × Option Nat :=
  match AssocMap.get? s.knownValidators address with
  | some peerId =>
      let (s, requestId) := s.request peerId message
      (s, some requestId)
  | none => (s, none)

def appendEntries (s : Stream) (address : Address) (req : AppendEntriesReq) :
    Stream × Option Nat :=
  s.requestTo address fun requestId => .appendEntriesReq { req with requestId }

def requestVote (s : Stream) (address : Address) (req : RequestVoteReq) :
    Stream × Option Nat :=
  s.requestTo address fun requestId => .requestVoteReq { req with requestId }

def requestProposal (s : Stream) (address : Address) (req : RequestProposalReq) :
    Stream × Option Nat :=
  s.requestTo address fun requestId => .requestProposalReq { req with requestId }

/-- `internal_tx.unbounded_send`. -/
def sendInternal (s : Stream) (message : InternalMessage) : Stream :=
  { s with internal := s.internal ++ [message] }

def getPeerAddress (s : Stream) (peerId : PeerId) : Option Address :=
  (AssocMap.get? s.peers peerId).bind PeerInfo.address

def registerValidator (s : Stream) (peerId : PeerId) : Stream :=
  match AssocMap.get? s.peers peerId with
  | none => s
  | some peerInfo =>
      let signature := support.basic.sign (.nonce peerInfo.remoteNonce) s.secretKey
      (s.request peerId fun requestId =>
        .registerValidatorReq { requestId, publicKey := s.publicKey, signature }).1

/-! ## State -/

/-- A node that is not an authority observes instead of following. -/
def updateState (s : Stream) (state : State) : Stream :=
  { s with
    state := if state = .follower ∧ s.address ∉ s.authorities then .observer else state }

/-- A new term and the vote in it, in two writes. -/
def updateTermVote (s : Stream) (currentTerm : Nat) (currentVotedFor : Option Address) :
    Stream :=
  let s := s.setStorage (s.storage.updateCurrentTerm currentTerm)
  s.setStorage (s.storage.updateCurrentVotedFor currentVotedFor)

/-! ## Proposals -/

/-- `on_proposal`, also for a pending proposal that is tried again: one that
passes is stored, with its block kept for the commit, and one that has to wait
becomes the pending one. -/
def onProposal (s : Stream) (proposal : Proposal) : Stream × Except HandlerError Unit :=
  match Verifier.verifyProposal support s.storage.chain oracle.executedNumber proposal with
  | .ok commitBlockParams =>
      ({ s with commitBlockParams := some commitBlockParams }.setStorage
        (s.storage.updateProposal (some proposal)), .ok ())
  | .error (.verifyError .shouldWait) =>
      ({ s with pendingProposal := some proposal }, .ok ())
  | .error (.verifyError _) => (s, .ok ())
  | .error (.other e) => (s, .error e)

/-! ## Append entries -/

/-- The position is the one that the leader is told the log ends at. -/
def reportLog (s : Stream) (req : AppendEntriesReq) (success : Bool) (term : Nat)
    (lastLog : Nat × Nat) : Stream × Except HandlerError AppendEntriesRes :=
  (s.note (.report lastLog),
    .ok
      { requestId := req.requestId
        success
        term
        lastLogIndex := lastLog.1
        lastLogTerm := lastLog.2 })

/-- The log up to an index has been compared with the one of the leader, and
what comes after it is gone. -/
def compare (s : Stream) (leader : Address × Nat) (index : Nat) : Stream :=
  { s with compared := (leader, index) :: s.compared.filter fun p => p.2 ≤ index }

/-- The proposals that are not for the block of the request are dropped. -/
def clearDiscordant (s : Stream) (blockHash : Hash) : Stream :=
  let s :=
    if s.storage.proposal.map Proposal.blockHash = some blockHash then s
    else s.setStorage (s.storage.updateProposal none)
  if s.pendingProposal.map Proposal.blockHash = some blockHash then s
  else { s with pendingProposal := none }

/-- A pending proposal is verified again. -/
def verifyPending (s : Stream) : Stream × Except HandlerError Unit :=
  match s.pendingProposal with
  | none => (s, .ok ())
  | some proposal => { s with pendingProposal := none }.onProposal support oracle proposal

/-- What was compared below the entries of a batch. -/
def forgetFrom (s : Stream) (entries : List Entry) : Stream :=
  { s with compared := s.compared.filter fun p => entries.all fun e => p.2 < e.index }

/-- The end of `perform_append_entries`. -/
def storeEntries (s : Stream) (address : Address) (req : AppendEntriesReq) :
    Stream × Except HandlerError AppendEntriesRes :=
  let s := s.setStorage (s.storage.appendLogEntries req.entries)
  let s := (s.forgetFrom req.entries).compare (address, req.term) s.storage.lastLog.1
  s.reportLog req true s.storage.currentTerm s.storage.lastLog

/-- The entries wait for the proposal, which is requested unless that has just
been done. -/
def awaitProposal (s : Stream) (address : Address) (req : AppendEntriesReq) :
    Stream × Except HandlerError AppendEntriesRes :=
  let requestProposalNow :=
    !(s.lastRequestProposal && oracle.requestProposalRecent) && s.pendingProposal.isNone
  let s :=
    if requestProposalNow then
      { (s.requestProposal address { requestId := 0 }).1 with lastRequestProposal := true }
    else s
  s.reportLog req false s.storage.currentTerm s.storage.lastLog

def performAppendEntries (s : Stream) (address : Address) (req : AppendEntriesReq) :
    Stream × Except HandlerError AppendEntriesRes :=
  match req.entries.findSome? Entry.proposed? with
  | none => s.storeEntries address req
  | some blockHash =>
      match (s.clearDiscordant blockHash).verifyPending support oracle with
      | (s, .error e) => (s, .error e)
      | (s, .ok ()) =>
          if s.storage.proposal.isSome then s.storeEntries address req
          else s.awaitProposal oracle address req

/-- What a request of a term that is not over does before the log is looked at. -/
def followLeader (s : Stream) (address : Address) (req : AppendEntriesReq) : Stream :=
  let s := s.note (.follow address req)
  let currentTerm := s.storage.currentTerm
  let s :=
    { s.setStorage (s.storage.updateCommitLogIndex req.commitLogIndex) with
      lastHeartbeat := true
      announcedBy := some (address, req.term) }
  let s := if req.term ≠ currentTerm then s.updateTermVote req.term none else s
  { s with currentLeader := some address }.updateState .follower

/-- The previous entry of the request is in the log, or it is the base. -/
def prevLogExists (storage : Storage) (req : AppendEntriesReq) : Bool :=
  ((storage.getLogEntries fun k => k = req.prevLogIndex).any fun e =>
      e.term = req.prevLogTerm) ||
    (req.prevLogIndex, req.prevLogTerm) = (storage.baseLogIndex, storage.baseLogTerm)

/-- `on_req_append_entries`; the term in a response is mostly the one from
before the request. -/
def onReqAppendEntries (s : Stream) (address : Address) (req : AppendEntriesReq) :
    Stream × Except HandlerError AppendEntriesRes :=
  let currentTerm := s.storage.currentTerm
  if req.term < currentTerm then s.reportLog req false currentTerm s.storage.lastLog
  else
    let s := s.followLeader address req
    match req.entries with
    | [] => s.reportLog req true currentTerm s.storage.lastLog
    | entry :: _ =>
        if entry.index ≠ wrapAdd 64 req.prevLogIndex 1 then
          s.reportLog req false currentTerm s.storage.lastLog
        else if (req.prevLogIndex, req.prevLogTerm) = s.storage.lastLog then
          (s.compare (address, req.term) req.prevLogIndex).performAppendEntries support oracle
            address req
        else if !prevLogExists s.storage req then
          s.reportLog req false currentTerm (s.storage.baseLogIndex, s.storage.baseLogTerm)
        else
          let s := s.setStorage
            (s.storage.deleteLogEntries (wrapAdd 64 req.prevLogIndex 1))
          (s.compare (address, req.term) req.prevLogIndex).performAppendEntries support oracle
            address req

/-! ## Votes -/

def onReqRequestVote (s : Stream) (address : Address) (req : RequestVoteReq) :
    Stream × RequestVoteRes :=
  let res (voteGranted : Bool) : RequestVoteRes :=
    { requestId := req.requestId, term := s.storage.currentTerm, voteGranted }
  if req.term < s.storage.currentTerm then (s, res false)
  else if s.lastHeartbeat && oracle.heartbeatRecent then (s, res false)
  else
    let s :=
      if s.storage.currentTerm < req.term then
        (s.updateState .follower).updateTermVote req.term none
      else s
    let (lastLogIndex, lastLogTerm) := s.storage.lastLog
    if req.lastLogIndex < lastLogIndex ∨ req.lastLogTerm < lastLogTerm then (s, res false)
    else
      match s.storage.currentVotedFor with
      | some votedAddress =>
          if votedAddress = address then
            (s.note (.grant address (req.lastLogIndex, req.lastLogTerm)), res true)
          else (s, res false)
      | none =>
          let s := s.updateState .follower
          let s := s.setStorage (s.storage.updateCurrentVotedFor (some address))
          (s.note (.grant address (req.lastLogIndex, req.lastLogTerm)), res true)

/-! ## Committing a block -/

/-- The transactions of a proposal with their hashes. -/
def convertTxs (txs : List Transaction) : List FullTransaction :=
  txs.map fun tx => { txHash := support.hashTransaction tx, tx }

/-- The hash of the first proposal of the log up to the commit index. -/
def committedBlockHash (storage : Storage) : Option Hash :=
  (storage.getLogEntries fun k => k ≤ storage.commitLogIndex).findSome? Entry.proposed?

/-- The kept params when they are for the block, else the block is built from
the stored proposal. -/
def takeCommitBlockParams (s : Stream) (blockHash : Hash) (proposal : Proposal) :
    Except Chain.ErrorKind CommitBlockParams :=
  match s.commitBlockParams.filter fun params => params.blockHash = blockHash with
  | some params => .ok params
  | none =>
      support.buildBlock s.storage.chain
        { number := proposal.number
          timestamp := proposal.timestamp
          metaTxs := convertTxs support proposal.metaTxs
          payloadTxs := convertTxs support proposal.payloadTxs
          executionNumber := proposal.executionNumber }

/-- `on_log_updated`; an error is logged by the loop. -/
def onLogUpdated (s : Stream) : Stream :=
  match committedBlockHash s.storage with
  | none => s
  | some blockHash =>
      match s.storage.proposal with
      | none => s
      | some proposal =>
          let params := s.takeCommitBlockParams support blockHash proposal
          let s := { s with commitBlockParams := none }
          match params with
          | .error _ => s
          | .ok params =>
              let (logIndex, logTerm) := s.storage.lastLog
              let proof := RaftProof.new support.basic params.blockHash logIndex logTerm
                s.secretKey
              match support.commitBlock s.storage.chain params proof with
              | .error _ => s
              | .ok chain =>
                  let s := s.note (.commit params.blockHash params.header.number)
                  { s.setStorage { s.storage with chain } with notices := s.notices + 1 }

def onInternalMessage (s : Stream) : InternalMessage → Stream
  | .logUpdated => s.onLogUpdated support
  | _ => s

/-- `refresh` writes up to four times. -/
def refresh (s : Stream) : Stream :=
  let chain := s.storage.chain
  { s with
    storage := Storage.refresh chain s.storage.db
    history := (Storage.refreshDbs chain s.storage.db).map
      (fun db => { chain, db, trace := s.trace }) ++ s.history }

def onBlockCommitted (s : Stream) : Stream :=
  let s := s.refresh
  let authorities := support.getRaftAuthorities s.storage.chain s.storage.chain.length
  if s.authorities ≠ authorities then
    { s with authorities }.sendInternal (.authoritiesUpdated authorities)
  else s

/-! ## Messages in -/

def onNetworkProtocolOpen (s : Stream) (peerId : PeerId) (localNonce remoteNonce : Nat) :
    Stream :=
  { s with
    peers := AssocMap.insert s.peers peerId
      { localNonce, remoteNonce, address := none } }.registerValidator support peerId

def onNetworkProtocolClose (s : Stream) (peerId : PeerId) : Stream :=
  { s with
    knownValidators :=
      match s.getPeerAddress peerId with
      | some address => AssocMap.erase s.knownValidators address
      | none => s.knownValidators
    peers := AssocMap.erase s.peers peerId }

/-- A key that the dsa has no verifier for is an error and not answered. -/
def onReqRegisterValidator (s : Stream) (peerId : PeerId) (req : RegisterValidatorReq) :
    Stream × Except HandlerError RegisterValidatorRes :=
  match AssocMap.get? s.peers peerId with
  | none => (s, .ok { requestId := req.requestId, success := false })
  | some peerInfo =>
      match support.verifierFromPublicKey req.publicKey with
      | .error e => (s, .error (.crypto e))
      | .ok () =>
          match support.basic.verify (.nonce peerInfo.localNonce) req.publicKey
              req.signature with
          | .error _ => (s, .ok { requestId := req.requestId, success := false })
          | .ok () =>
              let address := support.basic.address req.publicKey
              ({ s with
                  peers := AssocMap.insert s.peers peerId
                    { peerInfo with address := some address }
                  knownValidators := AssocMap.insert s.knownValidators address peerId },
                .ok { requestId := req.requestId, success := true })

/-- The first response, without the proposal, only moves the election timer of
the other node. -/
def onReqRequestProposal (s : Stream) (peerId : PeerId) (address : Address)
    (req : RequestProposalReq) : Stream :=
  match s.storage.proposal with
  | none => s
  | some proposal =>
      let s :=
        match AssocMap.get? s.knownValidators address with
        | some peerId =>
            s.response peerId (.requestProposalRes { requestId := 0, proposal := none })
        | none => s
      s.response peerId
        (.requestProposalRes { requestId := req.requestId, proposal := some proposal })

def onResRequestProposal (s : Stream) (res : RequestProposalRes) : Stream :=
  match res.proposal with
  | none => s
  | some proposal => (s.onProposal support oracle proposal).1

def onNetworkMessage (s : Stream) (peerId : PeerId) (message : RaftMessage) : Stream :=
  match message, s.getPeerAddress peerId with
  | .registerValidatorReq req, _ =>
      match s.onReqRegisterValidator support peerId req with
      | (s, .error _) => s
      | (s, .ok res) => s.response peerId (.registerValidatorRes res)
  | .appendEntriesReq req, some address =>
      match s.onReqAppendEntries support oracle address req with
      | (s, .error _) => s
      | (s, .ok res) =>
          (s.sendInternal .logUpdated).response peerId (.appendEntriesRes res)
  | .appendEntriesRes res, some address =>
      s.sendInternal (.appendEntriesRes address res)
  | .requestVoteReq req, some address =>
      let (s, res) := s.onReqRequestVote oracle address req
      s.response peerId (.requestVoteRes res)
  | .requestVoteRes res, some address =>
      s.sendInternal (.requestVoteRes address res)
  | .requestProposalReq req, some address => s.onReqRequestProposal peerId address req
  | .requestProposalRes res, some _ => s.onResRequestProposal support oracle res
  | _, _ => s

end Stream

end Finastate.Raft
