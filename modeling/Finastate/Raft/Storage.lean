import Finastate.Library.SortedMap
import Finastate.Consensus.Support
import Finastate.Raft.Protocol

/-!
# Chain and storage of a Raft node

What a node reads from the chain, and `storage.rs`: the term, the vote, the
commit index, the log and the proposal that survive a restart. The consensus
part of the database is the record `Db`, one field for each key; `Storage`
holds the values of the running node beside it. The entries up to the base are
those that the proof of the confirmed block stands for. A block proof is kept
decoded.
-/

namespace Finastate.Raft

/-- A confirmed block: what the chain keeps of it for consensus. -/
structure ConfirmedBlock where
  blockHash : Hash
  header : Header
  proof : RaftProof
  deriving DecidableEq, Repr

/-- The confirmed blocks above genesis, the newest first. -/
abbrev Chain := List ConfirmedBlock

instance : Consensus.Confirmed ConfirmedBlock where
  blockHash := ConfirmedBlock.blockHash
  header := ConfirmedBlock.header

/-- `ConsensusSupport`, with the authorities of the engine. `verifierFromPublicKey` is that
of the dsa, which some keys are malformed for. -/
structure Support extends Consensus.Support SigMessage ConfirmedBlock where
  verifierFromPublicKey : PublicKey → Except String Unit
  getAuthorities : Chain → List Address

namespace Support

variable (support : Support)

/-- `get_raft_authorities`: the authorities after the block of a number. -/
def getRaftAuthorities (chain : Chain) (number : BlockNumber) : List Address :=
  support.getAuthorities (chain.drop (chain.length - number))

/-- `commit_block` of the chain, with the decoded proof. -/
def commitBlock (chain : Chain) (params : CommitBlockParams) (proof : RaftProof) :
    Except Chain.ErrorKind Chain :=
  if (support.getHeader chain params.blockHash).isSome then
    .error (.commitBlockError .duplicated)
  else if params.header.number = chain.length + 1 ∧
      params.header.parentHash = support.confirmedBlockHash chain then
    .ok ({ blockHash := params.blockHash, header := params.header, proof } :: chain)
  else .error (.commitBlockError .notBest)

end Support

/-- The consensus data on disk. -/
structure Db where
  currentTerm : Option Nat
  currentVotedFor : Option (Option Address)
  commitLogIndex : Option Nat
  logs : Option (List (Nat × Entry))
  proposal : Option (Option Proposal)
  deriving DecidableEq, Repr

def Db.empty : Db where
  currentTerm := none
  currentVotedFor := none
  commitLogIndex := none
  logs := none
  proposal := none

/-- `Storage`, with the chain and the database it reaches through its support. -/
structure Storage where
  chain : Chain
  db : Db
  baseLogIndex : Nat
  baseLogTerm : Nat
  currentTerm : Nat
  currentVotedFor : Option Address
  commitLogIndex : Nat
  logs : List (Nat × Entry)
  proposal : Option Proposal
  deriving DecidableEq, Repr

namespace Storage

/-- `get_proof`: the log position of the confirmed block. -/
def basePosition : Chain → Nat × Nat
  | [] => (0, 0)
  | block :: _ => (block.proof.logIndex, block.proof.logTerm)

/-- The term on disk, raised to the one of the base. -/
def fixCurrentTerm (db : Db) (baseLogTerm : Nat) : Db :=
  if db.currentTerm.getD 0 < baseLogTerm then
    { db with currentTerm := some baseLogTerm, currentVotedFor := some none }
  else db

def fixCommitLogIndex (db : Db) (baseLogIndex : Nat) : Db :=
  if db.commitLogIndex.getD 0 < baseLogIndex then
    { db with commitLogIndex := some baseLogIndex }
  else db

/-- The log on disk, collected into a `BTreeMap`. -/
def collectLogs (db : Db) : List (Nat × Entry) := SortedMap.extend [] (db.logs.getD [])

/-- Drop the entries up to the base. -/
def fixLogs (db : Db) (baseLogIndex : Nat) : Db :=
  if (collectLogs db).any fun p => p.1 ≤ baseLogIndex then
    { db with logs := some ((collectLogs db).filter fun p => baseLogIndex < p.1) }
  else db

/-- An entry of the log is for the proposal. -/
def containedInLogs (logs : List (Nat × Entry)) (proposal : Option Proposal) : Bool :=
  logs.any fun p =>
    match p.2.proposed? with
    | some blockHash => proposal.map Proposal.blockHash = some blockHash
    | none => false

/-- Drop a proposal that no entry of the log is for. -/
def fixProposal (db : Db) : Db :=
  if containedInLogs (collectLogs db) (db.proposal.getD none) then db
  else { db with proposal := some none }

/-- The databases that `refresh` leaves one after the other, the last one first. -/
def refreshDbs (chain : Chain) (db : Db) : List Db :=
  let (baseLogIndex, baseLogTerm) := basePosition chain
  let db1 := fixCurrentTerm db baseLogTerm
  let db2 := fixCommitLogIndex db1 baseLogIndex
  let db3 := fixLogs db2 baseLogIndex
  let db4 := fixProposal db3
  [db4, db3, db2, db1]

/-- `Storage::refresh`: the values are read back from the repaired database. -/
def refresh (chain : Chain) (db : Db) : Storage :=
  let (baseLogIndex, baseLogTerm) := basePosition chain
  let db := (refreshDbs chain db).headD db
  { chain
    db
    baseLogIndex
    baseLogTerm
    currentTerm := db.currentTerm.getD 0
    currentVotedFor := db.currentVotedFor.getD none
    commitLogIndex := db.commitLogIndex.getD 0
    logs := collectLogs db
    proposal := db.proposal.getD none }

/-- `get_last_log_index_term`. -/
def lastLog (storage : Storage) : Nat × Nat :=
  match storage.logs.getLast? with
  | some p => (p.2.index, p.2.term)
  | none => (storage.baseLogIndex, storage.baseLogTerm)

def updateCurrentTerm (storage : Storage) (currentTerm : Nat) : Storage :=
  { storage with db := { storage.db with currentTerm := some currentTerm }, currentTerm }

def updateCurrentVotedFor (storage : Storage) (currentVotedFor : Option Address) : Storage :=
  { storage with
    db := { storage.db with currentVotedFor := some currentVotedFor }
    currentVotedFor }

def updateCommitLogIndex (storage : Storage) (commitLogIndex : Nat) : Storage :=
  { storage with
    db := { storage.db with commitLogIndex := some commitLogIndex }
    commitLogIndex }

/-- `get_log_entries` of the keys that satisfy a condition. -/
def getLogEntries (storage : Storage) (range : Nat → Bool) : List Entry :=
  (storage.logs.filter fun p => range p.1).map Prod.snd

def setLogs (storage : Storage) (logs : List (Nat × Entry)) : Storage :=
  { storage with db := { storage.db with logs := some logs }, logs }

def appendLogEntries (storage : Storage) (entries : List Entry) : Storage :=
  storage.setLogs (SortedMap.extend storage.logs (entries.map fun e => (e.index, e)))

/-- `delete_log_entries` from a key on. -/
def deleteLogEntries (storage : Storage) (start : Nat) : Storage :=
  storage.setLogs (storage.logs.filter fun p => p.1 < start)

def updateProposal (storage : Storage) (proposal : Option Proposal) : Storage :=
  { storage with db := { storage.db with proposal := some proposal }, proposal }

end Storage

end Finastate.Raft
