import Finastate.Library.AssocMap
import Finastate.Consensus.Support
import Finastate.Hotstuff.Certificate

/-!
# Chain and storage of a HotStuff node

What a node reads from the chain, and `storage.rs`: the view, the two
certificates and the proposals that survive a restart. The consensus part of
the database is the record `Db`, one field for each key; `Storage` holds the
values of the running node beside it. A block proof is kept as the commit
certificate it encodes.
-/

namespace Finastate.Hotstuff

/-- A confirmed block: what the chain keeps of it for consensus. -/
structure ConfirmedBlock where
  blockHash : Hash
  header : Header
  commitQc : QC
  deriving DecidableEq, Repr

/-- The confirmed blocks above genesis, the newest first. -/
abbrev Chain := List ConfirmedBlock

instance : Consensus.Confirmed ConfirmedBlock where
  blockHash := ConfirmedBlock.blockHash
  header := ConfirmedBlock.header

/-- `ConsensusSupport`, with the authorities of the engine. -/
structure Support extends Consensus.Support SigMessage ConfirmedBlock where
  getAuthorities : Chain → Authorities

namespace Support

variable (support : Support)

@[simp] theorem confirmedBlockHash_cons (block : ConfirmedBlock) (chain : Chain) :
    support.confirmedBlockHash (block :: chain) = block.blockHash := rfl

/-- `get_hotstuff_authorities`: the authorities after the block of a number. -/
def getHotstuffAuthorities (chain : Chain) (number : BlockNumber) : Authorities :=
  aggregateAuthorities (support.getAuthorities (chain.drop (chain.length - number)))

/-- `commit_block` of the chain, with the certificate of the proof. -/
def commitBlock (chain : Chain) (params : CommitBlockParams) (commitQc : QC) :
    Except Chain.ErrorKind Chain :=
  if (support.getHeader chain params.blockHash).isSome then
    .error (.commitBlockError .duplicated)
  else if params.header.number = chain.length + 1 ∧
      params.header.parentHash = support.confirmedBlockHash chain then
    .ok ({ blockHash := params.blockHash, header := params.header, commitQc } :: chain)
  else .error (.commitBlockError .notBest)

end Support

/-- The consensus data on disk. -/
structure Db where
  view : Option Nat
  prepareQc : Option QC
  lockedQc : Option QC
  nodes : Option (List (Hash × Node))
  proposals : Option (List (Hash × Node))
  /-- The bodies, stored under `proposal_` and the block hash. -/
  proposal : List (Hash × Proposal)
  deriving DecidableEq, Repr

def Db.empty : Db where
  view := none
  prepareQc := none
  lockedQc := none
  nodes := none
  proposals := none
  proposal := []

/-- `Storage`, with the chain and the database it reaches through its support. -/
structure Storage where
  chain : Chain
  db : Db
  baseCommitQc : QC
  baseBlockHash : Hash
  view : Nat
  prepareQc : QC
  lockedQc : QC
  nodes : List (Hash × Node)
  proposals : List (Hash × Node)
  deriving DecidableEq, Repr

/-- `get_genesis_qc`; indexing an empty authority list panics. -/
def getGenesisQc (support : Support) (chain : Chain) : Option QC :=
  match (support.getHotstuffAuthorities chain 0).members with
  | [] => none
  | member :: _ =>
      some
        { messageType := .decide
          view := 0
          node := { parentHash := ⟨[]⟩, blockHash := support.genesisHash }
          leaderAddress := member.1
          sig := [] }

/-- Collecting a vector of pairs into a `HashMap`. -/
def collectMap (entries : List (Hash × Node)) : List (Hash × Node) :=
  entries.foldl (fun m p => AssocMap.insert m p.1 p.2) []

namespace Storage

/-- The commit certificate of the confirmed block. -/
def confirmedQc (genesisQc : QC) : Chain → QC
  | [] => genesisQc
  | block :: _ => block.commitQc

/-- The view on disk, raised above the committed one. -/
def fixView (db : Db) (baseCommitQc : QC) : Db × Nat :=
  let view := db.view.getD 0
  if view < wrapAdd 64 baseCommitQc.view 1 then
    ({ db with view := some (wrapAdd 64 baseCommitQc.view 1) },
      wrapAdd 64 baseCommitQc.view 1)
  else (db, view)

def fixPrepareQc (db : Db) (genesisQc baseCommitQc : QC) : Db × QC :=
  let prepareQc := db.prepareQc.getD genesisQc
  if prepareQc.view ≤ baseCommitQc.view then
    ({ db with prepareQc := some baseCommitQc }, baseCommitQc)
  else (db, prepareQc)

def fixLockedQc (db : Db) (genesisQc baseCommitQc : QC) : Db × QC :=
  let lockedQc := db.lockedQc.getD genesisQc
  if lockedQc.view ≤ baseCommitQc.view then
    ({ db with lockedQc := some baseCommitQc }, baseCommitQc)
  else (db, lockedQc)

/-- Drop the nodes that do not extend the base block. -/
def fixNodes (db : Db) (baseBlockHash : Hash) : Db × List (Hash × Node) :=
  let all := collectMap (db.nodes.getD [])
  let nodes := all.filter fun p => p.2.parentHash = baseBlockHash
  if all.any fun p => p.2.parentHash ≠ baseBlockHash then
    ({ db with nodes := some nodes }, nodes)
  else (db, nodes)

/-- Drop the proposals that do not extend the base block, with their bodies.
The index that is written back is the one of the nodes. -/
def fixProposals (db : Db) (nodes : List (Hash × Node)) (baseBlockHash : Hash) :
    Db × List (Hash × Node) :=
  let all := collectMap (db.proposals.getD [])
  let toRemove := (all.filter fun p => p.2.parentHash ≠ baseBlockHash).map Prod.fst
  let db := { db with proposal := toRemove.foldl AssocMap.erase db.proposal }
  let proposals := all.filter fun p => p.2.parentHash = baseBlockHash
  if toRemove.isEmpty then (db, proposals) else ({ db with nodes := some nodes }, proposals)

/-- `Storage::refresh`; nothing is returned when reading the genesis
certificate panics. -/
def refresh (support : Support) (chain : Chain) (db : Db) : Option Storage :=
  match getGenesisQc support chain with
  | none => none
  | some genesisQc =>
      let baseCommitQc := confirmedQc genesisQc chain
      let baseBlockHash := support.confirmedBlockHash chain
      let (db, view) := fixView db baseCommitQc
      let (db, prepareQc) := fixPrepareQc db genesisQc baseCommitQc
      let (db, lockedQc) := fixLockedQc db genesisQc baseCommitQc
      let (db, nodes) := fixNodes db baseBlockHash
      let (db, proposals) := fixProposals db nodes baseBlockHash
      some
        { chain, db, baseCommitQc, baseBlockHash, view, prepareQc, lockedQc, nodes,
          proposals }

/-- `Storage::new` only reads what `refresh` writes. -/
def new (support : Support) (chain : Chain) (db : Db) : Option Storage :=
  refresh support chain db

def updateView (storage : Storage) (view : Nat) : Storage :=
  { storage with db := { storage.db with view := some view }, view }

def updatePrepareQc (storage : Storage) (prepareQc : QC) : Storage :=
  { storage with db := { storage.db with prepareQc := some prepareQc }, prepareQc }

def updateLockedQc (storage : Storage) (lockedQc : QC) : Storage :=
  { storage with db := { storage.db with lockedQc := some lockedQc }, lockedQc }

def getProposal (storage : Storage) (blockHash : Hash) : Option Proposal :=
  AssocMap.get? storage.db.proposal blockHash

def putProposal (storage : Storage) (proposal : Proposal) : Storage :=
  let node : Node := { blockHash := proposal.blockHash, parentHash := proposal.parentHash }
  let proposals := AssocMap.insert storage.proposals node.blockHash node
  { storage with
    proposals
    db :=
      { storage.db with
        proposals := some proposals
        proposal := AssocMap.insert storage.db.proposal proposal.blockHash proposal } }

end Storage

end Finastate.Hotstuff
