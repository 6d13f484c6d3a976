import Finastate.Chain.Cache
import Finastate.Sync.ChainSync

/-!
# ChainSync and the chain

ChainSync handles one event after the other, and meanwhile the consensus engine
and the task loop commit blocks and executions. `Control` is where a handler
stands. Between two of its steps anything may be committed, and each step reads
the current state at most once. A commit raises the confirmed number at once,
while its message to ChainSync waits in the queue of the chain.
-/

namespace Finastate.Sync

open Chain Executor Relation
open Coordinator (BlockData)

/-- `ChainOutMessage`. -/
inductive ChainOutMessage where
  | blockCommitted (number : BlockNumber) (hash : Hash)
  | executionCommitted (number : BlockNumber) (hash : Hash)
  deriving DecidableEq, Repr

/-- What a handler does next, with what it has read. -/
inductive Control where
  | idle
  /-- `on_block_committed` has removed the block. -/
  | committed (number : BlockNumber) (blockHash : Hash) (oldLatency : BlockNumber)
  /-- `maintain_downloaded` starts. -/
  | downloaded
  /-- `maintain_downloaded` takes the first pending block. -/
  | picking (oldLatency : BlockNumber)
  | verifying (oldLatency number : BlockNumber) (source : PeerId) (blockData : BlockData)
  | committing (oldLatency number : BlockNumber) (source : PeerId) (blockData : BlockData)
      (params : ChainCommitBlockParams)
  /-- `maintain_downloaded` is out of its loop. -/
  | verified (oldLatency : BlockNumber)
  /-- `maintain_new` starts. -/
  | new
  | appending (maxPendingNumber maxToAppend : BlockNumber)
  | appended (oldLatency : BlockNumber)
  /-- `maintain_seen` starts. -/
  | seen

instance (control : Control) : Decidable (control = .idle) :=
  match control with
  | .idle => isTrue rfl
  | .committed .. | .downloaded | .picking .. | .verifying .. | .committing .. | .verified ..
  | .new | .appending .. | .appended .. | .seen => isFalse nofun

/-- The block that is taken out of the pending blocks. -/
def Control.inHand : Control → List (BlockNumber × PendingBlockState)
  | verifying _ number source blockData | committing _ number source blockData _ =>
      [(number, .downloaded source blockData)]
  | _ => []

structure System where
  db : DB
  current : CurrentState
  messages : List ChainOutMessage
  sync : ChainSync
  control : Control

/-- What happens next. `advance` is the next step of the handler, `reorder` gives
the hash map of the peers another order. -/
inductive Event where
  | open (peerId : PeerId) (nonce : Nat) (handshake : Handshake)
  | close (peerId : PeerId)
  | announce (peerId : PeerId) (announce : BlockAnnounce)
  | timeout (peerId : PeerId) (requestId : RequestId)
  | response (peerId : PeerId) (response : BlockResponse)
  | message
  | advance (now : Nat)
  | commitBlock (now : Nat) (params : ChainCommitBlockParams)
  | commitExecution (now : Nat) (params : ChainCommitExecutionParams)
  | reorder (peers : List (PeerId × PeerInfo))

namespace System

section Next

variable (backend : Backend)
  (consensusVerifyProof : StateMap → Header → Proof → Except Consensus.ErrorKind Unit)
  (s : System)

/-- `latency`, with the confirmed number as it is now. -/
def latency : BlockNumber := s.sync.latency s.current.confirmedNumber

/-- A commit of a block: the current state follows if it can be built, and then
the message is sent. -/
def commitBlock (now : Nat) (params : ChainCommitBlockParams) : System :=
  match backend.commitBlock s.db now params, backend.updateCurrentState
      (backend.commitBlock s.db now params).1 now with
  | (db, .ok ()), .ok current =>
      { s with
        db := db
        current := current
        messages := s.messages ++ [.blockCommitted params.header.number params.blockHash] }
  | (db, _), _ => { s with db := db }

def commitExecution (now : Nat) (params : ChainCommitExecutionParams) : System :=
  match backend.updateCurrentState (s.db.commitExecution params) now with
  | .ok current =>
      { s with
        db := s.db.commitExecution params
        current := current
        messages := s.messages ++ [.executionCommitted params.number params.blockHash] }
  | .error _ => { s with db := s.db.commitExecution params }

/-- What `maintain_downloaded` does after the verification of a block. -/
def act (oldLatency number : BlockNumber) (source : PeerId) (blockData : BlockData) :
    VerifyAction → System
  | .ok => { s with control := .picking oldLatency }
  | .wait =>
      { s with
        sync := s.sync.insertPending number (.downloaded source blockData)
        control := .verified oldLatency }
  | .discard => { s with control := .verified oldLatency }
  | .reset => { s with sync := s.sync.resetSource source, control := .verified oldLatency }

/-- The action after a commit; other errors end the handler. -/
def commitAction : Except Chain.ErrorKind Unit → Option VerifyAction
  | .ok () => some .ok
  | .error (.commitBlockError .duplicated) => some .discard
  | .error (.commitBlockError .notBest) => some .reset
  | .error _ => none

/-- `on_block_committed`, until it reads the latency again. -/
def onBlockCommitted (number : BlockNumber) (blockHash : Hash) : System :=
  { s with
    sync := { s.sync with handshakeConfirmed := (number, blockHash) }.removePending number
    control := .committed number blockHash s.latency }

/-- A timer is over; the request may have been answered by then. -/
def onTimeout (peerId : PeerId) (requestId : RequestId) : System :=
  let sync :=
    { s.sync with blockRequestTimer := s.sync.blockRequestTimer.erase (peerId, requestId) }
  if s.sync.Downloads peerId requestId then
    { s with sync := sync.onBlockRequestTimeout peerId requestId, control := .new }
  else { s with sync := sync }

/-- A response, to an open request or to none. -/
def onResponse (peerId : PeerId) (response : BlockResponse) : System :=
  if s.sync.Downloads peerId response.requestId then
    { s with sync := s.sync.onBlockResponse peerId response.blocks, control := .downloaded }
  else { s with control := .downloaded }

/-- The first message of the chain. -/
def onMessage : System :=
  match s.messages with
  | [] => s
  | .blockCommitted number hash :: messages =>
      { s with messages := messages }.onBlockCommitted number hash
  | .executionCommitted _ _ :: messages => { s with messages := messages, control := .downloaded }

/-- The next step of a handler. -/
def advance (now : Nat) : System :=
  match s.control with
  | .idle => s
  | .committed number blockHash oldLatency =>
      let sync := s.sync.notifyLatency oldLatency s.latency
      match s.db.getHeader blockHash with
      | none => { s with sync := sync, control := .idle }
      | some header =>
          { s with
            sync := (sync.announceBlock blockHash header).send (.blockCommitted number blockHash)
            control := .idle }
  | .downloaded => { s with control := .picking s.latency }
  | .picking oldLatency =>
      match s.sync.firstDownloaded with
      | none => { s with control := .verified oldLatency }
      | some (number, source, blockData) =>
          { s with
            sync := s.sync.removePending number
            control := .verifying oldLatency number source blockData }
  | .verifying oldLatency number source blockData =>
      match backend.verifyBlock (consensusVerifyProof s.current.contextEssence.metaState) s.db
          s.current blockData with
      | .ok params => { s with control := .committing oldLatency number source blockData params }
      | .error (.verifyError e) => s.act oldLatency number source blockData (onVerifyErr e)
      | .error _ => { s with control := .idle }
  | .committing oldLatency number source blockData params =>
      -- The block data is taken by now, and the action is not to wait.
      match commitAction (backend.commitBlock s.db now params).2 with
      | some action =>
          (s.commitBlock backend now params).act oldLatency number source blockData action
      | none => { s.commitBlock backend now params with control := .idle }
  | .verified oldLatency =>
      { s with sync := s.sync.notifyLatency oldLatency s.latency, control := .new }
  | .new =>
      match s.sync.maxPeerNumber with
      | none => { s with control := .seen }
      | some maxPeerNumber =>
          let maxPendingNumber := s.sync.maxPending s.current.confirmedNumber
          { s with
            control := .appending maxPendingNumber
              (s.sync.maxToAppend maxPeerNumber maxPendingNumber) }
  | .appending maxPendingNumber maxToAppend =>
      { s with
        sync := s.sync.append maxPendingNumber maxToAppend
        control := .appended s.latency }
  | .appended oldLatency =>
      { s with sync := s.sync.notifyLatency oldLatency s.latency, control := .seen }
  | .seen => { s with sync := s.sync.maintainSeen, control := .idle }

/-- The events that can happen. The numbers that peers send have 64 bits. -/
def Enabled : Event → Prop
  | .open _ _ handshake => s.control = .idle ∧ handshake.confirmedNumber < 2 ^ 64
  | .close _ => s.control = .idle
  | .announce _ announce => s.control = .idle ∧ announce.header.number < 2 ^ 64
  | .timeout peerId requestId =>
      s.control = .idle ∧ (peerId, requestId) ∈ s.sync.blockRequestTimer
  | .response _ _ => s.control = .idle
  | .message => s.control = .idle ∧ s.messages ≠ []
  | .advance _ => s.control ≠ .idle
  | .commitBlock _ _ | .commitExecution _ _ => True
  | .reorder peers => peers.Perm s.sync.peers

instance (event : Event) : Decidable (s.Enabled event) :=
  match event with
  | .open .. | .announce .. | .timeout .. | .message => inferInstanceAs (Decidable (_ ∧ _))
  | .close _ | .response .. => inferInstanceAs (Decidable (_ = _))
  | .advance _ => inferInstanceAs (Decidable (¬ _))
  | .commitBlock .. | .commitExecution .. => isTrue trivial
  | .reorder _ => inferInstanceAs (Decidable (List.Perm _ _))

/-- The system after an event. -/
def next : Event → System
  | .open peerId nonce handshake =>
      { s with sync := s.sync.onProtocolOpen peerId nonce handshake, control := .new }
  | .close peerId => { s with sync := s.sync.onProtocolClose peerId, control := .new }
  | .announce peerId announce =>
      { s with sync := s.sync.onBlockAnnounce peerId announce, control := .new }
  | .timeout peerId requestId => s.onTimeout peerId requestId
  | .response peerId response => s.onResponse peerId response
  | .message => s.onMessage
  | .advance now => s.advance backend consensusVerifyProof now
  | .commitBlock now params => s.commitBlock backend now params
  | .commitExecution now params => s.commitExecution backend now params
  | .reorder peers => { s with sync := { s.sync with peers := peers } }

/-- An event that can happen, and that the condition allows. -/
def Step (Allowed : System → Event → Prop) (s s' : System) : Prop :=
  ∃ event, s.Enabled event ∧ Allowed s event ∧ s.next backend consensusVerifyProof event = s'

/-- The system after these events. -/
def run (s : System) (events : List Event) : System :=
  events.foldl (fun s event => s.next backend consensusVerifyProof event) s

/-- These events can happen one after the other, and the condition allows
them. -/
def Runs (Allowed : System → Event → Prop) : System → List Event → Prop
  | _, [] => True
  | s, event :: events =>
      (s.Enabled event ∧ Allowed s event) ∧
        Runs Allowed (s.next backend consensusVerifyProof event) events

instance decidableRuns {Allowed : System → Event → Prop}
    [∀ s event, Decidable (Allowed s event)] :
    ∀ (s : System) (events : List Event),
      Decidable (Runs backend consensusVerifyProof Allowed s events)
  | _, [] => isTrue trivial
  | s, event :: events =>
      have : Decidable (Runs backend consensusVerifyProof Allowed
          (s.next backend consensusVerifyProof event) events) :=
        decidableRuns _ events
      inferInstanceAs (Decidable (_ ∧ _))

variable {backend consensusVerifyProof} in
theorem Runs.reach {Allowed : System → Event → Prop} {s : System} {events : List Event}
    (h : Runs backend consensusVerifyProof Allowed s events) :
    ReflTransGen (Step backend consensusVerifyProof Allowed) s
      (run backend consensusVerifyProof s events) := by
  induction events generalizing s with
  | nil => exact .refl
  | cons event events ih =>
      obtain ⟨⟨henabled, hallowed⟩, hrest⟩ := h
      exact (ih hrest).head ⟨event, henabled, hallowed, rfl⟩

/-- A node that has been opened, and that no peer is connected to. -/
def Opened (s : System) : Prop :=
  (∃ now, backend.updateCurrentState s.db now = .ok s.current) ∧ s.messages = [] ∧
    s.control = .idle ∧
    s.sync = .new (s.current.confirmedNumber, s.current.confirmedBlockHash)

end Next

end System

end Finastate.Sync
