import Finastate.Chain.Verify
import Finastate.Library.SortedMap
import Mathlib.Data.List.MinMax

/-!
# ChainSync

The peers a node knows, and the blocks it has yet to commit. A pending block is
seen, or downloading from a peer, or downloaded. A peer is vacant, or downloading
a range of blocks under a request. The functions here are what the handlers of
`sync.rs` do to these two maps; the order in which a handler calls them is that
of `System`. What only concerns the transactions of the pool is left out.
-/

namespace Finastate.Sync

open Coordinator (BlockData VerifyError)

abbrev PeerId := Bytes

abbrev RequestId := Nat

def peerKnownBlocksSize : Nat := 1024

def pendingBlocksSize : Nat := 2560

def peerRequestBlockSize : Nat := 128

def fieldsHeader : Nat := 0b0001

def fieldsBody : Nat := 0b0010

def fieldsProof : Nat := 0b0100

/-! ## Messages -/

structure Handshake where
  genesisHash : Hash
  confirmedNumber : BlockNumber
  confirmedHash : Hash
  nonce : Nat
  deriving DecidableEq, Repr

structure BlockAnnounce where
  blockHash : Hash
  header : Header
  deriving DecidableEq, Repr

inductive BlockId where
  | number (number : BlockNumber)
  | hash (blockHash : Hash)
  deriving DecidableEq, Repr

inductive Direction where
  | asc
  | desc
  deriving DecidableEq, Repr

structure BlockRequest where
  requestId : RequestId
  fields : Nat
  blockId : BlockId
  count : Nat
  direction : Direction
  deriving DecidableEq, Repr

structure BlockResponse where
  requestId : RequestId
  blocks : List BlockData
  deriving DecidableEq, Repr

structure PeerReport where
  score : Int
  reason : String
  deriving DecidableEq, Repr

def peerReportInvalidBlock : PeerReport := ⟨-20, "Invalid block"⟩

def peerReportBlockRequestTimeout : PeerReport := ⟨-4, "Block request timeout"⟩

/-- What is sent to the network, to the peer manager and to the consensus
engine. -/
inductive Out where
  | blockRequest (peerId : PeerId) (request : BlockRequest)
  | blockAnnounce (peerId : PeerId) (announce : BlockAnnounce)
  | reportPeer (peerId : PeerId) (report : PeerReport)
  | syncLatencyUpdated (latency : BlockNumber)
  | blockCommitted (number : BlockNumber) (blockHash : Hash)
  deriving DecidableEq, Repr

/-! ## The state -/

inductive PeerState where
  | vacant
  | downloading (requestId : RequestId) (number : BlockNumber) (count : Nat)
  deriving DecidableEq, Repr

def PeerState.requestId? : PeerState → Option RequestId
  | vacant => none
  | downloading requestId _ _ => some requestId

/-- `knownBlocks` has the block that was used last in front. -/
structure PeerInfo where
  knownBlocks : List Hash
  confirmedNumber : BlockNumber
  confirmedHash : Hash
  nonce : Nat
  state : PeerState
  deriving DecidableEq, Repr

inductive PendingBlockState where
  | seen
  | downloading (source : PeerId) (requestId : RequestId)
  | downloaded (source : PeerId) (blockData : BlockData)
  deriving DecidableEq, Repr

namespace PendingBlockState

/-- The peer that a block waits for. -/
def awaited : PendingBlockState → Option PeerId
  | downloading source _ => some source
  | _ => none

/-- A block that is downloading under such a request is only seen again. -/
def release (p : PeerId → RequestId → Bool) : PendingBlockState → PendingBlockState
  | downloading source requestId =>
      if p source requestId then seen else downloading source requestId
  | state => state

/-- A block that is downloading is there. -/
def receive (peerId : PeerId) (blockData : BlockData) : PendingBlockState → PendingBlockState
  | downloading _ _ => downloaded peerId blockData
  | state => state

/-- A block that comes from this peer is only seen again. -/
def reset (peerId : PeerId) : PendingBlockState → PendingBlockState
  | downloaded source blockData =>
      if source = peerId then seen else downloaded source blockData
  | state => state

variable {state : PendingBlockState} {source : PeerId} {requestId : RequestId}

theorem release_eq_downloading {p : PeerId → RequestId → Bool} :
    state.release p = .downloading source requestId ↔
      state = .downloading source requestId ∧ p source requestId = false := by
  cases state with
  | seen => simp [release]
  | downloaded source' blockData => simp [release]
  | downloading source' requestId' =>
      by_cases hp : p source' requestId'
      · simp only [release, if_pos hp, false_iff, reduceCtorEq]
        rintro ⟨heq, hp'⟩
        cases heq
        simp [hp] at hp'
      · simp only [release, if_neg hp]
        constructor
        · intro heq
          cases heq
          exact ⟨rfl, by simpa using hp⟩
        · exact And.left

theorem receive_ne_downloading {peerId : PeerId} {blockData : BlockData} :
    state.receive peerId blockData ≠ .downloading source requestId := by
  cases state <;> simp [receive]

theorem reset_eq_downloading {peerId : PeerId} :
    state.reset peerId = .downloading source requestId ↔ state = .downloading source requestId := by
  cases state with
  | seen => simp [reset]
  | downloading source' requestId' => simp [reset]
  | downloaded source' blockData =>
      simp only [reset]
      split <;> simp

end PendingBlockState

/-- `ChainSync`, with the confirmed block of the handshake builder and what has
been sent. The pending blocks are in the order of their numbers. -/
structure ChainSync where
  peers : List (PeerId × PeerInfo)
  pendingBlocks : List (BlockNumber × PendingBlockState)
  nextRequestId : RequestId
  blockRequestTimer : List (PeerId × RequestId)
  handshakeConfirmed : BlockNumber × Hash
  out : List Out

/-- `put` of the `known_blocks` of a peer. -/
def PeerInfo.putKnown (info : PeerInfo) (blockHash : Hash) : PeerInfo :=
  { info with knownBlocks := (blockHash :: info.knownBlocks.erase blockHash).take peerKnownBlocksSize }

/-- `make_seen_groups`; `item` is the group that is being built. -/
def makeSeenGroups (maxGroupSize : Nat) :
    List (BlockNumber × PendingBlockState) → Option (BlockNumber × Nat) → List (BlockNumber × Nat)
  | [], item => item.toList
  | (number, state) :: pendingBlocks, item =>
      match state, item with
      | .seen, item =>
          let group := (item.map fun v => (v.1, v.2 + 1)).getD (number, 1)
          if maxGroupSize ≤ group.2 then group :: makeSeenGroups maxGroupSize pendingBlocks none
          else makeSeenGroups maxGroupSize pendingBlocks (some group)
      | _, item => item.toList ++ makeSeenGroups maxGroupSize pendingBlocks none

/-- `next_request_id`: the number after this one. -/
def RequestId.next (requestId : RequestId) : RequestId :=
  if requestId + 1 < 2 ^ 64 then requestId + 1 else 0

inductive VerifyAction where
  | ok
  | wait
  | discard
  | reset
  deriving DecidableEq, Repr

/-- `on_verify_err`. -/
def onVerifyErr : VerifyError → VerifyAction
  | .shouldWait => .wait
  | .duplicated => .discard
  | _ => .reset

namespace ChainSync

variable (sync : ChainSync)

def new (handshakeConfirmed : BlockNumber × Hash) : ChainSync where
  peers := []
  pendingBlocks := []
  nextRequestId := 0
  blockRequestTimer := []
  handshakeConfirmed := handshakeConfirmed
  out := []

def send (message : Out) : ChainSync := { sync with out := sync.out ++ [message] }

/-- The entry of a peer changes, if there is one. -/
def modifyPeer (peerId : PeerId) (f : PeerInfo → PeerInfo) : ChainSync :=
  { sync with
    peers := AssocMap.mapValues (fun id info => if id = peerId then f info else info) sync.peers }

/-- The states of the pending blocks change. -/
def mapPending (f : BlockNumber → PendingBlockState → PendingBlockState) : ChainSync :=
  { sync with pendingBlocks := AssocMap.mapValues f sync.pendingBlocks }

/-- `pending_blocks.remove`. -/
def removePending (number : BlockNumber) : ChainSync :=
  { sync with pendingBlocks := AssocMap.erase sync.pendingBlocks number }

/-- `pending_blocks.insert`. -/
def insertPending (number : BlockNumber) (state : PendingBlockState) : ChainSync :=
  { sync with pendingBlocks := SortedMap.insert sync.pendingBlocks number state }

/-- The peer is downloading under this request. -/
def Downloads (peerId : PeerId) (requestId : RequestId) : Prop :=
  ((AssocMap.get? sync.peers peerId).bind fun info => info.state.requestId?) = some requestId

instance (peerId : PeerId) (requestId : RequestId) : Decidable (sync.Downloads peerId requestId) :=
  inferInstanceAs (Decidable (_ = _))

/-! ### What the handlers do first -/

/-- `on_protocol_open`, up to `sync`. -/
def onProtocolOpen (peerId : PeerId) (nonce : Nat) (handshake : Handshake) : ChainSync :=
  { sync with
    peers := AssocMap.insert sync.peers peerId
      { knownBlocks := []
        confirmedNumber := handshake.confirmedNumber
        confirmedHash := handshake.confirmedHash
        nonce := nonce
        state := .vacant } }

/-- `on_protocol_close`, up to `sync`. -/
def onProtocolClose (peerId : PeerId) : ChainSync :=
  { sync with peers := AssocMap.erase sync.peers peerId }.mapPending fun _ state =>
    state.release fun source _ => source = peerId

/-- `on_block_announce`, up to `sync`. -/
def onBlockAnnounce (peerId : PeerId) (announce : BlockAnnounce) : ChainSync :=
  sync.modifyPeer peerId fun info =>
    { info.putKnown announce.blockHash with
      confirmedNumber := announce.header.number
      confirmedHash := announce.blockHash }

/-- `on_block_request_timer_trigger` for a request that is still open, up to
`sync`. -/
def onBlockRequestTimeout (peerId : PeerId) (requestId : RequestId) : ChainSync :=
  let sync := sync.modifyPeer peerId fun info => { info with state := .vacant }
  let sync := sync.mapPending fun _ state => state.release fun _ rid => rid = requestId
  sync.send (.reportPeer peerId peerReportBlockRequestTimeout)

/-- One block of a response. -/
def receive (peerId : PeerId) (blockData : BlockData) : ChainSync :=
  sync.mapPending fun number state =>
    if number = blockData.number then state.receive peerId blockData else state

/-- `on_block_response` for a request that is open, up to
`maintain_downloaded`. -/
def onBlockResponse (peerId : PeerId) (blocks : List BlockData) : ChainSync :=
  (blocks.foldl (fun sync blockData => sync.receive peerId blockData) sync).modifyPeer peerId
    fun info => { info with state := .vacant }

/-- The blocks of a peer that has sent a bad one, in `maintain_downloaded`. -/
def resetSource (peerId : PeerId) : ChainSync :=
  (sync.mapPending fun _ state => state.reset peerId).send
    (.reportPeer peerId peerReportInvalidBlock)

/-! ### The latency, and the range of the pending blocks -/

def lastPending : Option BlockNumber := sync.pendingBlocks.getLast?.map Prod.fst

/-- `max_pending_number`, for the confirmed number that was read. -/
def maxPending (confirmedNumber : BlockNumber) : BlockNumber :=
  sync.lastPending.getD confirmedNumber

def latency (confirmedNumber : BlockNumber) : BlockNumber :=
  wrapSub 64 (sync.maxPending confirmedNumber) confirmedNumber

/-- The consensus engine hears of a latency that has changed. -/
def notifyLatency (oldLatency newLatency : BlockNumber) : ChainSync :=
  if newLatency ≠ oldLatency then sync.send (.syncLatencyUpdated newLatency) else sync

def maxPeerNumber : Option BlockNumber := (sync.peers.map fun p => p.2.confirmedNumber).max?

def maxToAppend (maxPeerNumber maxPendingNumber : BlockNumber) : BlockNumber :=
  min maxPeerNumber (maxPendingNumber + pendingBlocksSize - sync.pendingBlocks.length)

/-- The loops of `maintain_new`. -/
def append (maxPendingNumber maxToAppend : BlockNumber) : ChainSync :=
  if maxPendingNumber + 1 ≤ maxToAppend then
    { sync with
      pendingBlocks := SortedMap.extend sync.pendingBlocks
        ((List.range' (maxPendingNumber + 1) (maxToAppend - maxPendingNumber)).map fun number =>
          (number, .seen)) }
  else
    { sync with
      pendingBlocks := sync.pendingBlocks.filter fun p =>
        ¬ (maxToAppend < p.1 ∧ p.1 ≤ maxPendingNumber) }

/-! ### Requests and announcements -/

/-- The peer to ask for `size` blocks from `number` on: vacant, with all these
blocks, and with the lowest confirmed number among such peers. -/
def choosePeer (number : BlockNumber) (size : Nat) : Option PeerId :=
  ((sync.peers.filter fun p =>
    p.2.state = .vacant ∧ number + size - 1 ≤ p.2.confirmedNumber).argmin fun p =>
      p.2.confirmedNumber).map Prod.fst

/-- The loop body of `maintain_seen`. -/
def request (group : BlockNumber × Nat) : ChainSync :=
  match sync.choosePeer group.1 group.2 with
  | none => sync
  | some peerId =>
      let requestId := sync.nextRequestId
      let sync := { sync with nextRequestId := RequestId.next requestId }
      let sync := sync.send (.blockRequest peerId
        { requestId := requestId
          fields := fieldsHeader + fieldsBody + fieldsProof
          blockId := .number group.1
          count := group.2
          direction := .asc })
      let sync := sync.modifyPeer peerId fun info =>
        { info with state := .downloading requestId group.1 group.2 }
      let sync := sync.mapPending fun number state =>
        if group.1 ≤ number ∧ number < group.1 + group.2 then .downloading peerId requestId
        else state
      { sync with blockRequestTimer := sync.blockRequestTimer ++ [(peerId, requestId)] }

/-- `maintain_seen`. -/
def maintainSeen : ChainSync :=
  (makeSeenGroups peerRequestBlockSize sync.pendingBlocks none).foldl request sync

/-- `announce_block`, to all peers. -/
def announceBlock (blockHash : Hash) (header : Header) : ChainSync :=
  { sync with
    peers := AssocMap.mapValues (fun _ info => info.putKnown blockHash) sync.peers
    out := sync.out ++ (sync.peers.filter fun p => blockHash ∉ p.2.knownBlocks).map fun p =>
      .blockAnnounce p.1 ⟨blockHash, header⟩ }

/-- The first pending block, if it is downloaded. -/
def firstDownloaded : Option (BlockNumber × PeerId × BlockData) :=
  match sync.pendingBlocks with
  | (number, .downloaded source blockData) :: _ => some (number, source, blockData)
  | _ => none

end ChainSync

end Finastate.Sync
