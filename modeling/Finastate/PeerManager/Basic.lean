import Finastate.Library.AssocMap
import Finastate.Library.LinkedMap
import Finastate.Primitives.Types

/-!
# The peer manager

It decides to which peers there should be a connection. Active peers are those
it has told the network to connect to or to accept, inactive ones are the
candidates. The network tells it of peers that are discovered, dropped or
incoming; the rest of the node changes the reserved peers and reports peers.
Counters are `u32` and scores `i32`.
-/

namespace Finastate.PeerManager

abbrev PeerId := Bytes

def MIN_SCORE : Int := -100

structure PeerManagerConfig where
  maxInPeers : Nat
  maxOutPeers : Nat
  bootnodes : LinkedMap PeerId Unit
  reserved : LinkedMap PeerId Unit
  reservedOnly : Bool
  maxInPeers_lt : maxInPeers < 2 ^ 32
  maxOutPeers_lt : maxOutPeers < 2 ^ 32

inductive PeerState
  | In | Out
  deriving DecidableEq, Repr

inductive PeerType
  | reserved | normal
  deriving DecidableEq, Repr

structure PeerInfo where
  peerState : PeerState
  peerType : PeerType
  deriving DecidableEq, Repr

abbrev IncomingId := Nat

inductive OutMessage
  | connect (peerId : PeerId)
  | drop (peerId : PeerId)
  | accept (incomingId : IncomingId)
  | reject (incomingId : IncomingId)
  deriving DecidableEq, Repr

/-- The score difference of a `PeerReport`. The one of `PeerReport::new_fatal` is
`MIN_SCORE`. -/
abbrev PeerReport := Int

inductive InMessage
  | addReservedPeer (peerId : PeerId)
  | removeReservedPeer (peerId : PeerId)
  | setReservedOnly (reservedOnly : Bool)
  | reportPeer (peerId : PeerId) (peerReport : PeerReport)
  deriving DecidableEq, Repr

def isReserved (config : PeerManagerConfig) (peerId : PeerId) : Bool :=
  config.reserved.contains peerId

/-- The type a peer gets when it is inserted. -/
def peerTypeOf (config : PeerManagerConfig) (peerId : PeerId) : PeerType :=
  if isReserved config peerId then .reserved else .normal

/-! ## Active peers -/

structure ActivePeers where
  peers : LinkedMap PeerId PeerInfo
  inPeers : Nat
  outPeers : Nat

inductive InsertPeerResult
  | inserted (peerId : PeerId)
  | replaced (inserted removed : PeerId)
  | exist (peerId : PeerId)
  | full (peerId : PeerId)
  deriving DecidableEq, Repr

namespace ActivePeers

/-- The counter of a direction. -/
def counter (a : ActivePeers) : PeerState → Nat
  | .In => a.inPeers
  | .Out => a.outPeers

/-- `self.in_peers += 1` or `self.out_peers += 1`. -/
def increase (a : ActivePeers) : PeerState → ActivePeers
  | .In => { a with inPeers := wrapAdd 32 a.inPeers 1 }
  | .Out => { a with outPeers := wrapAdd 32 a.outPeers 1 }

/-- `self.in_peers -= 1` or `self.out_peers -= 1`. -/
def decrease (a : ActivePeers) : PeerState → ActivePeers
  | .In => { a with inPeers := wrapSub 32 a.inPeers 1 }
  | .Out => { a with outPeers := wrapSub 32 a.outPeers 1 }

def maxPeers (config : PeerManagerConfig) : PeerState → Nat
  | .In => config.maxInPeers
  | .Out => config.maxOutPeers

/-- A peer that a reserved one may replace. -/
def replaceable (peerState : PeerState) (peer : PeerId × PeerInfo) : Bool :=
  peer.2.peerState = peerState && peer.2.peerType = .normal

def insertPeer (a : ActivePeers) (peerId : PeerId) (peerState : PeerState)
    (config : PeerManagerConfig) : ActivePeers × InsertPeerResult :=
  let peerType := peerTypeOf config peerId
  if a.peers.contains peerId then (a, .exist peerId)
  else if maxPeers config peerState ≤ a.counter peerState then
    if peerType = .reserved then
      match a.peers.entries.find? (replaceable peerState) with
      | some (toRemove, info) =>
          let a := a.increase peerState
          let a := { a with peers := a.peers.insert peerId { peerState, peerType } }
          let a := a.decrease info.peerState
          ({ a with peers := a.peers.remove toRemove }, .replaced peerId toRemove)
      | none => (a, .full peerId)
    else (a, .full peerId)
  else
    let a := a.increase peerState
    ({ a with peers := a.peers.insert peerId { peerState, peerType } }, .inserted peerId)

def removePeer (a : ActivePeers) (peerId : PeerId) : ActivePeers :=
  match a.peers.get? peerId with
  | some info =>
      let a := a.decrease info.peerState
      { a with peers := a.peers.remove peerId }
  | none => a

end ActivePeers

/-! ## Inactive peers -/

abbrev InactivePeers := LinkedMap PeerId Unit

namespace InactivePeers

def insertPeer (inactive : InactivePeers) (peerId : PeerId) : InactivePeers :=
  LinkedMap.insert inactive peerId ()

/-- Reserved peers first; the others unless there is to be no other. -/
def takePeer (inactive : InactivePeers) (config : PeerManagerConfig) :
    Option (InactivePeers × PeerId) :=
  match inactive.keys.find? (isReserved config) with
  | some peerId => some (inactive.remove peerId, peerId)
  | none =>
      if config.reservedOnly then none
      else
        match inactive.keys.find? fun peerId => !isReserved config peerId with
        | some peerId => some (inactive.remove peerId, peerId)
        | none => none

end InactivePeers

/-! ## The peer manager -/

end Finastate.PeerManager

namespace Finastate

open PeerManager

/-- `outMessages` are all messages sent; the network takes them one by one from
the front. -/
structure PeerManager where
  config : PeerManagerConfig
  active : ActivePeers
  inactive : InactivePeers
  outMessages : List OutMessage
  scores : List (PeerId × Int)

namespace PeerManager

def send (m : PeerManager) (message : OutMessage) : PeerManager :=
  { m with outMessages := m.outMessages ++ [message] }

/-- `checked_add`, and the bound on the side of the second number otherwise. -/
def addScore (score diff : Int) : Int :=
  if -2 ^ 31 ≤ score + diff ∧ score + diff < 2 ^ 31 then score + diff
  else if 0 ≤ diff then 2 ^ 31 - 1
  else -2 ^ 31

/-- One round of the loop of `activate`, and whether there is another one. -/
def activateRound (m : PeerManager) : PeerManager × Bool :=
  match m.inactive.takePeer m.config with
  | none => (m, false)
  | some (inactive, peerId) =>
      let m := { m with inactive }
      match m.active.insertPeer peerId .Out m.config with
      | (active, .inserted peerId) => (({ m with active }).send (.connect peerId), true)
      | (active, .replaced inserted removed) =>
          let m := { m with active, inactive := m.inactive.insertPeer removed }
          ((m.send (.connect inserted)).send (.drop removed), true)
      | (active, .exist _) => ({ m with active }, true)
      | (active, .full peerId) =>
          ({ m with active, inactive := m.inactive.insertPeer peerId }, false)

/-- At most `n` rounds; `none` if that is not enough. -/
def activateIn : Nat → PeerManager → Option PeerManager
  | 0, _ => none
  | n + 1, m =>
      match m.activateRound with
      | (m, false) => some m
      | (m, true) => activateIn n m

/-- What the rounds of `activate` use up. -/
def rounds (m : PeerManager) : Nat :=
  3 * (m.config.maxOutPeers - m.active.outPeers) +
    2 * m.active.peers.count (ActivePeers.replaceable .Out) + m.inactive.entries.length

/-- The loop ends within these rounds (`exists_activateIn`). -/
def activate (m : PeerManager) : PeerManager := (activateIn (m.rounds + 1) m).getD m

def new (config : PeerManagerConfig) : PeerManager :=
  activate
    { config
      active := { peers := .empty, inPeers := 0, outPeers := 0 }
      inactive := LinkedMap.extend .empty (config.reserved.entries ++ config.bootnodes.entries)
      outMessages := []
      scores := [] }

def candidate (m : PeerManager) (peerId : PeerId) : PeerManager :=
  { m with inactive := m.inactive.insertPeer peerId }

def makeInactive (m : PeerManager) (peerId : PeerId) : PeerManager :=
  { m with active := m.active.removePeer peerId, inactive := m.inactive.insertPeer peerId }

def discovered (m : PeerManager) (peerId : PeerId) : PeerManager :=
  if m.active.peers.contains peerId then m else (m.candidate peerId).activate

def dropped (m : PeerManager) (peerId : PeerId) : PeerManager :=
  (m.makeInactive peerId).activate

def incoming (m : PeerManager) (peerId : PeerId) (incomingId : IncomingId) : PeerManager :=
  if m.config.reservedOnly && !isReserved m.config peerId then m.send (.reject incomingId)
  else
    match m.active.insertPeer peerId .In m.config with
    | (active, .inserted peerId) =>
        ({ m with active, inactive := m.inactive.remove peerId }).send (.accept incomingId)
    | (active, .replaced inserted removed) =>
        let m := { m with active, inactive := m.inactive.remove inserted }
        ((m.candidate removed).send (.accept incomingId)).send (.drop removed)
    | (active, .exist _) => ({ m with active }).send (.accept incomingId)
    | (active, .full peerId) => (({ m with active }).candidate peerId).send (.reject incomingId)

def addReserved (m : PeerManager) (peerId : PeerId) : PeerManager :=
  { m with config := { m.config with reserved := m.config.reserved.insert peerId () } }

def onAddReservedPeer (m : PeerManager) (peerId : PeerId) : PeerManager :=
  let m := m.addReserved peerId
  if m.active.peers.contains peerId then m else (m.candidate peerId).activate

/-- `on_remove_reserved_peer` before it calls `activate`. -/
def removeReserved (m : PeerManager) (peerId : PeerId) : PeerManager :=
  let m := { m with config := { m.config with reserved := m.config.reserved.remove peerId } }
  if m.config.reservedOnly then (m.makeInactive peerId).send (.drop peerId) else m

def onRemoveReservedPeer (m : PeerManager) (peerId : PeerId) : PeerManager :=
  (m.removeReserved peerId).activate

/-- The active peers that are not reserved. -/
def activeNormalPeers (m : PeerManager) : List PeerId :=
  m.active.peers.keys.filter fun peerId => !isReserved m.config peerId

/-- `on_set_reserved_only` before it calls `activate`. -/
def setReservedOnly (m : PeerManager) (reservedOnly : Bool) : PeerManager :=
  let m := { m with config := { m.config with reservedOnly } }
  if m.config.reservedOnly then
    m.activeNormalPeers.foldl (fun m peerId => (m.makeInactive peerId).send (.drop peerId)) m
  else m

def onSetReservedOnly (m : PeerManager) (reservedOnly : Bool) : PeerManager :=
  (m.setReservedOnly reservedOnly).activate

/-- The score of a peer after a report. -/
def newScore (m : PeerManager) (peerId : PeerId) (peerReport : PeerReport) : Int :=
  match AssocMap.get? m.scores peerId with
  | none => peerReport
  | some score => addScore score peerReport

def setScore (m : PeerManager) (peerId : PeerId) (score : Int) : PeerManager :=
  { m with scores := AssocMap.insert m.scores peerId score }

/-- A peer whose score is too low is forgotten. -/
def forget (m : PeerManager) (peerId : PeerId) : PeerManager :=
  let isActive := m.active.peers.contains peerId
  let m :=
    { m with active := m.active.removePeer peerId, inactive := m.inactive.remove peerId }
  if isActive then m.send (.drop peerId) else m

def onReportPeer (m : PeerManager) (peerId : PeerId) (peerReport : PeerReport) : PeerManager :=
  let newScore := m.newScore peerId peerReport
  let m := m.setScore peerId newScore
  if newScore < MIN_SCORE then (m.forget peerId).activate else m

/-- `poll_next` on a message. -/
def handle (m : PeerManager) : InMessage → PeerManager
  | .addReservedPeer peerId => m.onAddReservedPeer peerId
  | .removeReservedPeer peerId => m.onRemoveReservedPeer peerId
  | .setReservedOnly reservedOnly => m.onSetReservedOnly reservedOnly
  | .reportPeer peerId peerReport => m.onReportPeer peerId peerReport

/-- What happens to a peer manager. -/
inductive Event
  | discovered (peerId : PeerId)
  | dropped (peerId : PeerId)
  | incoming (peerId : PeerId) (incomingId : IncomingId)
  | message (message : InMessage)
  deriving DecidableEq, Repr

def step (m : PeerManager) : Event → PeerManager
  | .discovered peerId => m.discovered peerId
  | .dropped peerId => m.dropped peerId
  | .incoming peerId incomingId => m.incoming peerId incomingId
  | .message message => m.handle message

/-- The states of the runs all of whose events satisfy `P` when they happen. -/
inductive Run (P : PeerManager → Event → Prop) : PeerManager → Prop
  | new (config : PeerManagerConfig) : Run P (.new config)
  | step {m : PeerManager} {event : Event} (hrun : Run P m) (hevent : P m event) :
      Run P (m.step event)

end PeerManager

end Finastate
