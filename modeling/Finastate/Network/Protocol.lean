import Finastate.PeerManager.Basic

/-!
# The network protocol

It keeps, for every peer, the connections on which the node protocol is to be
opened and those on which it is open. The network tells it of connections, the
handler of a connection tells it when the protocol opens or closes there, and
the peer manager says which peers to connect to, to drop, to accept and to
reject. A handler is `none` where the source is `unreachable!()`.
-/

namespace Finastate.Network

open PeerManager (PeerId IncomingId OutMessage InMessage PeerReport)

abbrev ConnectionId := Nat

abbrev Multiaddr := Bytes

/-- Milliseconds. -/
abbrev Instant := Nat

def DELAY : Instant := 5000

def PEER_REPORT_DIAL_FAILURE : PeerReport := -2

def PEER_REPORT_PROTOCOL_ERROR : PeerReport := -2

inductive ConnectedPoint
  | dialer (address : Multiaddr)
  | listener (localAddr sendBackAddr : Multiaddr)
  deriving DecidableEq, Repr

namespace ConnectedPoint

def isDialer : ConnectedPoint → Bool
  | .dialer _ => true
  | .listener _ _ => false

end ConnectedPoint

inductive ProtocolOut
  | protocolOpen (peerId : PeerId) (connectedPoint : ConnectedPoint) (nonce : Nat)
      (handshake : Bytes)
  | protocolClose (peerId : PeerId) (connectedPoint : ConnectedPoint)
  | message (peerId : PeerId) (message : Bytes)
  deriving DecidableEq, Repr

structure Connection where
  connectedPoint : ConnectedPoint
  incomingId : Option IncomingId
  deriving DecidableEq, Repr

abbrev Connections := List (ConnectionId × Connection)

/-- A pending dial is the instant at which it is due. -/
inductive PeerState
  | init (pendingDial : Option Instant)
  | connected (connectedList : Connections) (nonce : Nat)
  | protocolOpened (connectedList openedList : Connections) (nonce : Nat)
  | locked
  deriving DecidableEq, Repr

/-! ## Messages to and from the handler of a connection -/

inductive HandlerIn
  | opening (handshake : Bytes)
  | close
  | sendMessage (message : Bytes)
  deriving DecidableEq, Repr

inductive HandlerOut
  | protocolOpen (handshake : Bytes)
  | protocolClose
  | protocolError (shouldDisconnect : Bool)
  | message (message : Bytes)
  deriving DecidableEq, Repr

inductive NotifyHandler
  | one (connectionId : ConnectionId)
  | all
  deriving DecidableEq, Repr

inductive NetworkBehaviourAction
  | notifyHandler (peerId : PeerId) (handler : NotifyHandler) (event : HandlerIn)
  | dialPeer (peerId : PeerId)
  | generateEvent (event : ProtocolOut)
  deriving DecidableEq, Repr

/-- `inMessages` are all messages sent to the peer manager through its channel, `events`
all events; the network takes these one by one from the front. -/
structure Protocol where
  localPeerId : PeerId
  handshakeBuilder : Nat → Bytes
  peers : List (PeerId × PeerState)
  incomingPeers : List (IncomingId × PeerId)
  delayPeers : List (PeerId × Instant)
  peerManager : PeerManager
  inMessages : List InMessage
  nextIncomingId : IncomingId
  events : List NetworkBehaviourAction

namespace Protocol

def new (localPeerId : PeerId) (handshakeBuilder : Nat → Bytes) (peerManager : PeerManager) :
    Protocol :=
  { localPeerId, handshakeBuilder, peerManager
    peers := []
    incomingPeers := []
    delayPeers := []
    inMessages := []
    nextIncomingId := 0
    events := [] }

/-- The state of a peer. -/
def peer (P : Protocol) (peerId : PeerId) : PeerState :=
  (AssocMap.get? P.peers peerId).getD (.init none)

def setPeer (P : Protocol) (peerId : PeerId) (state : PeerState) : Protocol :=
  { P with peers := AssocMap.insert P.peers peerId state }

def push (P : Protocol) (event : NetworkBehaviourAction) : Protocol :=
  { P with events := P.events ++ [event] }

def notify (P : Protocol) (peerId : PeerId) (handler : NotifyHandler) (event : HandlerIn) :
    Protocol :=
  P.push (.notifyHandler peerId handler event)

/-- The handler of a connection is to open the protocol. -/
def notifyOpen (P : Protocol) (peerId : PeerId) (conn : ConnectionId) (nonce : Nat) : Protocol :=
  P.notify peerId (.one conn) (.opening (P.handshakeBuilder nonce))

def generate (P : Protocol) (event : ProtocolOut) : Protocol := P.push (.generateEvent event)

/-- The peer manager is told that there is no connection to a peer. -/
def dropped (P : Protocol) (peerId : PeerId) : Protocol :=
  { P with peerManager := P.peerManager.dropped peerId }

/-- A message goes into the channel of the peer manager. -/
def report (P : Protocol) (peerId : PeerId) (peerReport : PeerReport) : Protocol :=
  { P with inMessages := P.inMessages ++ [.reportPeer peerId peerReport] }

def addDiscoveredPeers (P : Protocol) (peerIds : List PeerId) : Protocol :=
  peerIds.foldl
    (fun P peerId =>
      if peerId ≠ P.localPeerId then { P with peerManager := P.peerManager.discovered peerId }
      else P)
    P

def sendMessage (P : Protocol) (peerId : PeerId) (message : Bytes) : Protocol :=
  match AssocMap.get? P.peers peerId with
  | some (.protocolOpened _ ((conn, _) :: _) _) => P.notify peerId (.one conn) (.sendMessage message)
  | _ => P

/-- All handlers of a peer are to close. -/
def closeAll (P : Protocol) (peerId : PeerId) : Option Protocol :=
  match P.peer peerId with
  | .init pendingDial => some (P.setPeer peerId (.init pendingDial))
  | .connected connectedList nonce =>
      some ((P.notify peerId .all .close).setPeer peerId (.connected connectedList nonce))
  | .protocolOpened connectedList openedList nonce =>
      some ((P.notify peerId .all .close).setPeer peerId
        (.protocolOpened connectedList openedList nonce))
  | .locked => none

def dropPeer (P : Protocol) (peerId : PeerId) (delay : Option Instant) (now : Instant) :
    Option Protocol :=
  match delay with
  | some delay =>
      closeAll { P with delayPeers := AssocMap.insert P.delayPeers peerId (now + delay) } peerId
  | none => P.closeAll peerId

/-! ## Messages of the peer manager -/

/-- `connect` to another peer in state `Init`. -/
def connectOther (P : Protocol) (peerId : PeerId) (pendingDial : Option Instant) (now : Instant) :
    Protocol :=
  let instant := AssocMap.get? P.delayPeers peerId
  let P := { P with delayPeers := AssocMap.erase P.delayPeers peerId }
  match instant with
  | some instant =>
      if now < instant then P.setPeer peerId (.init (some instant))
      else dial P
  | none => dial P
where
  dial (P : Protocol) : Protocol :=
    match pendingDial with
    | none => (P.push (.dialPeer peerId)).setPeer peerId (.init pendingDial)
    | some _ => P.setPeer peerId (.init pendingDial)

def peerManagerConnect (P : Protocol) (peerId : PeerId) (now : Instant) : Option Protocol :=
  match P.peer peerId with
  | .init pendingDial =>
      if peerId = P.localPeerId then some (P.setPeer peerId (.init pendingDial))
      else some (P.connectOther peerId pendingDial now)
  | .connected connectedList nonce => some (P.setPeer peerId (.connected connectedList nonce))
  | .protocolOpened connectedList openedList nonce =>
      some (P.setPeer peerId (.protocolOpened connectedList openedList nonce))
  | .locked => none

def peerManagerDrop (P : Protocol) (peerId : PeerId) : Option Protocol := P.closeAll peerId

/-- The handler of the connection with an incoming id, if there is one, is to open. -/
def openIncoming (P : Protocol) (peerId : PeerId) (connectedList : Connections) (nonce : Nat)
    (incomingId : IncomingId) : Protocol :=
  match connectedList.find? fun e => e.2.incomingId = some incomingId with
  | some (conn, _) => P.notifyOpen peerId conn nonce
  | none => P

def peerManagerAccept (P : Protocol) (incomingId : IncomingId) : Option Protocol :=
  match AssocMap.get? P.incomingPeers incomingId with
  | none => some P
  | some peerId =>
      let P := { P with incomingPeers := AssocMap.erase P.incomingPeers incomingId }
      match P.peer peerId with
      | .init pendingDial => some ((P.dropped peerId).setPeer peerId (.init pendingDial))
      | .connected connectedList nonce =>
          some ((P.openIncoming peerId connectedList nonce incomingId).setPeer peerId
            (.connected connectedList nonce))
      | .protocolOpened connectedList openedList nonce =>
          some ((P.openIncoming peerId connectedList nonce incomingId).setPeer peerId
            (.protocolOpened connectedList openedList nonce))
      | .locked => none

def peerManagerReject (P : Protocol) (incomingId : IncomingId) : Option Protocol :=
  match AssocMap.get? P.incomingPeers incomingId with
  | none => some P
  | some peerId =>
      closeAll { P with incomingPeers := AssocMap.erase P.incomingPeers incomingId } peerId

def peerManagerMessage (P : Protocol) (message : OutMessage) (now : Instant) : Option Protocol :=
  match message with
  | .connect peerId => P.peerManagerConnect peerId now
  | .drop peerId => P.peerManagerDrop peerId
  | .accept incomingId => P.peerManagerAccept incomingId
  | .reject incomingId => P.peerManagerReject incomingId

/-! ## Events of the network -/

/-- The incoming id that is next, and the one after it: `checked_add(1).unwrap_or(0)`. -/
def takeIncomingId (P : Protocol) : Protocol × IncomingId :=
  let new := if P.nextIncomingId + 1 < 2 ^ 64 then P.nextIncomingId + 1 else 0
  ({ P with nextIncomingId := new }, P.nextIncomingId)

/-- The peer manager determines what becomes of an incoming connection. -/
def incoming (P : Protocol) (peerId : PeerId) : Protocol × IncomingId :=
  let (P, incomingId) := P.takeIncomingId
  ({ P with
      incomingPeers := AssocMap.insert P.incomingPeers incomingId peerId
      peerManager := P.peerManager.incoming peerId incomingId }, incomingId)

/-- The first connection to a peer. -/
def firstConnection (P : Protocol) (peerId : PeerId) (conn : ConnectionId)
    (endpoint : ConnectedPoint) (nonce : Nat) (now : Instant) : Protocol × Connection :=
  let connection : Connection := { connectedPoint := endpoint, incomingId := none }
  match endpoint with
  | .dialer _ => (P.notifyOpen peerId conn nonce, connection)
  | .listener _ _ =>
      let instant := AssocMap.get? P.delayPeers peerId
      let P := { P with delayPeers := AssocMap.erase P.delayPeers peerId }
      match instant with
      | some instant =>
          if now < instant then
            let P := P.notify peerId (.one conn) .close
            ({ P with delayPeers := AssocMap.insert P.delayPeers peerId instant }, connection)
          else
            let (P, incomingId) := P.incoming peerId
            (P, { connection with incomingId := some incomingId })
      | none =>
          let (P, incomingId) := P.incoming peerId
          (P, { connection with incomingId := some incomingId })

/-- Whether the protocol is to be opened on another connection to a peer. -/
def shouldOpen (connectedList : Connections) : ConnectedPoint → Bool
  | .dialer _ => true
  | .listener _ _ => connectedList.any fun e => e.2.connectedPoint.isDialer

/-- Another connection to a peer. -/
def anotherConnection (P : Protocol) (peerId : PeerId) (conn : ConnectionId)
    (endpoint : ConnectedPoint) (connectedList : Connections) (nonce : Nat) :
    Protocol × Connections :=
  if shouldOpen connectedList endpoint then
    (P.notifyOpen peerId conn nonce,
      AssocMap.insert connectedList conn { connectedPoint := endpoint, incomingId := none })
  else (P.notify peerId (.one conn) .close, connectedList)

def injectConnectionEstablished (P : Protocol) (peerId : PeerId) (conn : ConnectionId)
    (endpoint : ConnectedPoint) (nonce : Nat) (now : Instant) : Option Protocol :=
  match P.peer peerId with
  | .init _ =>
      let (P, connection) := P.firstConnection peerId conn endpoint nonce now
      some (P.setPeer peerId (.connected [(conn, connection)] nonce))
  | .connected connectedList nonce =>
      let (P, connectedList) := P.anotherConnection peerId conn endpoint connectedList nonce
      some (P.setPeer peerId (.connected connectedList nonce))
  | .protocolOpened connectedList openedList nonce =>
      let (P, connectedList) := P.anotherConnection peerId conn endpoint connectedList nonce
      some (P.setPeer peerId (.protocolOpened connectedList openedList nonce))
  | .locked => none

def injectConnectionClosed (P : Protocol) (peerId : PeerId) (conn : ConnectionId) :
    Option Protocol :=
  match P.peer peerId with
  | .init pendingDial => some (P.setPeer peerId (.init pendingDial))
  | .connected connectedList nonce =>
      let connectedList := AssocMap.erase connectedList conn
      if connectedList = [] then some ((P.dropped peerId).setPeer peerId (.init none))
      else some (P.setPeer peerId (.connected connectedList nonce))
  | .protocolOpened connectedList openedList nonce =>
      let closedConnection :=
        (AssocMap.get? openedList conn).or (AssocMap.get? connectedList conn)
      let connectedList := AssocMap.erase connectedList conn
      let openedList := AssocMap.erase openedList conn
      match closedConnection, openedList with
      | some connection, [] =>
          let P := P.generate (.protocolClose peerId connection.connectedPoint)
          if connectedList = [] then some ((P.dropped peerId).setPeer peerId (.init none))
          else some (P.setPeer peerId (.connected connectedList nonce))
      | _, _ => some (P.setPeer peerId (.protocolOpened connectedList openedList nonce))
  | .locked => none

/-! ## Events of a handler -/

def onProtocolOpen (P : Protocol) (source : PeerId) (conn : ConnectionId) (handshake : Bytes) :
    Option Protocol :=
  match P.peer source with
  | .init pendingDial => some (P.setPeer source (.init pendingDial))
  | .connected connectedList nonce =>
      match AssocMap.get? connectedList conn with
      | some connection =>
          let P := P.generate (.protocolOpen source connection.connectedPoint nonce handshake)
          some (P.setPeer source
            (.protocolOpened (AssocMap.erase connectedList conn) [(conn, connection)] nonce))
      | none => some (P.setPeer source (.connected connectedList nonce))
  | .protocolOpened connectedList openedList nonce =>
      match AssocMap.get? connectedList conn with
      | some connection =>
          some (P.setPeer source
            (.protocolOpened (AssocMap.erase connectedList conn)
              (AssocMap.insert openedList conn connection) nonce))
      | none => some (P.setPeer source (.protocolOpened connectedList openedList nonce))
  | .locked => none

def onProtocolClose (P : Protocol) (source : PeerId) (conn : ConnectionId) : Option Protocol :=
  match P.peer source with
  | .init pendingDial => some (P.setPeer source (.init pendingDial))
  | .connected connectedList nonce => some (P.setPeer source (.connected connectedList nonce))
  | .protocolOpened connectedList openedList nonce =>
      match AssocMap.get? openedList conn, AssocMap.erase openedList conn with
      | some connection, [] =>
          let P := P.generate (.protocolClose source connection.connectedPoint)
          some (P.setPeer source
            (.connected (AssocMap.insert connectedList conn connection) nonce))
      | _, openedList => some (P.setPeer source (.protocolOpened connectedList openedList nonce))
  | .locked => none

/-- A connection with an error is to be closed. -/
def disconnect (P : Protocol) (source : PeerId) (conn : ConnectionId) (now : Instant) :
    Protocol :=
  let P := { P with delayPeers := AssocMap.insert P.delayPeers source (now + DELAY) }
  (P.notify source (.one conn) .close).report source PEER_REPORT_PROTOCOL_ERROR

def onProtocolError (P : Protocol) (source : PeerId) (conn : ConnectionId)
    (shouldDisconnect : Bool) (now : Instant) : Option Protocol :=
  match P.peer source with
  | .init pendingDial => some (P.setPeer source (.init pendingDial))
  | .connected connectedList nonce =>
      let P :=
        if (AssocMap.get? connectedList conn).isSome && shouldDisconnect then
          P.disconnect source conn now
        else P
      some (P.setPeer source (.connected connectedList nonce))
  | .protocolOpened connectedList openedList nonce =>
      let known :=
        (AssocMap.get? connectedList conn).isSome || (AssocMap.get? openedList conn).isSome
      let P := if known && shouldDisconnect then P.disconnect source conn now else P
      some (P.setPeer source (.protocolOpened connectedList openedList nonce))
  | .locked => none

def injectEvent (P : Protocol) (source : PeerId) (conn : ConnectionId) (event : HandlerOut)
    (now : Instant) : Option Protocol :=
  match event with
  | .protocolOpen handshake => P.onProtocolOpen source conn handshake
  | .protocolClose => P.onProtocolClose source conn
  | .protocolError shouldDisconnect => P.onProtocolError source conn shouldDisconnect now
  | .message message => some (P.generate (.message source message))

def injectDialFailure (P : Protocol) (peerId : PeerId) (now : Instant) : Option Protocol :=
  match P.peer peerId with
  | .init _ =>
      let P := (P.report peerId PEER_REPORT_DIAL_FAILURE).dropped peerId
      let P := { P with delayPeers := AssocMap.insert P.delayPeers peerId (now + DELAY) }
      some (P.setPeer peerId (.init none))
  | .connected connectedList nonce => some (P.setPeer peerId (.connected connectedList nonce))
  | .protocolOpened connectedList openedList nonce =>
      some (P.setPeer peerId (.protocolOpened connectedList openedList nonce))
  | .locked => none

/-- Whether a pending dial is due. -/
def due (now : Instant) : PeerState → Bool
  | .init (some instant) => decide (instant ≤ now)
  | _ => false

/-- The pending dials that are due, in `poll`. -/
def pollPendingDial (P : Protocol) (now : Instant) : Protocol :=
  { P with
    peers := P.peers.map fun e => (e.1, if due now e.2 then .init none else e.2)
    events := P.events ++
      (P.peers.filter fun e => due now e.2).map fun e => .dialPeer e.1 }

/-- A message from the channel of the peer manager. -/
def handleInMessage (P : Protocol) (message : InMessage) : Protocol :=
  { P with peerManager := P.peerManager.handle message }

end Protocol

/-! ## Runs -/

/-- What happens to the protocol. The nonce is random, and `now` is the time at which it
happens. -/
inductive Event
  | connectionEstablished (peerId : PeerId) (conn : ConnectionId) (endpoint : ConnectedPoint)
      (nonce : Nat) (now : Instant)
  | connectionClosed (peerId : PeerId) (conn : ConnectionId)
  | handler (source : PeerId) (conn : ConnectionId) (event : HandlerOut) (now : Instant)
  | dialFailure (peerId : PeerId) (now : Instant)
  | peerManager (message : OutMessage) (now : Instant)
  | inMessage (message : InMessage)
  | pendingDial (now : Instant)
  | discovered (peerIds : List PeerId)
  | sendMessage (peerId : PeerId) (message : Bytes)
  | dropPeer (peerId : PeerId) (delay : Option Instant) (now : Instant)
  deriving DecidableEq, Repr

def Protocol.step (P : Protocol) : Event → Option Protocol
  | .connectionEstablished peerId conn endpoint nonce now =>
      P.injectConnectionEstablished peerId conn endpoint nonce now
  | .connectionClosed peerId conn => P.injectConnectionClosed peerId conn
  | .handler source conn event now => P.injectEvent source conn event now
  | .dialFailure peerId now => P.injectDialFailure peerId now
  | .peerManager message now => P.peerManagerMessage message now
  | .inMessage message => some (P.handleInMessage message)
  | .pendingDial now => some (P.pollPendingDial now)
  | .discovered peerIds => some (P.addDiscoveredPeers peerIds)
  | .sendMessage peerId message => some (P.sendMessage peerId message)
  | .dropPeer peerId delay now => P.dropPeer peerId delay now

/-- The connections whose handlers are told to open the protocol. -/
def opens (p : PeerId) (events : List NetworkBehaviourAction) : List ConnectionId :=
  events.filterMap fun
    | .notifyHandler peerId (.one conn) (.opening _) => if peerId = p then some conn else none
    | _ => none

/-- The protocol with the connections that there are, and those of them that were told
to open. -/
structure World where
  protocol : Protocol
  live : PeerId → List ConnectionId
  admitted : PeerId → List ConnectionId

namespace World

/-- The events of a step. -/
def emitted (w : World) (P : Protocol) : List NetworkBehaviourAction :=
  P.events.drop w.protocol.events.length

def liveAfter (w : World) (event : Event) (p : PeerId) : List ConnectionId :=
  match event with
  | .connectionEstablished peerId conn _ _ _ =>
      if peerId = p then conn :: w.live p else w.live p
  | .connectionClosed peerId conn =>
      if peerId = p then (w.live p).filter (· ≠ conn) else w.live p
  | _ => w.live p

def admittedAfter (w : World) (event : Event) (P : Protocol) (p : PeerId) : List ConnectionId :=
  match event with
  | .connectionClosed peerId conn =>
      if peerId = p then (w.admitted p).filter (· ≠ conn) else w.admitted p
  | _ => opens p (w.emitted P) ++ w.admitted p

def step (w : World) (event : Event) : Option World :=
  (w.protocol.step event).map fun P =>
    { protocol := P, live := w.liveAfter event, admitted := w.admittedAfter event P }

/-- A connection that is established gets an id that no other connection has. -/
def Fresh (w : World) : Event → Prop
  | .connectionEstablished peerId conn _ _ _ => conn ∉ w.live peerId
  | _ => True

def start (P : Protocol) : World := { protocol := P, live := fun _ => [], admitted := fun _ => [] }

end World

/-- The states of the runs all of whose events satisfy `Q` when they happen. -/
inductive Run (Q : World → Event → Prop) : World → Prop
  | new (localPeerId : PeerId) (handshakeBuilder : Nat → Bytes) (peerManager : PeerManager) :
      Run Q (.start (.new localPeerId handshakeBuilder peerManager))
  | step {w w' : World} {event : Event} (hrun : Run Q w) (hfresh : w.Fresh event)
      (hevent : Q w event) (hstep : w.step event = some w') : Run Q w'

end Finastate.Network
