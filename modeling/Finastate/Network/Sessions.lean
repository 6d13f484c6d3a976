import Finastate.Network.Protocol
import Mathlib.Data.List.Chain

/-!
# Sessions

What an event does to the state of a peer and what is told about it. From it:
the protocol is opened and closed in turns, and it is open if and only if some
connection of the peer is on the list of opened ones.
-/

namespace Finastate.Network

open PeerManager (PeerId IncomingId OutMessage InMessage PeerReport)

inductive Session
  | opened | closed
  deriving DecidableEq, Repr

/-- The opens and closes of a peer. -/
def sessions (p : PeerId) (events : List NetworkBehaviourAction) : List Session :=
  events.filterMap fun
    | .generateEvent (.protocolOpen peerId _ _ _) => if peerId = p then some .opened else none
    | .generateEvent (.protocolClose peerId _) => if peerId = p then some .closed else none
    | _ => none

@[simp] theorem sessions_append (p : PeerId) (events events' : List NetworkBehaviourAction) :
    sessions p (events ++ events') = sessions p events ++ sessions p events' :=
  List.filterMap_append

def Has (connections : Connections) (conn : ConnectionId) : Prop :=
  (AssocMap.get? connections conn).isSome = true

/-! ## What an event does to a peer -/

/-- The state of a peer before and after an event, with the opens and closes that are told
and the connections that are told to open. -/
inductive Turn (p : PeerId) :
    Event → PeerState → PeerState → List Session → List ConnectionId → Prop
  | same {event : Event} {state : PeerState} : Turn p event state state [] []
  | accepted {event : Event} {connectedList : Connections} {conn : ConnectionId} {nonce : Nat}
      (hhas : Has connectedList conn) :
      Turn p event (.connected connectedList nonce) (.connected connectedList nonce) [] [conn]
  | acceptedToo {event : Event} {connectedList openedList : Connections} {conn : ConnectionId}
      {nonce : Nat} (hhas : Has connectedList conn) :
      Turn p event (.protocolOpened connectedList openedList nonce)
        (.protocolOpened connectedList openedList nonce) [] [conn]
  | dial {event : Event} {pendingDial pendingDial' : Option Instant} :
      Turn p event (.init pendingDial) (.init pendingDial') [] []
  | first {conn : ConnectionId} {endpoint : ConnectedPoint} {nonce : Nat} {now : Instant}
      {pendingDial : Option Instant} {connection : Connection} {out : List ConnectionId}
      (hout : ∀ c ∈ out, c = conn) :
      Turn p (.connectionEstablished p conn endpoint nonce now) (.init pendingDial)
        (.connected [(conn, connection)] nonce) [] out
  | another {conn : ConnectionId} {endpoint : ConnectedPoint} {nonce nonce' : Nat} {now : Instant}
      {connectedList : Connections} {connection : Connection} :
      Turn p (.connectionEstablished p conn endpoint nonce' now) (.connected connectedList nonce)
        (.connected (AssocMap.insert connectedList conn connection) nonce) [] [conn]
  | anotherToo {conn : ConnectionId} {endpoint : ConnectedPoint} {nonce nonce' : Nat}
      {now : Instant} {connectedList openedList : Connections} {connection : Connection} :
      Turn p (.connectionEstablished p conn endpoint nonce' now)
        (.protocolOpened connectedList openedList nonce)
        (.protocolOpened (AssocMap.insert connectedList conn connection) openedList nonce) [] [conn]
  | disconnected {conn : ConnectionId} {connectedList : Connections} {nonce : Nat}
      (hnone : AssocMap.erase connectedList conn = []) :
      Turn p (.connectionClosed p conn) (.connected connectedList nonce) (.init none) [] []
  | lost {conn : ConnectionId} {connectedList : Connections} {nonce : Nat}
      (hsome : AssocMap.erase connectedList conn ≠ []) :
      Turn p (.connectionClosed p conn) (.connected connectedList nonce)
        (.connected (AssocMap.erase connectedList conn) nonce) [] []
  | closed {conn : ConnectionId} {connectedList openedList : Connections} {nonce : Nat}
      {state : PeerState} (hnone : AssocMap.erase openedList conn = [])
      (hstate : AssocMap.erase connectedList conn = [] ∧ state = .init none ∨
        AssocMap.erase connectedList conn ≠ [] ∧
          state = .connected (AssocMap.erase connectedList conn) nonce) :
      Turn p (.connectionClosed p conn) (.protocolOpened connectedList openedList nonce)
        state [.closed] []
  | lostToo {conn : ConnectionId} {connectedList openedList : Connections} {nonce : Nat}
      (hsome : AssocMap.erase openedList conn ≠ [] ∨ ¬ Has openedList conn) :
      Turn p (.connectionClosed p conn) (.protocolOpened connectedList openedList nonce)
        (.protocolOpened (AssocMap.erase connectedList conn) (AssocMap.erase openedList conn)
          nonce) [] []
  | opened {conn : ConnectionId} {handshake : Bytes} {now : Instant} {connectedList : Connections}
      {connection : Connection} {nonce : Nat}
      (hhas : AssocMap.get? connectedList conn = some connection) :
      Turn p (.handler p conn (.protocolOpen handshake) now) (.connected connectedList nonce)
        (.protocolOpened (AssocMap.erase connectedList conn) [(conn, connection)] nonce)
        [.opened] []
  | openedToo {conn : ConnectionId} {handshake : Bytes} {now : Instant}
      {connectedList openedList : Connections} {connection : Connection} {nonce : Nat}
      (hhas : AssocMap.get? connectedList conn = some connection) :
      Turn p (.handler p conn (.protocolOpen handshake) now)
        (.protocolOpened connectedList openedList nonce)
        (.protocolOpened (AssocMap.erase connectedList conn)
          (AssocMap.insert openedList conn connection) nonce) [] []
  | protocolClosed {conn : ConnectionId} {now : Instant} {connectedList openedList : Connections}
      {connection : Connection} {nonce : Nat}
      (hhas : AssocMap.get? openedList conn = some connection)
      (hnone : AssocMap.erase openedList conn = []) :
      Turn p (.handler p conn .protocolClose now) (.protocolOpened connectedList openedList nonce)
        (.connected (AssocMap.insert connectedList conn connection) nonce) [.closed] []
  | forgotten {conn : ConnectionId} {now : Instant} {connectedList openedList : Connections}
      {nonce : Nat} (hsome : AssocMap.erase openedList conn ≠ [] ∨ ¬ Has openedList conn) :
      Turn p (.handler p conn .protocolClose now) (.protocolOpened connectedList openedList nonce)
        (.protocolOpened connectedList (AssocMap.erase openedList conn) nonce) [] []

/-- Every peer takes its turn on an event. -/
def Turns (P : Protocol) (event : Event) (P' : Protocol) : Prop :=
  ∃ out, P'.events = P.events ++ out ∧
    ∀ p, Turn p event (P.peer p) (P'.peer p) (sessions p out) (opens p out)

variable {P P' : Protocol} {p q : PeerId} {event : Event} {state : PeerState}

@[simp] theorem peer_setPeer (P : Protocol) (q p : PeerId) (state : PeerState) :
    (P.setPeer q state).peer p = if p = q then state else P.peer p := by
  rw [Protocol.peer, Protocol.setPeer, AssocMap.get?_insert]
  split
  case isTrue heq => rfl
  case isFalse hne => rfl

/-- Only one peer is concerned. -/
theorem Turns.of_setPeer (out : List NetworkBehaviourAction)
    (hpeers : P'.peers = AssocMap.insert P.peers q state) (hevents : P'.events = P.events ++ out)
    (hother : ∀ p, q ≠ p → sessions p out = [] ∧ opens p out = [])
    (hturn : Turn q event (P.peer q) state (sessions q out) (opens q out)) :
    Turns P event P' := by
  have hpeer : ∀ p, P'.peer p = if p = q then state else P.peer p := by
    intro p
    rw [← peer_setPeer, Protocol.peer, hpeers]
    rfl
  refine ⟨out, hevents, fun p => ?_⟩
  rw [hpeer]
  split
  case isTrue heq =>
    subst heq
    exact hturn
  case isFalse hne =>
    obtain ⟨hsessions, hopens⟩ := hother p (Ne.symm hne)
    rw [hsessions, hopens]
    exact .same

/-- No peer is concerned, or only by messages to it. -/
theorem Turns.of_peers (hpeers : P'.peers = P.peers) {out : List NetworkBehaviourAction}
    (hevents : P'.events = P.events ++ out)
    (hout : ∀ p, sessions p out = [] ∧ opens p out = []) : Turns P event P' := by
  refine ⟨out, hevents, fun p => ?_⟩
  have hpeer : P'.peer p = P.peer p := by rw [Protocol.peer, hpeers]; rfl
  obtain ⟨hsessions, hopens⟩ := hout p
  rw [hpeer, hsessions, hopens]
  exact .same

/-! ## The handlers -/

/-- The state of a peer is written back, and nothing is told. -/
theorem Turns.same (hstate : P.peer q = state) : Turns P event (P.setPeer q state) := by
  refine Turns.of_setPeer [] rfl (List.append_nil _).symm (fun p _ => ⟨rfl, rfl⟩) ?_
  rw [hstate]
  exact .same

/-- The same after something was told about no opening. -/
theorem Turns.told {action : NetworkBehaviourAction} (hstate : P.peer q = state)
    (haction : ∀ p, sessions p [action] = [] ∧ opens p [action] = []) :
    Turns P event ((P.push action).setPeer q state) := by
  refine Turns.of_setPeer [action] rfl rfl (fun p _ => haction p) ?_
  obtain ⟨hsessions, hopens⟩ := haction q
  rw [hstate, hsessions, hopens]
  exact .same

theorem turns_closeAll (h : P.closeAll q = some P') : Turns P event P' := by
  unfold Protocol.closeAll at h
  split at h
  case h_1 pendingDial hstate =>
    cases h
    exact .same hstate
  case h_2 connectedList nonce hstate =>
    cases h
    exact .told hstate fun p => ⟨rfl, rfl⟩
  case h_3 connectedList openedList nonce hstate =>
    cases h
    exact .told hstate fun p => ⟨rfl, rfl⟩
  case h_4 hstate => cases h

theorem turns_dropPeer {delay : Option Instant} {now : Instant}
    (h : P.dropPeer q delay now = some P') : Turns P event P' := by
  unfold Protocol.dropPeer at h
  split at h
  case h_1 delay =>
    have hturns : Turns _ event P' := turns_closeAll h
    exact hturns
  case h_2 => exact turns_closeAll h

theorem turns_peerManagerConnect {now : Instant} (h : P.peerManagerConnect q now = some P') :
    Turns P event P' := by
  have hdial : ∀ {P₁ : Protocol} {pendingDial pendingDial' : Option Instant},
      P.peer q = .init pendingDial → P₁.peers = AssocMap.insert P.peers q (.init pendingDial') →
      (∃ out, P₁.events = P.events ++ out ∧ ∀ p, sessions p out = [] ∧ opens p out = []) →
      Turns P event P₁ := by
    rintro P₁ pendingDial pendingDial' hstate hpeers ⟨out, hevents, hout⟩
    refine .of_setPeer _ hpeers hevents (fun p _ => hout p) ?_
    obtain ⟨hsessions, hopens⟩ := hout q
    rw [hstate, hsessions, hopens]
    exact .dial
  have hnothing : ∃ out, P.events = P.events ++ out ∧ ∀ p, sessions p out = [] ∧ opens p out = [] :=
    ⟨[], (List.append_nil _).symm, fun p => ⟨rfl, rfl⟩⟩
  unfold Protocol.peerManagerConnect at h
  split at h
  case h_1 pendingDial hstate =>
    split at h
    case isTrue hself =>
      cases h
      exact .same hstate
    case isFalse hother =>
      cases h
      have hdialled : Turns P event
          (Protocol.connectOther.dial q pendingDial
            { P with delayPeers := AssocMap.erase P.delayPeers q }) := by
        unfold Protocol.connectOther.dial
        split
        case h_1 => exact hdial hstate rfl ⟨[.dialPeer q], rfl, fun p => ⟨rfl, rfl⟩⟩
        case h_2 instant => exact hdial hstate rfl hnothing
      unfold Protocol.connectOther
      dsimp only
      split
      case h_1 instant hinstant =>
        split
        case isTrue hlater => exact hdial hstate rfl hnothing
        case isFalse hnow => exact hdialled
      case h_2 hinstant => exact hdialled
  case h_2 connectedList nonce hstate =>
    cases h
    exact .same hstate
  case h_3 connectedList openedList nonce hstate =>
    cases h
    exact .same hstate
  case h_4 hstate => cases h

theorem opens_notifyOpen (P : Protocol) (q p : PeerId) (conn : ConnectionId) (nonce : Nat) :
    opens p [.notifyHandler q (.one conn) (.opening (P.handshakeBuilder nonce))] =
      if q = p then [conn] else [] := by
  by_cases heq : q = p
  · simp [opens, heq]
  · simp [opens, heq]

/-- What is told about the connection of an accepted incoming id. -/
theorem openIncoming_events (P : Protocol) (q : PeerId) (connectedList : Connections)
    (nonce : Nat) (incomingId : IncomingId) :
    (P.openIncoming q connectedList nonce incomingId).peers = P.peers ∧
      ∃ out, (P.openIncoming q connectedList nonce incomingId).events = P.events ++ out ∧
        (∀ p, sessions p out = []) ∧ (∀ p, q ≠ p → opens p out = []) ∧
        (opens q out = [] ∨ ∃ conn, Has connectedList conn ∧ opens q out = [conn]) := by
  unfold Protocol.openIncoming
  split
  case h_1 conn connection hfind =>
    refine ⟨rfl, _, rfl, fun p => rfl, fun p hne => ?_, Or.inr ⟨conn, ?_, ?_⟩⟩
    · rw [opens_notifyOpen, if_neg hne]
    · have hmem := List.mem_of_find?_eq_some hfind
      rw [Has, AssocMap.get?, Option.isSome_map, List.find?_isSome]
      exact ⟨_, hmem, by simp⟩
    · rw [opens_notifyOpen, if_pos rfl]
  case h_2 hfind =>
    exact ⟨rfl, [], (List.append_nil _).symm, fun p => rfl, fun p _ => rfl, Or.inl rfl⟩

/-- The state of a peer is written back after its connection was accepted. -/
theorem Turns.openIncoming {P₁ : Protocol} (hpeers : P₁.peers = P.peers)
    (hevents : P₁.events = P.events) (hstate : P.peer q = state) {connectedList : Connections}
    (haccepted : ∀ conn, Has connectedList conn → Turn q event state state [] [conn])
    (nonce : Nat) (incomingId : IncomingId) :
    Turns P event ((P₁.openIncoming q connectedList nonce incomingId).setPeer q state) := by
  obtain ⟨hsame, out, hout, hsessions, hother, hopens⟩ :=
    openIncoming_events P₁ q connectedList nonce incomingId
  have hwritten : ((P₁.openIncoming q connectedList nonce incomingId).setPeer q state).peers =
      AssocMap.insert P.peers q state := by
    rw [← hpeers, ← hsame]
    rfl
  have htold : ((P₁.openIncoming q connectedList nonce incomingId).setPeer q state).events =
      P.events ++ out := by
    rw [← hevents]
    exact hout
  refine .of_setPeer out hwritten htold (fun p hne => ⟨hsessions p, hother p hne⟩) ?_
  rw [hstate, hsessions]
  rcases hopens with hnone | ⟨conn, hhas, hone⟩
  · rw [hnone]
    exact .same
  · rw [hone]
    exact haccepted conn hhas

theorem turns_peerManagerAccept {incomingId : IncomingId}
    (h : P.peerManagerAccept incomingId = some P') : Turns P event P' := by
  unfold Protocol.peerManagerAccept at h
  split at h
  case h_1 hnone =>
    cases h
    exact .of_peers rfl (List.append_nil _).symm fun p => ⟨rfl, rfl⟩
  case h_2 q hsome =>
    generalize hP₁ : { P with
      incomingPeers := AssocMap.erase P.incomingPeers incomingId } = P₁ at h
    have hpeers : P₁.peers = P.peers := by rw [← hP₁]
    have hevents : P₁.events = P.events := by rw [← hP₁]
    have hpeer : P₁.peer q = P.peer q := by rw [← hP₁]; rfl
    simp only [hpeer] at h
    split at h
    case h_1 pendingDial hstate =>
      cases h
      have hwritten : ((P₁.dropped q).setPeer q (.init pendingDial)).peers =
          AssocMap.insert P.peers q (.init pendingDial) := by
        rw [← hpeers]
        rfl
      refine .of_setPeer [] hwritten (hevents.trans (List.append_nil _).symm)
        (fun p _ => ⟨rfl, rfl⟩) ?_
      rw [hstate]
      exact .same
    case h_2 connectedList nonce hstate =>
      cases h
      exact .openIncoming hpeers hevents hstate (fun conn hhas => .accepted hhas) nonce incomingId
    case h_3 connectedList openedList nonce hstate =>
      cases h
      exact .openIncoming hpeers hevents hstate (fun conn hhas => .acceptedToo hhas) nonce
        incomingId
    case h_4 hstate => cases h

theorem turns_peerManagerReject {incomingId : IncomingId}
    (h : P.peerManagerReject incomingId = some P') : Turns P event P' := by
  unfold Protocol.peerManagerReject at h
  split at h
  case h_1 hnone =>
    cases h
    exact .of_peers rfl (List.append_nil _).symm fun p => ⟨rfl, rfl⟩
  case h_2 q hsome =>
    have hturns : Turns _ event P' := turns_closeAll h
    exact hturns

/-- What is told about the first connection to a peer. -/
theorem firstConnection_events (P : Protocol) (q : PeerId) (conn : ConnectionId)
    (endpoint : ConnectedPoint) (nonce : Nat) (now : Instant) :
    (P.firstConnection q conn endpoint nonce now).1.peers = P.peers ∧
      ∃ out, (P.firstConnection q conn endpoint nonce now).1.events = P.events ++ out ∧
        (∀ p, sessions p out = []) ∧ (∀ p, q ≠ p → opens p out = []) ∧
        ∀ c ∈ opens q out, c = conn := by
  unfold Protocol.firstConnection
  split
  case h_1 address =>
    refine ⟨rfl, _, rfl, fun p => rfl, fun p hne => ?_, fun c hc => ?_⟩
    · rw [opens_notifyOpen, if_neg hne]
    · rw [opens_notifyOpen, if_pos rfl] at hc
      exact List.mem_singleton.1 hc
  case h_2 localAddr sendBackAddr =>
    dsimp only
    split
    case h_1 instant hinstant =>
      split
      case isTrue hlater =>
        exact ⟨rfl, _, rfl, fun p => rfl, fun p _ => rfl, fun c hc => nomatch hc⟩
      case isFalse hnow =>
        exact ⟨rfl, [], (List.append_nil _).symm, fun p => rfl, fun p _ => rfl,
          fun c hc => nomatch hc⟩
    case h_2 hinstant =>
      exact ⟨rfl, [], (List.append_nil _).symm, fun p => rfl, fun p _ => rfl,
        fun c hc => nomatch hc⟩

/-- What is told about another connection to a peer. -/
theorem anotherConnection_cases (P : Protocol) (q : PeerId) (conn : ConnectionId)
    (endpoint : ConnectedPoint) (connectedList : Connections) (nonce : Nat) :
    P.anotherConnection q conn endpoint connectedList nonce =
        (P.notifyOpen q conn nonce,
          AssocMap.insert connectedList conn ⟨endpoint, none⟩) ∨
      P.anotherConnection q conn endpoint connectedList nonce =
        (P.notify q (.one conn) .close, connectedList) := by
  unfold Protocol.anotherConnection
  split
  case isTrue hopen => exact Or.inl rfl
  case isFalse hclose => exact Or.inr rfl

theorem turns_injectConnectionEstablished {conn : ConnectionId} {endpoint : ConnectedPoint}
    {nonce : Nat} {now : Instant}
    (h : P.injectConnectionEstablished q conn endpoint nonce now = some P') :
    Turns P (.connectionEstablished q conn endpoint nonce now) P' := by
  unfold Protocol.injectConnectionEstablished at h
  split at h
  case h_1 pendingDial hstate =>
    cases h
    obtain ⟨hsame, out, hout, hsessions, hother, hopens⟩ :=
      firstConnection_events P q conn endpoint nonce now
    refine .of_setPeer (q := q) out (congrArg (AssocMap.insert · q _) hsame) hout
      (fun p hne => ⟨hsessions p, hother p hne⟩) ?_
    rw [hstate, hsessions]
    exact .first hopens
  case h_2 connectedList nonce hstate =>
    rcases anotherConnection_cases P q conn endpoint connectedList nonce with heq | heq
    · rw [heq] at h
      cases h
      refine .of_setPeer (q := q) _ rfl rfl (fun p hne => ⟨rfl, ?_⟩) ?_
      · rw [opens_notifyOpen, if_neg hne]
      · rw [opens_notifyOpen, if_pos rfl, hstate]
        exact .another
    · rw [heq] at h
      cases h
      exact .told hstate fun p => ⟨rfl, rfl⟩
  case h_3 connectedList openedList nonce hstate =>
    rcases anotherConnection_cases P q conn endpoint connectedList nonce with heq | heq
    · rw [heq] at h
      cases h
      refine .of_setPeer (q := q) _ rfl rfl (fun p hne => ⟨rfl, ?_⟩) ?_
      · rw [opens_notifyOpen, if_neg hne]
      · rw [opens_notifyOpen, if_pos rfl, hstate]
        exact .anotherToo
    · rw [heq] at h
      cases h
      exact .told hstate fun p => ⟨rfl, rfl⟩
  case h_4 hstate => cases h

theorem sessions_protocolOpen (q p : PeerId) (connectedPoint : ConnectedPoint) (nonce : Nat)
    (handshake : Bytes) :
    sessions p [.generateEvent (.protocolOpen q connectedPoint nonce handshake)] =
      if q = p then [.opened] else [] := by
  by_cases heq : q = p
  · simp [sessions, heq]
  · simp [sessions, heq]

theorem sessions_protocolClose (q p : PeerId) (connectedPoint : ConnectedPoint) :
    sessions p [.generateEvent (.protocolClose q connectedPoint)] =
      if q = p then [.closed] else [] := by
  by_cases heq : q = p
  · simp [sessions, heq]
  · simp [sessions, heq]

/-- The protocol of a peer is closed. -/
theorem Turns.protocolClose {P₁ : Protocol} {connectedPoint : ConnectedPoint}
    (hpeers : P₁.peers = AssocMap.insert P.peers q state)
    (hevents : P₁.events = P.events ++ [.generateEvent (.protocolClose q connectedPoint)])
    (hturn : Turn q event (P.peer q) state [.closed] []) : Turns P event P₁ := by
  refine .of_setPeer _ hpeers hevents (fun p hne => ⟨?_, rfl⟩) ?_
  · rw [sessions_protocolClose, if_neg hne]
  · rw [sessions_protocolClose, if_pos rfl]
    exact hturn

/-- The state of a peer changes, and nothing is told. -/
theorem Turns.quiet {P₁ : Protocol} (hpeers : P₁.peers = AssocMap.insert P.peers q state)
    (hevents : P₁.events = P.events) (hturn : Turn q event (P.peer q) state [] []) :
    Turns P event P₁ :=
  .of_setPeer [] hpeers (hevents.trans (List.append_nil _).symm)
    (fun _ _ => ⟨rfl, rfl⟩) hturn

theorem turns_injectConnectionClosed {conn : ConnectionId}
    (h : P.injectConnectionClosed q conn = some P') :
    Turns P (.connectionClosed q conn) P' := by
  unfold Protocol.injectConnectionClosed at h
  split at h
  case h_1 pendingDial hstate =>
    cases h
    exact .same hstate
  case h_2 connectedList nonce hstate =>
    dsimp only at h
    split at h
    case isTrue hnone =>
      cases h
      exact .quiet rfl rfl (hstate ▸ .disconnected hnone)
    case isFalse hsome =>
      cases h
      exact .quiet rfl rfl (hstate ▸ .lost hsome)
  case h_3 connectedList openedList nonce hstate =>
    dsimp only at h
    split at h
    case h_1 connection hconnection hnone =>
      split at h
      case isTrue hempty =>
        cases h
        exact .protocolClose rfl rfl (hstate ▸ .closed hnone (Or.inl ⟨hempty, rfl⟩))
      case isFalse hleft =>
        cases h
        exact .protocolClose rfl rfl (hstate ▸ .closed hnone (Or.inr ⟨hleft, rfl⟩))
    case h_2 hother =>
      cases h
      refine .quiet rfl rfl (hstate ▸ .lostToo ?_)
      by_contra hnot
      obtain ⟨hnone, hhas⟩ := not_or.1 hnot
      obtain ⟨connection, hconnection⟩ := Option.isSome_iff_exists.1 (not_not.1 hhas)
      exact hother connection (by rw [hconnection, Option.some_or]) (not_not.1 hnone)
  case h_4 hstate => cases h

theorem turns_onProtocolOpen {conn : ConnectionId} {handshake : Bytes} {now : Instant}
    (h : P.onProtocolOpen q conn handshake = some P') :
    Turns P (.handler q conn (.protocolOpen handshake) now) P' := by
  unfold Protocol.onProtocolOpen at h
  split at h
  case h_1 pendingDial hstate =>
    cases h
    exact .same hstate
  case h_2 connectedList nonce hstate =>
    split at h
    case h_1 connection hhas =>
      cases h
      refine .of_setPeer (q := q) _ rfl rfl (fun _ hne => ⟨?_, rfl⟩) ?_
      · rw [sessions_protocolOpen, if_neg hne]
      · rw [sessions_protocolOpen, if_pos rfl, hstate]
        exact .opened hhas
    case h_2 hnone =>
      cases h
      exact .same hstate
  case h_3 connectedList openedList nonce hstate =>
    split at h
    case h_1 connection hhas =>
      cases h
      exact .quiet rfl rfl (hstate ▸ .openedToo hhas)
    case h_2 hnone =>
      cases h
      exact .same hstate
  case h_4 hstate => cases h

theorem turns_onProtocolClose {conn : ConnectionId} {now : Instant}
    (h : P.onProtocolClose q conn = some P') :
    Turns P (.handler q conn .protocolClose now) P' := by
  unfold Protocol.onProtocolClose at h
  split at h
  case h_1 pendingDial hstate =>
    cases h
    exact .same hstate
  case h_2 connectedList nonce hstate =>
    cases h
    exact .same hstate
  case h_3 connectedList openedList nonce hstate =>
    split at h
    case h_1 connection hhas hnone =>
      cases h
      exact .protocolClose rfl rfl (hstate ▸ .protocolClosed hhas hnone)
    case h_2 hother =>
      cases h
      refine .quiet rfl rfl (hstate ▸ .forgotten ?_)
      by_contra hnot
      obtain ⟨hnone, hhas⟩ := not_or.1 hnot
      obtain ⟨connection, hconnection⟩ := Option.isSome_iff_exists.1 (not_not.1 hhas)
      exact hother connection hconnection (not_not.1 hnone)
  case h_4 hstate => cases h

theorem turns_onProtocolError {conn : ConnectionId} {shouldDisconnect : Bool} {now : Instant}
    (h : P.onProtocolError q conn shouldDisconnect now = some P') : Turns P event P' := by
  have hwritten : ∀ {b : Bool} {state : PeerState}, P.peer q = state →
      Turns P event
        ((if b = true then P.disconnect q conn now else P).setPeer q state) := by
    intro b state hstate
    cases b with
    | true =>
        have htold : Turns P event ((P.notify q (.one conn) .close).setPeer q state) :=
          .told hstate fun p => ⟨rfl, rfl⟩
        exact htold
    | false => exact .same hstate
  unfold Protocol.onProtocolError at h
  split at h
  case h_1 pendingDial hstate =>
    cases h
    exact .same hstate
  case h_2 connectedList nonce hstate =>
    cases h
    exact hwritten hstate
  case h_3 connectedList openedList nonce hstate =>
    cases h
    exact hwritten hstate
  case h_4 hstate => cases h

theorem turns_injectDialFailure {now : Instant} (h : P.injectDialFailure q now = some P') :
    Turns P event P' := by
  unfold Protocol.injectDialFailure at h
  split at h
  case h_1 pendingDial hstate =>
    cases h
    exact .quiet rfl rfl (hstate ▸ .dial)
  case h_2 connectedList nonce hstate =>
    cases h
    exact .same hstate
  case h_3 connectedList openedList nonce hstate =>
    cases h
    exact .same hstate
  case h_4 hstate => cases h

theorem turns_pollPendingDial {now : Instant} : Turns P event (P.pollPendingDial now) := by
  refine ⟨_, rfl, fun p => ?_⟩
  have hout : ∀ peers : List (PeerId × PeerState),
      sessions p (peers.map fun e => .dialPeer e.1) = [] ∧
        opens p (peers.map fun e => .dialPeer e.1) = [] := by
    intro peers
    constructor
    · simp [sessions]
    · simp [opens]
  obtain ⟨hsessions, hopens⟩ := hout (P.peers.filter fun e => Protocol.due now e.2)
  rw [hsessions, hopens]
  have hget : AssocMap.get? (P.pollPendingDial now).peers p =
      (AssocMap.get? P.peers p).map fun state =>
        if Protocol.due now state then .init none else state :=
    AssocMap.get?_mapValues (fun _ state => if Protocol.due now state then .init none else state)
      P.peers p
  simp only [Protocol.peer, hget]
  cases hstate : AssocMap.get? P.peers p with
  | none => exact .same
  | some state =>
      rw [Option.map_some, Option.getD_some, Option.getD_some]
      split
      case isTrue hdue =>
        cases state with
        | init pendingDial => exact .dial
        | connected connectedList nonce => cases hdue
        | protocolOpened connectedList openedList nonce => cases hdue
        | locked => cases hdue
      case isFalse hnot => exact .same

theorem turns_addDiscoveredPeers (P : Protocol) (peerIds : List PeerId) :
    Turns P event (P.addDiscoveredPeers peerIds) := by
  have hkept : ∀ P : Protocol, (P.addDiscoveredPeers peerIds).peers = P.peers ∧
      (P.addDiscoveredPeers peerIds).events = P.events := by
    induction peerIds with
    | nil => exact fun P => ⟨rfl, rfl⟩
    | cons peerId peerIds ih =>
        intro P
        rw [Protocol.addDiscoveredPeers, List.foldl_cons]
        split
        case isTrue hother => exact ih { P with peerManager := P.peerManager.discovered peerId }
        case isFalse hself => exact ih P
  exact .of_peers (hkept P).1 ((hkept P).2.trans (List.append_nil _).symm) fun p => ⟨rfl, rfl⟩

theorem turns_sendMessage (P : Protocol) (q : PeerId) (message : Bytes) :
    Turns P event (P.sendMessage q message) := by
  unfold Protocol.sendMessage
  split
  case h_1 => exact .of_peers rfl rfl fun p => ⟨rfl, rfl⟩
  case h_2 => exact .of_peers rfl (List.append_nil _).symm fun p => ⟨rfl, rfl⟩

theorem turns_of_step (h : P.step event = some P') : Turns P event P' := by
  cases event with
  | connectionEstablished q conn endpoint nonce now => exact turns_injectConnectionEstablished h
  | connectionClosed q conn => exact turns_injectConnectionClosed h
  | handler q conn out now =>
      cases out with
      | protocolOpen handshake => exact turns_onProtocolOpen h
      | protocolClose => exact turns_onProtocolClose h
      | protocolError shouldDisconnect => exact turns_onProtocolError h
      | message message =>
          cases h
          exact .of_peers rfl rfl fun p => ⟨rfl, rfl⟩
  | dialFailure q now => exact turns_injectDialFailure h
  | peerManager message now =>
      cases message with
      | connect q => exact turns_peerManagerConnect h
      | drop q => exact turns_closeAll h
      | accept incomingId => exact turns_peerManagerAccept h
      | reject incomingId => exact turns_peerManagerReject h
  | inMessage message =>
      cases h
      exact .of_peers rfl (List.append_nil _).symm fun p => ⟨rfl, rfl⟩
  | pendingDial now =>
      cases h
      exact turns_pollPendingDial
  | discovered peerIds =>
      cases h
      exact turns_addDiscoveredPeers P peerIds
  | sendMessage q message =>
      cases h
      exact turns_sendMessage P q message
  | dropPeer q delay now => exact turns_dropPeer h

/-- A handler gets stuck only at a peer that is locked. -/
theorem step_isSome (h : ∀ p, P.peer p ≠ .locked) (event : Event) : (P.step event).isSome := by
  have hcloseAll : ∀ {P : Protocol} (q : PeerId), P.peer q ≠ .locked → (P.closeAll q).isSome := by
    intro P q hq
    unfold Protocol.closeAll
    split <;> first | rfl | contradiction
  cases event with
  | connectionEstablished q conn endpoint nonce now =>
      have hq := h q
      simp only [Protocol.step, Protocol.injectConnectionEstablished]
      split <;> first | rfl | contradiction
  | connectionClosed q conn =>
      have hq := h q
      simp only [Protocol.step, Protocol.injectConnectionClosed]
      split <;> first | rfl | contradiction | (split <;> first | rfl | (split <;> rfl))
  | handler q conn out now =>
      have hq := h q
      cases out with
      | protocolOpen handshake =>
          simp only [Protocol.step, Protocol.injectEvent, Protocol.onProtocolOpen]
          split <;> first | rfl | contradiction | (split <;> rfl)
      | protocolClose =>
          simp only [Protocol.step, Protocol.injectEvent, Protocol.onProtocolClose]
          split <;> first | rfl | contradiction | (split <;> rfl)
      | protocolError shouldDisconnect =>
          simp only [Protocol.step, Protocol.injectEvent, Protocol.onProtocolError]
          split <;> first | rfl | contradiction
      | message message => rfl
  | dialFailure q now =>
      have hq := h q
      simp only [Protocol.step, Protocol.injectDialFailure]
      split <;> first | rfl | contradiction
  | peerManager message now =>
      cases message with
      | connect q =>
          have hq := h q
          simp only [Protocol.step, Protocol.peerManagerMessage, Protocol.peerManagerConnect]
          split <;> first | rfl | contradiction | (split <;> rfl)
      | drop q => exact hcloseAll q (h q)
      | accept incomingId =>
          simp only [Protocol.step, Protocol.peerManagerMessage, Protocol.peerManagerAccept]
          split
          case h_1 => rfl
          case h_2 q hsome =>
            have hq := h q
            split <;> first | rfl | contradiction
      | reject incomingId =>
          simp only [Protocol.step, Protocol.peerManagerMessage, Protocol.peerManagerReject]
          split
          case h_1 => rfl
          case h_2 q hsome => exact hcloseAll q (h q)
  | inMessage message => rfl
  | pendingDial now => rfl
  | discovered peerIds => rfl
  | sendMessage q message => rfl
  | dropPeer q delay now =>
      simp only [Protocol.step, Protocol.dropPeer]
      split
      case h_1 delay => exact hcloseAll q (h q)
      case h_2 => exact hcloseAll q (h q)

/-! ## Opens and closes in turns -/

/-- The last of the opens and closes; a peer starts closed. -/
def lastSession (l : List Session) : Session := l.getLast?.getD .closed

/-- The opens and closes alternate, and an open is the first. -/
def Alternate (l : List Session) : Prop := (Session.closed :: l).IsChain (· ≠ ·)

theorem lastSession_append (l : List Session) (s : Session) : lastSession (l ++ [s]) = s := by
  simp [lastSession]

theorem alternate_nil : Alternate [] := List.isChain_singleton _

theorem Alternate.append {l : List Session} {s : Session} (h : Alternate l)
    (hne : lastSession l ≠ s) : Alternate (l ++ [s]) := by
  rw [Alternate, ← List.cons_append, List.isChain_append]
  refine ⟨h, List.isChain_singleton s, fun x hx y hy => ?_⟩
  cases hy
  rw [List.getLast?_cons] at hx
  cases hx
  exact hne

/-- Whether the protocol of a peer is open. -/
def PeerState.phase : PeerState → Session
  | .protocolOpened _ _ _ => .opened
  | _ => .closed

/-- The lists of a state are as they should be. -/
def PeerState.Sound : PeerState → Prop
  | .init _ => True
  | .connected connectedList _ => connectedList ≠ []
  | .protocolOpened connectedList openedList _ =>
      openedList ≠ [] ∧ ∀ conn, Has openedList conn → ¬ Has connectedList conn
  | .locked => False

/-- The connections of a peer that are known. -/
def PeerState.Knows : PeerState → ConnectionId → Prop
  | .connected connectedList _, conn => Has connectedList conn
  | .protocolOpened connectedList openedList _, conn =>
      Has connectedList conn ∨ Has openedList conn
  | _, _ => False

section Has

variable {l : Connections} {c c' : ConnectionId} {connection : Connection}

@[simp] theorem not_has_nil : ¬ Has [] c := nofun

@[simp] theorem has_singleton : Has [(c', connection)] c ↔ c = c' := by
  rw [Has, AssocMap.get?_cons]
  by_cases h : c' = c
  · simp [h]
  · simp [h, Ne.symm h]

@[simp] theorem has_erase : Has (AssocMap.erase l c') c ↔ c ≠ c' ∧ Has l c := by
  rw [Has, AssocMap.get?_erase, Has]
  by_cases h : c = c'
  · simp [h]
  · simp [h]

@[simp] theorem has_insert : Has (AssocMap.insert l c' connection) c ↔ c = c' ∨ Has l c := by
  rw [Has, AssocMap.get?_insert, Has]
  by_cases h : c = c'
  · simp [h]
  · simp [h]

theorem has_of_get? (h : AssocMap.get? l c = some connection) : Has l c := by
  rw [Has, h]
  rfl

/-- Nothing is erased. -/
theorem erase_of_not_has (h : ¬ Has l c) : AssocMap.erase l c = l := by
  apply List.filter_eq_self.2
  intro e he
  simp only [decide_eq_true_eq]
  rintro rfl
  refine h ?_
  rw [Has, AssocMap.get?, Option.isSome_map, List.find?_isSome]
  exact ⟨e, he, by simp⟩

end Has

variable {state' : PeerState} {out : List Session} {told : List ConnectionId}

/-- An open changes a closed peer to an open one and a close an open one to a closed one. -/
theorem Turn.phase (h : Turn p event state state' out told) (hsound : state.Sound) :
    out = [] ∧ state'.phase = state.phase ∨ ∃ s, out = [s] ∧ state.phase ≠ s ∧ state'.phase = s := by
  cases h with
  | same => exact Or.inl ⟨rfl, rfl⟩
  | accepted hhas => exact Or.inl ⟨rfl, rfl⟩
  | acceptedToo hhas => exact Or.inl ⟨rfl, rfl⟩
  | dial => exact Or.inl ⟨rfl, rfl⟩
  | first hout => exact Or.inl ⟨rfl, rfl⟩
  | another => exact Or.inl ⟨rfl, rfl⟩
  | anotherToo => exact Or.inl ⟨rfl, rfl⟩
  | disconnected hnone => exact Or.inl ⟨rfl, rfl⟩
  | lost hsome => exact Or.inl ⟨rfl, rfl⟩
  | closed hnone hstate =>
      refine Or.inr ⟨.closed, rfl, nofun, ?_⟩
      rcases hstate with ⟨-, rfl⟩ | ⟨-, rfl⟩
      · rfl
      · rfl
  | lostToo hsome => exact Or.inl ⟨rfl, rfl⟩
  | opened hhas => exact Or.inr ⟨.opened, rfl, nofun, rfl⟩
  | openedToo hhas => exact Or.inl ⟨rfl, rfl⟩
  | protocolClosed hhas hnone => exact Or.inr ⟨.closed, rfl, nofun, rfl⟩
  | forgotten hsome => exact Or.inl ⟨rfl, rfl⟩

/-- A list of opened connections that loses one that it has not, or not its only one. -/
theorem erase_ne_nil {l : Connections} {c : ConnectionId} (hne : l ≠ [])
    (h : AssocMap.erase l c ≠ [] ∨ ¬ Has l c) : AssocMap.erase l c ≠ [] := by
  rcases h with hsome | hnot
  · exact hsome
  · rw [erase_of_not_has hnot]
    exact hne

/-- A connection that is established is not known yet. -/
def NewTo (p : PeerId) (state : PeerState) : Event → Prop
  | .connectionEstablished q conn _ _ _ => q = p → ¬ state.Knows conn
  | _ => True

theorem Turn.sound (h : Turn p event state state' out told) (hsound : state.Sound)
    (hnew : NewTo p state event) : state'.Sound := by
  cases h with
  | same => exact hsound
  | accepted hhas => exact hsound
  | acceptedToo hhas => exact hsound
  | dial => trivial
  | first hout => exact List.cons_ne_nil _ _
  | another => exact List.cons_ne_nil _ _
  | @anotherToo conn =>
      refine ⟨hsound.1, fun c hopened hconnected => ?_⟩
      rcases has_insert.1 hconnected with rfl | hold
      · exact hnew rfl (Or.inr hopened)
      · exact hsound.2 c hopened hold
  | disconnected hnone => trivial
  | lost hsome => exact hsome
  | closed hnone hstate =>
      rcases hstate with ⟨-, rfl⟩ | ⟨hsome, rfl⟩
      · trivial
      · exact hsome
  | lostToo hsome =>
      refine ⟨erase_ne_nil hsound.1 hsome, fun c hopened hconnected => ?_⟩
      exact hsound.2 c (has_erase.1 hopened).2 (has_erase.1 hconnected).2
  | opened hhas =>
      refine ⟨List.cons_ne_nil _ _, fun c hopened hconnected => ?_⟩
      exact (has_erase.1 hconnected).1 (has_singleton.1 hopened)
  | openedToo hhas =>
      refine ⟨List.cons_ne_nil _ _, fun c hopened hconnected => ?_⟩
      obtain ⟨hne, hold⟩ := has_erase.1 hconnected
      exact hsound.2 c ((has_insert.1 hopened).resolve_left hne) hold
  | protocolClosed hhas hnone => exact List.cons_ne_nil _ _
  | forgotten hsome =>
      refine ⟨erase_ne_nil hsound.1 hsome, fun c hopened hconnected => ?_⟩
      exact hsound.2 c (has_erase.1 hopened).2 hconnected

/-- Only an established connection becomes known. -/
theorem Turn.knows (h : Turn p event state state' out told) {c : ConnectionId}
    (hc : state'.Knows c) :
    state.Knows c ∨
      ∃ endpoint nonce now, event = .connectionEstablished p c endpoint nonce now := by
  cases h with
  | same => exact Or.inl hc
  | accepted hhas => exact Or.inl hc
  | acceptedToo hhas => exact Or.inl hc
  | dial => cases hc
  | first hout =>
      obtain rfl := has_singleton.1 hc
      exact Or.inr ⟨_, _, _, rfl⟩
  | another =>
      rcases has_insert.1 hc with rfl | hold
      · exact Or.inr ⟨_, _, _, rfl⟩
      · exact Or.inl hold
  | anotherToo =>
      rcases hc with hc | hopened
      · rcases has_insert.1 hc with rfl | hold
        · exact Or.inr ⟨_, _, _, rfl⟩
        · exact Or.inl (Or.inl hold)
      · exact Or.inl (Or.inr hopened)
  | disconnected hnone => cases hc
  | lost hsome => exact Or.inl (has_erase.1 hc).2
  | closed hnone hstate =>
      rcases hstate with ⟨-, rfl⟩ | ⟨hsome, rfl⟩
      · cases hc
      · exact Or.inl (Or.inl (has_erase.1 hc).2)
  | lostToo hsome => exact Or.inl (hc.imp (fun hc => (has_erase.1 hc).2) fun hc => (has_erase.1 hc).2)
  | opened hhas =>
      rcases hc with hc | hc
      · exact Or.inl (has_erase.1 hc).2
      · obtain rfl := has_singleton.1 hc
        exact Or.inl (has_of_get? hhas)
  | openedToo hhas =>
      rcases hc with hc | hc
      · exact Or.inl (Or.inl (has_erase.1 hc).2)
      · rcases has_insert.1 hc with rfl | hold
        · exact Or.inl (Or.inl (has_of_get? hhas))
        · exact Or.inl (Or.inr hold)
  | protocolClosed hhas hnone =>
      rcases has_insert.1 hc with rfl | hold
      · exact Or.inl (Or.inr (has_of_get? hhas))
      · exact Or.inl (Or.inl hold)
  | forgotten hsome => exact Or.inl (hc.imp_right fun hc => (has_erase.1 hc).2)

/-- What is known of a peer after a connection to it is closed. -/
theorem knows_injectConnectionClosed {conn : ConnectionId}
    (h : P.injectConnectionClosed q conn = some P') : ¬ (P'.peer q).Knows conn := by
  have hself : ∀ P₁ : Protocol, ∀ state, (P₁.setPeer q state).peer q = state := by
    intro P₁ state
    rw [peer_setPeer, if_pos rfl]
  unfold Protocol.injectConnectionClosed at h
  split at h
  case h_1 pendingDial hstate =>
    cases h
    rw [hself]
    exact not_false
  case h_2 connectedList nonce hstate =>
    dsimp only at h
    split at h
    case isTrue hnone =>
      cases h
      rw [hself]
      exact not_false
    case isFalse hsome =>
      cases h
      rw [hself]
      exact fun hknows => (has_erase.1 hknows).1 rfl
  case h_3 connectedList openedList nonce hstate =>
    dsimp only at h
    split at h
    case h_1 connection hconnection hnone =>
      split at h
      case isTrue hempty =>
        cases h
        rw [hself]
        exact not_false
      case isFalse hleft =>
        cases h
        rw [hself]
        exact fun hknows => (has_erase.1 hknows).1 rfl
    case h_2 hother =>
      cases h
      rw [hself]
      exact fun hknows => hknows.elim (fun h => (has_erase.1 h).1 rfl) fun h => (has_erase.1 h).1 rfl
  case h_4 hstate => cases h

/-! ## Runs -/

variable {w w' : World}

/-- The opens and closes of a peer so far, and its state. -/
structure InTurns (w : World) (p : PeerId) : Prop where
  alternate : Alternate (sessions p w.protocol.events)
  phase : lastSession (sessions p w.protocol.events) = (w.protocol.peer p).phase
  sound : (w.protocol.peer p).Sound
  live : ∀ conn, (w.protocol.peer p).Knows conn → conn ∈ w.live p

namespace InTurns

theorem start (P : Protocol) (hpeers : P.peers = []) (hevents : P.events = []) (p : PeerId) :
    InTurns (.start P) p := by
  have hpeer : (World.start P).protocol.peer p = .init none := by
    rw [Protocol.peer]
    exact congrArg (fun peers => (AssocMap.get? peers p).getD (.init none)) hpeers
  have hsessions : sessions p (World.start P).protocol.events = [] := by
    rw [show (World.start P).protocol.events = [] from hevents]
    rfl
  constructor
  · rw [hsessions]
    exact alternate_nil
  · rw [hsessions, hpeer]
    rfl
  · rw [hpeer]
    trivial
  · rw [hpeer]
    exact fun conn hknows => nomatch hknows

theorem step (h : InTurns w p) (hfresh : w.Fresh event) (hstep : w.step event = some w') :
    InTurns w' p := by
  obtain ⟨P', hP', rfl⟩ := Option.map_eq_some_iff.1 hstep
  obtain ⟨out, hout, hturns⟩ := turns_of_step hP'
  have hturn := hturns p
  have hnew : NewTo p (w.protocol.peer p) event := by
    unfold NewTo
    split
    case h_1 q conn endpoint nonce now =>
      rintro rfl hknows
      exact hfresh (h.live conn hknows)
    case h_2 => trivial
  have hsessions : sessions p P'.events = sessions p w.protocol.events ++ sessions p out := by
    rw [hout, sessions_append]
  have hlast := h.phase
  constructor
  · rw [hsessions]
    rcases hturn.phase h.sound with ⟨hnone, -⟩ | ⟨s, hone, hne, -⟩
    · rw [hnone, List.append_nil]
      exact h.alternate
    · rw [hone]
      exact h.alternate.append (hlast ▸ hne)
  · rw [hsessions]
    rcases hturn.phase h.sound with ⟨hnone, hsame⟩ | ⟨s, hone, -, hnow⟩
    · rw [hnone, List.append_nil, hlast]
      exact hsame.symm
    · rw [hone, lastSession_append]
      exact hnow.symm
  · exact hturn.sound h.sound hnew
  · intro conn hknows
    have hwas := hturn.knows hknows
    change conn ∈ w.liveAfter event p
    unfold World.liveAfter
    split
    case h_1 q conn' endpoint nonce now =>
      rcases hwas with hold | ⟨endpoint', nonce', now', heq⟩
      · split
        case isTrue hq => exact List.mem_cons_of_mem _ (h.live conn hold)
        case isFalse hq => exact h.live conn hold
      · cases heq
        rw [if_pos rfl]
        exact List.mem_cons_self
    case h_2 q conn' =>
      have hold : (w.protocol.peer p).Knows conn := by
        rcases hwas with hold | ⟨endpoint', nonce', now', heq⟩
        · exact hold
        · cases heq
      split
      case isTrue hq =>
        subst hq
        refine List.mem_filter.2 ⟨h.live conn hold, ?_⟩
        simp only [decide_eq_true_eq]
        rintro rfl
        exact knows_injectConnectionClosed hP' hknows
      case isFalse hq => exact h.live conn hold
    case h_3 hother hother' =>
      rcases hwas with hold | ⟨endpoint', nonce', now', heq⟩
      · exact h.live conn hold
      · exact absurd heq (hother _ _ _ _ _)

end InTurns

theorem Run.inTurns {Q : World → Event → Prop} (hrun : Run Q w) (p : PeerId) : InTurns w p := by
  induction hrun with
  | new localPeerId handshakeBuilder peerManager => exact InTurns.start _ rfl rfl p
  | step hrun hfresh hevent hstep ih => exact ih.step hfresh hstep

/-- What the node and the consensus rely on: opens and closes of the protocol alternate, an open
first; the state of a peer is `ProtocolOpened` if and only if the last one was an open; the lists
of a state are as they should be; and no peer is locked between events. -/
structure Disciplined (w : World) (p : PeerId) : Prop where
  alternate : Alternate (sessions p w.protocol.events)
  opened_iff : (sessions p w.protocol.events).getLast? = some .opened ↔
    ∃ connectedList openedList nonce,
      w.protocol.peer p = .protocolOpened connectedList openedList nonce
  opened : ∀ connectedList openedList nonce,
    w.protocol.peer p = .protocolOpened connectedList openedList nonce →
      openedList ≠ [] ∧ ∀ conn, Has openedList conn → ¬ Has connectedList conn
  connected : ∀ connectedList nonce,
    w.protocol.peer p = .connected connectedList nonce → connectedList ≠ []
  unlocked : w.protocol.peer p ≠ .locked

theorem phase_eq_opened_iff {state : PeerState} :
    state.phase = .opened ↔
      ∃ connectedList openedList nonce, state = .protocolOpened connectedList openedList nonce := by
  cases state <;> simp [PeerState.phase]

theorem InTurns.toDisciplined (h : InTurns w p) : Disciplined w p where
  alternate := h.alternate
  opened_iff := by
    rw [← phase_eq_opened_iff, ← h.phase, lastSession]
    cases (sessions p w.protocol.events).getLast? with
    | none => simp
    | some s => simp
  opened := fun connectedList openedList nonce hstate => by
    have hsound := h.sound
    rw [hstate] at hsound
    exact hsound
  connected := fun connectedList nonce hstate => by
    have hsound := h.sound
    rw [hstate] at hsound
    exact hsound
  unlocked := fun hstate => by
    have hsound := h.sound
    rw [hstate] at hsound
    exact hsound

/-- In every state of a run, for every peer; and every event can be handled there. -/
theorem Run.disciplined (hrun : Run (fun _ _ => True) w) :
    (∀ p, Disciplined w p) ∧ ∀ event, (w.step event).isSome := by
  refine ⟨fun p => (hrun.inTurns p).toDisciplined, fun event => ?_⟩
  rw [World.step, Option.isSome_map]
  exact step_isSome (fun p => (hrun.inTurns p).toDisciplined.unlocked) event

/-! ## A node that starts without peers -/

/-- The state after an event. -/
def World.next (w : World) (event : Event) : World := (w.step event).getD w

theorem Run.next {Q : World → Event → Prop} (hrun : Run Q w) (hfresh : w.Fresh event)
    (hevent : Q w event) : Run Q (w.next event) := by
  have hsome : (w.step event).isSome := by
    rw [World.step, Option.isSome_map]
    exact step_isSome (fun p => (hrun.inTurns p).toDisciplined.unlocked) event
  obtain ⟨w', hw'⟩ := Option.isSome_iff_exists.1 hsome
  rw [World.next, hw', Option.getD_some]
  exact .step hrun hfresh hevent hw'

def alone : World :=
  .start (.new [0] (fun _ => []) (.new
    { maxInPeers := 1
      maxOutPeers := 1
      bootnodes := .empty
      reserved := .empty
      reservedOnly := false
      maxInPeers_lt := by decide
      maxOutPeers_lt := by decide }))

/-- A connection to peer `[1]`. -/
def dialled (conn : ConnectionId) : Event := .connectionEstablished [1] conn (.dialer []) 0 0

def openedBy (conn : ConnectionId) : Event := .handler [1] conn (.protocolOpen []) 0

def closedBy (conn : ConnectionId) : Event := .handler [1] conn .protocolClose 0

/-- Both connections are opened. -/
def twice : World :=
  (((alone.next (dialled 0)).next (dialled 1)).next (openedBy 0)).next (openedBy 1)

theorem run_twice {Q : World → Event → Prop} (hQ : ∀ w conn, Q w (dialled conn))
    (hQ' : ∀ w conn, Q w (openedBy conn)) : Run Q twice := by
  have hfirst : alone.Fresh (dialled 0) := fun hmem => nomatch hmem
  have hsecond : (alone.next (dialled 0)).Fresh (dialled 1) := by
    change 1 ∉ (alone.next (dialled 0)).live [1]
    decide +kernel
  exact Run.next (Run.next (Run.next (Run.next (.new [0] _ _) hfirst (hQ _ _)) hsecond (hQ _ _))
    trivial (hQ' _ _)) trivial (hQ' _ _)

/-- The protocol is closed on both connections, one after the other. -/
def parted : World := (twice.next (closedBy 0)).next (closedBy 1)

/-- The network protocol is told of one open and one close. -/
theorem disciplined_parted :
    sessions [1] twice.protocol.events = [.opened] ∧
      sessions [1] parted.protocol.events = [.opened, .closed] ∧ Disciplined parted [1] := by
  have htwice : Run (fun _ _ => True) twice := run_twice (fun _ _ => trivial) fun _ _ => trivial
  have hclosed : Run (fun _ _ => True) (twice.next (closedBy 0)) :=
    Run.next htwice trivial trivial
  have hparted : Run (fun _ _ => True) parted := Run.next hclosed trivial trivial
  exact ⟨by decide +kernel, by decide +kernel, (Run.disciplined hparted).1 [1]⟩

end Finastate.Network
