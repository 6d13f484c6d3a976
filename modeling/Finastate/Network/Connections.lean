import Finastate.Network.Sessions
import Mathlib.Logic.Basic

/-!
# Connections

A connection that was told to open is on one of the lists of its peer until it
is closed, unless its protocol is closed while that of another connection is
open: then it is taken off the list of opened ones and put on no other.
-/

namespace Finastate.Network

open PeerManager (PeerId)

variable {P P' : Protocol} {w w' : World} {p q : PeerId} {event : Event} {state state' : PeerState}
  {out : List Session} {told : List ConnectionId} {c conn : ConnectionId}

/-- The protocol of a connection that was told to open is closed only when that of no other
connection of the peer is open. -/
def Lasting (w : World) : Event → Prop
  | .handler p conn .protocolClose _ =>
      conn ∈ w.admitted p → ∀ connectedList openedList nonce,
        w.protocol.peer p = .protocolOpened connectedList openedList nonce →
          Has openedList conn → AssocMap.erase openedList conn = []
  | _ => True

/-- The event closes the protocol of a connection while another one is open. -/
def Forgets (p : PeerId) (c : ConnectionId) (state : PeerState) (event : Event) : Prop :=
  ∃ now connectedList openedList nonce, event = .handler p c .protocolClose now ∧
    state = .protocolOpened connectedList openedList nonce ∧ Has openedList c ∧
    AssocMap.erase openedList c ≠ []

theorem Lasting.not_forgets (h : Lasting w event) (hc : c ∈ w.admitted p) :
    ¬ Forgets p c (w.protocol.peer p) event := by
  rintro ⟨now, connectedList, openedList, nonce, rfl, hstate, hhas, hsome⟩
  exact hsome (h hc connectedList openedList nonce hstate hhas)

theorem erase_ne_nil_of_has {l : Connections} (h : Has l c) (hne : c ≠ conn) :
    AssocMap.erase l conn ≠ [] := by
  intro hnone
  have hhas : Has (AssocMap.erase l conn) c := has_erase.2 ⟨hne, h⟩
  rw [hnone] at hhas
  exact not_has_nil hhas

/-- A known connection stays known until it is closed or forgotten. -/
theorem Turn.keeps (h : Turn p event state state' out told) (hc : state.Knows c)
    (hopen : event ≠ .connectionClosed p c) (hforgets : ¬ Forgets p c state event) :
    state'.Knows c := by
  have hne : ∀ {conn}, event = .connectionClosed p conn → c ≠ conn := by
    rintro conn rfl rfl
    exact hopen rfl
  cases h with
  | same => exact hc
  | accepted hhas => exact hc
  | acceptedToo hhas => exact hc
  | dial => exact hc
  | first hout => cases hc
  | another => exact has_insert.2 (Or.inr hc)
  | anotherToo => exact hc.imp_left fun hc => has_insert.2 (Or.inr hc)
  | disconnected hnone => exact absurd hnone (erase_ne_nil_of_has hc (hne rfl))
  | lost hsome => exact has_erase.2 ⟨hne rfl, hc⟩
  | closed hnone hstate =>
      have hconnected := hc.resolve_right fun hopened =>
        erase_ne_nil_of_has hopened (hne rfl) hnone
      rcases hstate with ⟨hempty, -⟩ | ⟨-, rfl⟩
      · exact absurd hempty (erase_ne_nil_of_has hconnected (hne rfl))
      · exact has_erase.2 ⟨hne rfl, hconnected⟩
  | lostToo hsome =>
      exact hc.imp (fun hc => has_erase.2 ⟨hne rfl, hc⟩) fun hc => has_erase.2 ⟨hne rfl, hc⟩
  | @opened conn =>
      by_cases heq : c = conn
      · exact Or.inr (has_singleton.2 heq)
      · exact Or.inl (has_erase.2 ⟨heq, hc⟩)
  | @openedToo conn =>
      by_cases heq : c = conn
      · exact Or.inr (has_insert.2 (Or.inl heq))
      · exact hc.imp (fun hc => has_erase.2 ⟨heq, hc⟩) fun hc => has_insert.2 (Or.inr hc)
  | @protocolClosed conn now connectedList openedList connection nonce hhas hnone =>
      by_cases heq : c = conn
      · exact has_insert.2 (Or.inl heq)
      · refine has_insert.2 (Or.inr (hc.resolve_right fun hopened => ?_))
        exact erase_ne_nil_of_has hopened heq hnone
  | @forgotten conn now connectedList openedList nonce hsome =>
      refine hc.imp_right fun hopened => has_erase.2 ⟨?_, hopened⟩
      rintro rfl
      rcases hsome with hsome | hnot
      · exact hforgets ⟨now, connectedList, openedList, nonce, rfl, rfl, hopened, hsome⟩
      · exact hnot hopened

/-- A connection that is told to open is known. -/
theorem Turn.knows_of_told (h : Turn p event state state' out told) (hc : c ∈ told) : state'.Knows c := by
  cases h with
  | accepted hhas =>
      obtain rfl := List.mem_singleton.1 hc
      exact hhas
  | acceptedToo hhas =>
      obtain rfl := List.mem_singleton.1 hc
      exact Or.inl hhas
  | first hout => exact has_singleton.2 (hout c hc)
  | another => exact has_insert.2 (Or.inl (List.mem_singleton.1 hc))
  | anotherToo => exact Or.inl (has_insert.2 (Or.inl (List.mem_singleton.1 hc)))
  | _ => cases hc

/-- The connections that were told to open are known. -/
def Remembers (w : World) : Prop :=
  ∀ p c, c ∈ w.admitted p → (w.protocol.peer p).Knows c

theorem Remembers.step (h : Remembers w) (hlasting : Lasting w event)
    (hstep : w.step event = some w') : Remembers w' := by
  obtain ⟨P', hP', rfl⟩ := Option.map_eq_some_iff.1 hstep
  obtain ⟨out, hout, hturns⟩ := turns_of_step hP'
  have hemitted : w.emitted P' = out := by rw [World.emitted, hout, List.drop_left]
  intro p c hc
  change c ∈ w.admittedAfter event P' p at hc
  unfold World.admittedAfter at hc
  split at hc
  case h_1 q conn =>
    have hold : c ∈ w.admitted p ∧ Event.connectionClosed q conn ≠ .connectionClosed p c := by
      split at hc
      case isTrue hq =>
        obtain ⟨hc, hne⟩ := List.mem_filter.1 hc
        simp only [decide_eq_true_eq] at hne
        exact ⟨hc, fun heq => hne (by cases heq; rfl)⟩
      case isFalse hq => exact ⟨hc, fun heq => hq (by cases heq; rfl)⟩
    exact (hturns p).keeps (h p c hold.1) hold.2 (hlasting.not_forgets hold.1)
  case h_2 hother =>
    rcases List.mem_append.1 hc with htold | hold
    · rw [hemitted] at htold
      exact (hturns p).knows_of_told htold
    · exact (hturns p).keeps (h p c hold) (hother p c) (hlasting.not_forgets hold)

/-- The peer manager hears nothing of a closed connection as long as another one is known. -/
theorem peerManager_injectConnectionClosed (h : P.injectConnectionClosed q conn = some P')
    (hc : (P.peer q).Knows c) (hne : c ≠ conn) : P'.peerManager = P.peerManager := by
  unfold Protocol.injectConnectionClosed at h
  split at h
  case h_1 pendingDial hstate =>
    cases h
    rfl
  case h_2 connectedList nonce hstate =>
    rw [hstate] at hc
    have hsome := erase_ne_nil_of_has hc hne
    simp only [hsome, if_false] at h
    cases h
    rfl
  case h_3 connectedList openedList nonce hstate =>
    rw [hstate] at hc
    dsimp only at h
    split at h
    case h_1 connection hconnection hnone =>
      have hconnected := hc.resolve_right fun hopened =>
        erase_ne_nil_of_has hopened hne hnone
      have hsome := erase_ne_nil_of_has hconnected hne
      simp only [hsome, if_false] at h
      cases h
      rfl
    case h_2 hother =>
      cases h
      rfl
  case h_4 hstate => cases h

/-! ## Runs -/

namespace PeerState

def connectedList : PeerState → Connections
  | .connected connectedList _ => connectedList
  | .protocolOpened connectedList _ _ => connectedList
  | _ => []

def openedList : PeerState → Connections
  | .protocolOpened _ openedList _ => openedList
  | _ => []

/-- On which list a known connection is. -/
theorem xor_of_knows (hsound : state.Sound) (hc : state.Knows c) :
    Xor (Has state.connectedList c) (Has state.openedList c) := by
  cases state with
  | init pendingDial => cases hc
  | connected connectedList nonce => exact Or.inl ⟨hc, not_has_nil⟩
  | protocolOpened connectedList openedList nonce =>
      rcases hc with hconnected | hopened
      · exact Or.inl ⟨hconnected, fun hopened => hsound.2 c hopened hconnected⟩
      · exact Or.inr ⟨hopened, hsound.2 c hopened⟩
  | locked => cases hc

end PeerState

/-- In runs in which the protocol of a connection is closed only when that of no other one is
open, a connection that was told to open is on one list of its peer. When another one is closed,
it still is, and the peer manager is told nothing. -/
theorem Run.remembered (hrun : Run Lasting w) (hc : c ∈ w.admitted p) :
    Xor (Has (w.protocol.peer p).connectedList c) (Has (w.protocol.peer p).openedList c) ∧
      ∀ conn w', c ≠ conn → w.step (.connectionClosed p conn) = some w' →
        Xor (Has (w'.protocol.peer p).connectedList c) (Has (w'.protocol.peer p).openedList c) ∧
          w'.protocol.peerManager = w.protocol.peerManager := by
  have hremembers : Remembers w := by
    clear hc
    induction hrun with
    | new localPeerId handshakeBuilder peerManager => exact fun p c hc => nomatch hc
    | step hrun hfresh hlasting hstep ih => exact ih.step hlasting hstep
  have hknows := hremembers p c hc
  refine ⟨PeerState.xor_of_knows (hrun.inTurns p).sound hknows, fun conn w' hne hstep => ?_⟩
  have hfresh : w.Fresh (.connectionClosed p conn) := trivial
  have hafter : InTurns w' p := (hrun.inTurns p).step hfresh hstep
  obtain ⟨P', hP', rfl⟩ := Option.map_eq_some_iff.1 hstep
  obtain ⟨out, hout, hturns⟩ := turns_of_step hP'
  have hstill : (P'.peer p).Knows c := by
    refine (hturns p).keeps hknows (fun heq => hne (by cases heq; rfl)) ?_
    rintro ⟨now, connectedList, openedList, nonce, heq, -⟩
    cases heq
  exact ⟨PeerState.xor_of_knows hafter.sound hstill,
    peerManager_injectConnectionClosed hP' hknows hne⟩

/-- Nothing less is enough: what is forgotten is on no list. -/
theorem Run.not_remembered {Q : World → Event → Prop} (hrun : Run Q w)
    (hnot : ¬ Lasting w event) (hstep : w.step event = some w') : ¬ Remembers w' := by
  obtain ⟨P', hP', rfl⟩ := Option.map_eq_some_iff.1 hstep
  unfold Lasting at hnot
  split at hnot
  case h_1 p conn now =>
    push Not at hnot
    obtain ⟨hadmitted, connectedList, openedList, nonce, hstate, hhas, hsome⟩ := hnot
    have hsound := (hrun.inTurns p).sound
    rw [hstate] at hsound
    have hP : w.protocol.onProtocolClose p conn = some (w.protocol.setPeer p
        (.protocolOpened connectedList (AssocMap.erase openedList conn) nonce)) := by
      unfold Protocol.onProtocolClose
      rw [hstate]
      dsimp only
      split
      case h_1 connection hget hnone => exact absurd hnone hsome
      case h_2 hother => rfl
    obtain rfl := Option.some.inj (hP.symm.trans hP')
    intro hremembers
    have hmem : conn ∈ opens p (w.emitted (w.protocol.setPeer p
        (.protocolOpened connectedList (AssocMap.erase openedList conn) nonce))) ++ w.admitted p :=
      List.mem_append_right _ hadmitted
    have hknows := hremembers p conn hmem
    simp only [peer_setPeer, if_true] at hknows
    rcases hknows with hconnected | hopened
    · exact hsound.2 conn hhas hconnected
    · exact (has_erase.1 hopened).1 rfl
  case h_2 => exact absurd trivial hnot

/-! ## One of two connections is closed -/

theorem remembered_twice :
    Xor (Has (twice.protocol.peer [1]).connectedList 0)
      (Has (twice.protocol.peer [1]).openedList 0) :=
  (Run.remembered (c := 0) (p := [1])
    (run_twice (fun _ _ => trivial) fun _ _ => trivial) (by decide +kernel)).1

/-- The protocol of the first connection is closed, and then the second connection. The first one
is still there, but the peer is back in its first state, and the peer manager, which was told
that it was dropped, wants to connect to it again. -/
theorem forgotten_twice :
    let w := twice.next (closedBy 0)
    let w' := w.next (.connectionClosed [1] 1)
    Run (fun _ _ => True) w' ∧ 0 ∈ w'.admitted [1] ∧ 0 ∈ w'.live [1] ∧
      ¬ Has (w.protocol.peer [1]).connectedList 0 ∧ ¬ Has (w.protocol.peer [1]).openedList 0 ∧
      w'.protocol.peer [1] = .init none ∧
      w.protocol.peerManager.outMessages = [] ∧
      w'.protocol.peerManager.outMessages = [.connect [1]] := by
  have htwice : Run (fun _ _ => True) twice := run_twice (fun _ _ => trivial) fun _ _ => trivial
  refine ⟨Run.next (Run.next htwice trivial trivial) trivial trivial, ?_⟩
  unfold Has
  decide +kernel

end Finastate.Network
