import Finastate.Hotstuff.Frame
import Finastate.Hotstuff.Run

/-!
# Which messages a node acts on

A message that is delivered directly is admitted when its sender is a member
of the authorities and its view is the current one. A message that waited for
its peer to register is checked for its view only, and a new view message that
waited for the node to become the leader is not checked again.
`admitted_of_screened` says what has to hold of the waiting messages for the
three ways to admit the same.
-/

namespace Finastate.Hotstuff

def Authorities.IsMember (authorities : Authorities) (address : Address) : Prop :=
  ∃ member ∈ authorities.members, member.1 = address

instance (authorities : Authorities) (address : Address) :
    Decidable (authorities.IsMember address) :=
  inferInstanceAs (Decidable (∃ member ∈ authorities.members, _))

/-- A phase handler acts on a message of a member for the current view. -/
def Entry.Admitted (e : Entry) : Prop :=
  ∀ p ∈ e.action.phase?, e.authorities.IsMember p.2 ∧ p.1.view = e.storage.view

instance (e : Entry) : Decidable e.Admitted :=
  inferInstanceAs (Decidable (∀ p ∈ e.action.phase?, _))

namespace Stream

/-- The messages that wait for the peer of an internal message to register:
those that will be handled come from a member. -/
def ScreenedPeer (s : Stream) : InternalMessage → Prop
  | .validatorRegistered address peerId =>
      ∀ message ∈ (AssocMap.get? s.pendingConsensusMessages peerId).getD [],
        s.state.handles message.messageType → message.view = s.storage.view →
          s.authorities.IsMember address
  | _ => True

instance (s : Stream) (internalMessage : InternalMessage) :
    Decidable (s.ScreenedPeer internalMessage) :=
  match internalMessage with
  | .validatorRegistered _ _ => inferInstanceAs (Decidable (∀ message ∈ _, _ → _ → _))
  | .consensusMessage _ _ => inferInstanceAs (Decidable True)
  | .proposal _ _ => inferInstanceAs (Decidable True)

/-- The new view messages that a new leader finds are from members and for the
current view. -/
def ScreenedView (s : Stream) : Prop :=
  s.computeLeader = .ok s.address → ∀ p ∈ s.pendingNewViewMessages,
    s.authorities.IsMember p.2 ∧ p.1.view = s.storage.view

instance (s : Stream) : Decidable s.ScreenedView :=
  inferInstanceAs (Decidable (_ → ∀ p ∈ s.pendingNewViewMessages, _))

/-- The waiting messages that an event brings to a phase handler. -/
def Screened (support : Support) (oracle : Oracle) (s : Stream) (event : Event) : Prop :=
  (event = .internal → ∀ internalMessage ∈ s.internal.head?,
    s.ScreenedPeer internalMessage) ∧
  ∀ s' ∈ s.entersView support oracle event, s'.ScreenedView

instance (support : Support) (oracle : Oracle) (s : Stream) (event : Event) :
    Decidable (s.Screened support oracle event) :=
  inferInstanceAs (Decidable
    ((_ → ∀ internalMessage ∈ s.internal.head?, s.ScreenedPeer internalMessage) ∧
      ∀ s' ∈ s.entersView support oracle event, s'.ScreenedView))

def AllAdmitted (s : Stream) : Prop := ∀ e ∈ s.acted, e.Admitted

theorem allAdmitted_of_ground {s s' : Stream} (h : s'.ground = s.ground)
    (hs : s.AllAdmitted) : s'.AllAdmitted := by
  have hacted : s'.acted = s.acted := congrArg Ground.acted h
  rw [AllAdmitted, hacted]
  exact hs

theorem allAdmitted_of_frame {s s' : Stream} (h : s'.frame = s.frame) :
    s.AllAdmitted → s'.AllAdmitted :=
  allAdmitted_of_ground (ground_of_frame h)

theorem acted_note_phase (s : Stream) (message : ConsensusMessage) (address : Address) :
    (s.note (.phase message address)).acted =
      { action := .phase message address, state := s.state, storage := s.storage,
        authorities := s.authorities, lastAuthorities := s.lastAuthorities,
        timeouts := s.timeoutMessageCollector } :: s.acted := by
  simp [acted, note, Action.phase?]

theorem AllAdmitted.note {s : Stream} (hs : s.AllAdmitted) {message : ConsensusMessage}
    {address : Address} (hmember : s.authorities.IsMember address)
    (hview : message.view = s.storage.view) :
    (s.note (.phase message address)).AllAdmitted := by
  intro e he
  rw [acted_note_phase] at he
  rcases List.mem_cons.1 he with rfl | he
  · rintro p ⟨⟩
    exact ⟨hmember, hview⟩
  · exact hs e he

/-! ## The three ways in -/

variable {support : Support} {oracle : Oracle}

theorem Dispatched.allAdmitted {role : State} {s s' : Stream} {message : ConsensusMessage}
    {address : Address} (h : s.Dispatched role message address s') (hs : s.AllAdmitted)
    (hmember : role.handles message.messageType = true → message.view = s.storage.view →
      s.authorities.IsMember address) : s'.AllAdmitted := by
  rcases h with h | ⟨htype, hview, h⟩
  · exact allAdmitted_of_frame h hs
  · exact allAdmitted_of_frame h (hs.note (hmember htype hview) hview)

theorem allAdmitted_andThen {r : Stream × Outcome} {k : Stream → Stream × Outcome}
    (hr : r.1.AllAdmitted) (hk : r.1.AllAdmitted → (k r.1).1.AllAdmitted) :
    (andThen r k).1.AllAdmitted := by
  unfold andThen
  split
  · exact hk hr
  · exact hr

theorem allAdmitted_replay {role : State} {address : Address}
    {handler : Stream → ConsensusMessage → Stream × Outcome}
    (hhandler : ∀ (s : Stream) message, s.Dispatched role message address (handler s message).1)
    {messages : List ConsensusMessage} {s : Stream} (hs : s.AllAdmitted)
    (hmember : ∀ message ∈ messages, role.handles message.messageType = true →
      message.view = s.storage.view → s.authorities.IsMember address) :
    (replay handler messages s).1.AllAdmitted := by
  induction messages generalizing s with
  | nil => exact hs
  | cons message messages ih =>
      have hfirst := (hhandler s message).allAdmitted hs (hmember message List.mem_cons_self)
      rw [replay]
      apply allAdmitted_andThen hfirst
      intro hfirst
      apply ih hfirst
      have hstill := (hhandler s message).still
      have hview : (handler s message).1.storage.view = s.storage.view :=
        congrArg Frame.view hstill
      have hauthorities : (handler s message).1.authorities = s.authorities :=
        congrArg (fun f => f.authorities) hstill
      rw [hview, hauthorities]
      exact fun message hmem => hmember message (List.mem_cons_of_mem _ hmem)

theorem allAdmitted_replayPending {role : State} {address : Address} {peerId : PeerId}
    {handler : Stream → ConsensusMessage → Stream × Outcome}
    (hhandler : ∀ (s : Stream) message, s.Dispatched role message address (handler s message).1)
    {s : Stream} (hs : s.AllAdmitted)
    (hmember : ∀ message ∈ (AssocMap.get? s.pendingConsensusMessages peerId).getD [],
      role.handles message.messageType = true → message.view = s.storage.view →
        s.authorities.IsMember address) :
    (s.replayPending peerId handler).1.AllAdmitted := by
  unfold replayPending
  cases hget : AssocMap.get? s.pendingConsensusMessages peerId with
  | none => exact hs
  | some messages =>
      rw [hget] at hmember
      exact allAdmitted_replay hhandler hs hmember

theorem pending_sendNewView (s : Stream) :
    (ReplicaState.sendNewView s).1.pendingConsensusMessages = s.pendingConsensusMessages := by
  unfold ReplicaState.sendNewView
  split
  · rfl
  · simp only [done, consensusMessage, requestTo]
    split
    · rfl
    · rfl

theorem allAdmitted_onValidatorRegistered {s : Stream} (hs : s.AllAdmitted)
    {address : Address} {peerId : PeerId}
    (hscreened : s.ScreenedPeer (.validatorRegistered address peerId)) :
    (s.onValidatorRegistered support oracle address peerId).1.AllAdmitted := by
  unfold onValidatorRegistered
  rw [ScreenedPeer] at hscreened
  cases hstate : s.state with
  | leader =>
      rw [hstate] at hscreened
      exact allAdmitted_replayPending (fun s m => LeaderState.dispatched s m address) hs
        hscreened
  | replica =>
      rw [hstate] at hscreened
      simp only
      split
      · have hframe := ReplicaState.frame_sendNewView s
        have hview : (ReplicaState.sendNewView s).1.storage.view = s.storage.view :=
          congrArg Frame.view hframe
        have hauthorities : (ReplicaState.sendNewView s).1.authorities = s.authorities :=
          congrArg (fun f => f.authorities) hframe
        apply allAdmitted_andThen (allAdmitted_of_frame hframe hs)
        intro hs
        apply allAdmitted_replayPending (fun s m => ReplicaState.dispatched s m address) hs
        rw [pending_sendNewView, hview, hauthorities]
        exact hscreened
      · exact allAdmitted_replayPending (fun s m => ReplicaState.dispatched s m address) hs
          hscreened
  | observer =>
      rw [hstate] at hscreened
      exact allAdmitted_replayPending (fun s m => ObserverState.dispatched s m address) hs
        hscreened

theorem allAdmitted_onInternalMessage {s : Stream} (hs : s.AllAdmitted)
    {internalMessage : InternalMessage} (hscreened : s.ScreenedPeer internalMessage) :
    (s.onInternalMessage support oracle internalMessage).1.AllAdmitted := by
  cases internalMessage with
  | validatorRegistered address peerId =>
      exact allAdmitted_onValidatorRegistered hs hscreened
  | consensusMessage message peerId =>
      simp only [onInternalMessage]
      unfold onConsensusMessage
      split
      · next address _ =>
        split
        · next hmember =>
          have hmember : s.authorities.IsMember address := by
            simpa [Authorities.IsMember] using hmember
          exact (onValidatorConsensusMessage_dispatched s message address).allAdmitted hs
            fun _ _ => hmember
        · exact hs
      · exact hs
  | proposal address proposal =>
      simp only [onInternalMessage]
      split
      · exact allAdmitted_of_frame (LeaderState.frame_onRemoteProposal s proposal) hs
      · exact hs

/-! ## The start of a role -/

theorem allAdmitted_processPendingNewView {messages : List (ConsensusMessage × Address)}
    {s : Stream} (hs : s.AllAdmitted)
    (hscreened : ∀ p ∈ messages, s.authorities.IsMember p.2 ∧ p.1.view = s.storage.view) :
    (LeaderState.processPendingNewView support oracle messages s).1.AllAdmitted := by
  induction messages generalizing s with
  | nil => exact hs
  | cons p messages ih =>
      obtain ⟨hmember, hview⟩ := hscreened p List.mem_cons_self
      have hframe : (LeaderState.onNewView support oracle s p.1 p.2).1.frame =
          (s.note (.phase p.1 p.2)).frame := LeaderState.frame_onNewView s p.1 p.2
      have hview' : (LeaderState.onNewView support oracle s p.1 p.2).1.storage.view =
          s.storage.view := congrArg Frame.view hframe
      have hauthorities : (LeaderState.onNewView support oracle s p.1 p.2).1.authorities =
          s.authorities := congrArg (fun f => f.authorities) hframe
      rw [LeaderState.processPendingNewView]
      apply allAdmitted_andThen (allAdmitted_of_frame hframe (hs.note hmember hview))
      intro hs
      apply ih hs
      rw [hview', hauthorities]
      exact fun p hp => hscreened p (List.mem_cons_of_mem _ hp)

theorem isMember_of_computeLeader {s : Stream} {leader : Address}
    (h : s.computeLeader = .ok leader) : s.authorities.IsMember leader := by
  unfold computeLeader at h
  simp only at h
  split at h
  · cases h
  · split at h
    · cases h
    · next member hmember =>
      cases h
      exact ⟨member, List.mem_of_getElem? hmember, rfl⟩

theorem allAdmitted_start {s : Stream} (hs : s.AllAdmitted)
    (hmember : s.authorities.IsMember s.address)
    (hscreened : ∀ p ∈ s.pendingNewViewMessages,
      s.authorities.IsMember p.2 ∧ p.1.view = s.storage.view) :
    (LeaderState.start support oracle s).1.AllAdmitted := by
  have hstill : (LeaderState.processPendingNewView support oracle s.pendingNewViewMessages
      { s with pendingNewViewMessages := [] }).1.still = s.still :=
    still_processPendingNewView s.pendingNewViewMessages { s with pendingNewViewMessages := [] }
  unfold LeaderState.start
  have hpending : (LeaderState.processPendingNewView support oracle s.pendingNewViewMessages
      { s with pendingNewViewMessages := [] }).1.AllAdmitted :=
    allAdmitted_processPendingNewView (s := { s with pendingNewViewMessages := [] }) hs hscreened
  generalize LeaderState.processPendingNewView support oracle s.pendingNewViewMessages
    { s with pendingNewViewMessages := [] } = r at hstill hpending
  have haddress : r.1.address = s.address := congrArg (fun f => f.address) hstill
  have hauthorities : r.1.authorities = s.authorities :=
    congrArg (fun f => f.authorities) hstill
  apply allAdmitted_andThen hpending
  intro hr
  refine allAdmitted_of_frame (LeaderState.frame_onNewView r.1 _ _) (hr.note ?_ rfl)
  rw [haddress, hauthorities]
  exact hmember

theorem allAdmitted_runView {s : Stream} (hs : s.AllAdmitted) (hscreened : s.ScreenedView) :
    (s.runView support oracle).1.AllAdmitted := by
  unfold runView
  cases hleader : s.computeLeader with
  | error e => exact hs
  | ok leader =>
      simp only
      by_cases hown : s.address = leader
      · subst hown
        simp only [if_true]
        exact allAdmitted_start hs (isMember_of_computeLeader hleader) (hscreened hleader)
      · simp only [hown, if_false]
        split
        · next heq => split at heq <;> cases heq
        · exact allAdmitted_of_frame (ReplicaState.frame_sendNewView _) hs
        · exact hs

/-! ## Runs -/

theorem allAdmitted_logged {r : Stream × Outcome} (h : r.1.AllAdmitted) :
    (logged r).AllAdmitted := by
  unfold logged
  split
  · exact h
  · exact h

theorem allAdmitted_fatal {r : Stream × Outcome} (h : r.1.AllAdmitted) :
    (fatal r).AllAdmitted := by
  unfold fatal
  split
  · exact h
  · exact h

theorem allAdmitted_spawn {s : Stream} (hs : s.AllAdmitted) :
    (s.spawn support oracle).AllAdmitted := by
  unfold spawn
  split
  · exact hs
  · refine allAdmitted_fatal (allAdmitted_runView hs ?_)
    intro _ p hp
    cases hp

theorem allAdmitted_syncBlock {s : Stream} (hs : s.AllAdmitted) (block : ConfirmedBlock) :
    (s.syncBlock support block).AllAdmitted := by
  unfold syncBlock
  split
  · intro e he
    exact hs e (by simpa [acted, setStorage, Stream.note, Action.phase?] using he)
  · exact hs

theorem allAdmitted_handle {s : Stream} (hs : s.AllAdmitted) {event : Event}
    (hscreened : event = .internal →
      ∀ internalMessage ∈ s.internal.head?, s.ScreenedPeer internalMessage) :
    (s.handle support oracle event).AllAdmitted := by
  cases event with
  | timeout =>
      simp only [handle]
      split
      · exact hs
      · exact allAdmitted_fatal (allAdmitted_of_ground (ground_onTimeout s) hs)
  | schedule timestamp =>
      simp only [handle]
      split
      · exact allAdmitted_logged
          (allAdmitted_of_frame (LeaderState.frame_tryWork s (some timestamp) none) hs)
      · exact hs
  | internal =>
      simp only [handle]
      cases hinternal : s.internal with
      | nil => exact hs
      | cons internalMessage rest =>
          have hpeer := hscreened rfl internalMessage (by rw [hinternal]; rfl)
          refine allAdmitted_logged
            (allAdmitted_onInternalMessage (s := { s with internal := rest }) hs ?_)
          cases internalMessage <;> exact hpeer
  | «open» peerId localNonce remoteNonce =>
      exact allAdmitted_of_ground (ground_registerValidator _ peerId) hs
  | close peerId => exact hs
  | message peerId message =>
      cases message with
      | none => exact hs
      | some message =>
          exact allAdmitted_logged
            (allAdmitted_of_ground (ground_onNetworkMessage s peerId message) hs)
  | blockCommitted =>
      simp only [handle]
      split
      · exact hs
      · refine allAdmitted_logged ?_
        unfold onBlockCommitted
        split
        · exact hs
        · exact hs
  | restart => exact hs
  | sync block => exact hs

theorem allAdmitted_step {s : Stream} (hs : s.AllAdmitted) {event : Event}
    (hscreened : s.Screened support oracle event) :
    (s.step support oracle event).AllAdmitted := by
  obtain ⟨hpeer, hview⟩ := hscreened
  have hhandle : (s.handle support oracle event).AllAdmitted := allAdmitted_handle hs hpeer
  rcases step_cases support oracle s event with
    ⟨rfl, hstep⟩ | ⟨block, rfl, hstep⟩ | ⟨-, hstep⟩ | ⟨-, -, hstep⟩ | ⟨-, henters, hstep⟩
  · rw [hstep]
    exact allAdmitted_spawn hs
  · rw [hstep]
    exact allAdmitted_syncBlock hs block
  · rw [hstep]
    exact hs
  · rw [hstep]
    exact hhandle
  · rw [hstep]
    exact allAdmitted_fatal (allAdmitted_runView hhandle (hview _ henters))

end Stream

/-- In a run whose waiting messages are from members of the authorities and,
for a new leader, of the current view, the phase handlers only ever act on
messages of members for the current view. -/
theorem admitted_of_screened {support : Support} {secretKey : SecretKey} {s : Stream}
    (h : RunWith support secretKey (Stream.Screened support) s) :
    ∀ e ∈ s.trace, e.Admitted := by
  have hall : s.AllAdmitted := by
    induction h with
    | start oracle => exact Stream.allAdmitted_spawn fun e he => by cases he
    | step h oracle event hp ih => exact Stream.allAdmitted_step ih hp
  intro e he p hp
  exact hall e (List.mem_filter.2 ⟨he, by rw [hp]; rfl⟩) p hp

/-- A peer connects, sends a prepare message and then registers with the key. -/
def earlyPrepare (key : UInt8) : List Event :=
  [.open [key] 7 7,
    .message [key] (some (.consensusMessage
      { requestId := 0, messageType := .prepare, view := 1, node := none, justify := none,
        sig := none })),
    .internal,
    .message [key] (some (.registerValidatorReq
      { requestId := 0, publicKey := ⟨[key]⟩
        signature := Sample.basic.sign (.nonce 7) ⟨[key]⟩ })),
    .internal]

/-- Validator `1` is a member: its early message is handled when it registers. -/
theorem admitted_earlyPrepare :
    (∀ e ∈ (Sample.node 4 (earlyPrepare 1)).trace, e.Admitted) ∧
      (Sample.node 4 (earlyPrepare 1)).trace ≠ [] := by
  have hrun : RunWith (Sample.support 4) ⟨[0]⟩ (Stream.Screened (Sample.support 4))
      (Sample.node 4 (earlyPrepare 1)) :=
    (RunWith.start Sample.oracle).steps (by decide +kernel)
  exact ⟨admitted_of_screened hrun, by decide +kernel⟩

/-- The key `9` is not the one of a member: its early message is handled as well. -/
theorem not_admitted_earlyPrepare :
    Run (Sample.support 4) ⟨[0]⟩ (Sample.node 4 (earlyPrepare 9)) ∧
      ∃ e ∈ (Sample.node 4 (earlyPrepare 9)).trace, ¬ e.Admitted :=
  ⟨Sample.run_node 4 _, by decide +kernel⟩

end Finastate.Hotstuff
