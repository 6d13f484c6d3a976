import Finastate.Network.Handler

/-!
# Two handlers on one connection

The handlers of the two ends of a connection, and the substreams between them.
Either end may be told anything at any time. A substream that one handler asks
for comes up with an id of its own, at the two ends at different times, in any
order, or never, and several may come up. What an end writes on a substream the
other end reads in this order, until one of them sees an error.

`Delivery` is what the ends can rely on: what an end receives is what the other
one has accepted, in the order in which it has accepted it, without gaps or
repetitions, up to some point.
-/

namespace Finastate.Network

inductive Side
  | dialer
  | listener
  deriving DecidableEq, Repr

namespace Side

def other : Side → Side
  | dialer => listener
  | listener => dialer

@[simp] theorem other_other (s : Side) : s.other.other = s := by
  cases s with
  | dialer => rfl
  | listener => rfl

@[simp] theorem other_ne (s : Side) : s.other ≠ s := by
  cases s with
  | dialer => exact nofun
  | listener => exact nofun

@[simp] theorem ne_other (s : Side) : s ≠ s.other := (other_ne s).symm

theorem eq_or_eq_other (s side : Side) : s = side ∨ s = side.other := by
  cases s with
  | dialer => cases side <;> simp [other]
  | listener => cases side <;> simp [other]

end Side

/-- `requests` are the handshakes of the substreams that a handler has asked
for. A negotiated substream waits in `outbound` and `inbound` until its end
learns of it, and `owner` is who asked for it. The last three fields record what a
handler was told to open with, the messages it has accepted, and the events it
has emitted. -/
structure Link where
  handler : Side → Handler
  requests : Side → List Bytes
  outbound : Side → List SubstreamId
  inbound : Side → List InSubstream
  next : SubstreamId
  owner : SubstreamId → Side
  written : SubstreamId → List Bytes
  read : SubstreamId → ℕ
  told : Side → List Bytes
  accepted : Side → List Bytes
  emitted : Side → List HandlerOut

/-- What a socket answers a reader. A message is the next one, if it is there. -/
inductive Readout
  | pending
  | message
  | error
  | closed
  deriving DecidableEq, Repr

inductive LinkEvent
  | tell (side : Side) (event : HandlerIn)
  | negotiate (side : Side)
  | outbound (side : Side) (substream : SubstreamId)
  | inbound (side : Side) (protocol : InSubstream)
  | dialUpgradeError (side : Side) (upgrade : Bool)
  | poll (side : Side) (deadline : Bool) (sink : SinkAnswers) (readout : Readout)

namespace Link

def start : Link where
  handler := fun _ => .new
  requests := fun _ => []
  outbound := fun _ => []
  inbound := fun _ => []
  next := 0
  owner := fun _ => .dialer
  written := fun _ => []
  read := fun _ => 0
  told := fun _ => []
  accepted := fun _ => []
  emitted := fun _ => []

variable (l : Link) (side : Side)

def setHandler (h : Handler) : Link := { l with handler := Function.update l.handler side h }

/-- The substream on which an open handler sends. -/
def sendsOn : Option SubstreamId :=
  match (l.handler side).state with
  | .opened _ outSubstream => some outSubstream.substream
  | _ => none

/-- The substream on which an open handler receives. -/
def receivesOn : Option SubstreamId :=
  match (l.handler side).state with
  | .opened inSubstream _ => some inSubstream.substream
  | _ => none

/-- The next message for a handler. -/
def nextMessage : Option Bytes :=
  (l.receivesOn side).bind fun substream => (l.written substream)[l.read substream]?

def streamAnswer : Readout → StreamAnswer
  | .pending => .pending
  | .message =>
      match l.nextMessage side with
      | some message => .ready (some (some message))
      | none => .pending
  | .error => .ready (some none)
  | .closed => .ready none

/-- What a handler was told. A message is accepted while the handler is open. -/
def record : HandlerIn → Link
  | .opening handshake =>
      { l with told := Function.update l.told side (l.told side ++ [handshake]) }
  | .close => l
  | .sendMessage message =>
      if (l.sendsOn side).isSome then
        { l with accepted := Function.update l.accepted side (l.accepted side ++ [message]) }
      else l

/-- A substream comes up for the first request of an end. -/
def negotiate : Link :=
  match l.requests side with
  | [] => l
  | handshake :: requests =>
      { l with
        requests := Function.update l.requests side requests
        outbound := Function.update l.outbound side (l.next :: l.outbound side)
        inbound := Function.update l.inbound side.other
          (⟨l.next, some handshake⟩ :: l.inbound side.other)
        owner := Function.update l.owner l.next side
        next := l.next + 1 }

/-- What is written on the substreams when an open handler sends. -/
def write (sent : List Bytes) : SubstreamId → List Bytes :=
  match l.sendsOn side with
  | some substream => Function.update l.written substream (l.written substream ++ sent)
  | none => l.written

/-- How much is read of the substreams when a handler returns an event. -/
def consume : Poll HandlerEvent → SubstreamId → ℕ
  | .ready (.custom (.message _)) =>
      match l.receivesOn side with
      | some substream => Function.update l.read substream (l.read substream + 1)
      | none => l.read
  | _ => l.read

/-- What `poll` returns: messages go to the socket, a request for a substream goes to the
network library, any other event to the network protocol. -/
def polled (r : Handler × List Bytes × Poll HandlerEvent) : Link :=
  match r with
  | (h, sent, result) =>
      { l with
        handler := Function.update l.handler side h
        requests := Function.update l.requests side
          (l.requests side ++ Handler.polledRequests result)
        written := l.write side sent
        read := l.consume side result
        emitted := Function.update l.emitted side
          (l.emitted side ++ Handler.polledEvents result) }

def step : LinkEvent → Option Link
  | .tell side event =>
      ((l.handler side).injectEvent event).map fun h => (l.record side event).setHandler side h
  | .negotiate side => some (l.negotiate side)
  | .outbound side substream =>
      if substream ∈ l.outbound side then
        ((l.handler side).injectFullyNegotiatedOutbound ⟨substream, []⟩).map fun h =>
          { l with
            outbound := Function.update l.outbound side ((l.outbound side).erase substream)
          }.setHandler side h
      else some l
  | .inbound side protocol =>
      if protocol ∈ l.inbound side then
        ((l.handler side).injectFullyNegotiatedInbound protocol).map fun h =>
          { l with
            inbound := Function.update l.inbound side ((l.inbound side).erase protocol)
          }.setHandler side h
      else some l
  | .dialUpgradeError side upgrade =>
      some (l.setHandler side ((l.handler side).injectDialUpgradeError upgrade))
  | .poll side deadline sink readout =>
      ((l.handler side).poll deadline sink (l.streamAnswer side readout)).map (l.polled side)

/-- The links that can come about. -/
inductive Reach : Link → Prop
  | start : Reach start
  | step {l l' : Link} {event : LinkEvent} (h : Reach l) (hstep : l.step event = some l') :
      Reach l'

def run : Link → List LinkEvent → Option Link
  | l, [] => some l
  | l, event :: events => (l.step event).bind fun l => l.run events

/-- The messages that an end has received. -/
def received : List Bytes := Handler.messages (l.emitted side)

section Fields

variable {l side} (h : Handler) (event : HandlerIn) (sent : List Bytes)

@[simp] theorem setHandler_handler :
    (l.setHandler side h).handler = Function.update l.handler side h := rfl
@[simp] theorem setHandler_requests : (l.setHandler side h).requests = l.requests := rfl
@[simp] theorem setHandler_outbound : (l.setHandler side h).outbound = l.outbound := rfl
@[simp] theorem setHandler_inbound : (l.setHandler side h).inbound = l.inbound := rfl
@[simp] theorem setHandler_next : (l.setHandler side h).next = l.next := rfl
@[simp] theorem setHandler_owner : (l.setHandler side h).owner = l.owner := rfl
@[simp] theorem setHandler_written : (l.setHandler side h).written = l.written := rfl
@[simp] theorem setHandler_read : (l.setHandler side h).read = l.read := rfl
@[simp] theorem setHandler_told : (l.setHandler side h).told = l.told := rfl
@[simp] theorem setHandler_accepted : (l.setHandler side h).accepted = l.accepted := rfl
@[simp] theorem setHandler_emitted : (l.setHandler side h).emitted = l.emitted := rfl

end Fields

/-! Neither handler panics, and the network protocol sees a session at each. -/

structure Disciplined : Prop where
  sound : ∀ s, (l.handler s).Sound (l.told s.other) (l.told s) (l.emitted s)
  requests : ∀ s, l.requests s ⊆ l.told s
  inbound : ∀ s, ∀ protocol ∈ l.inbound s, ∃ handshake ∈ l.told s.other,
    protocol.receivedHandshake = some handshake

section Disciplined

variable {l side} {h : Handler}

theorem disciplined_start : start.Disciplined where
  sound _ := Handler.Sound.new
  requests _ := List.Subset.refl _
  inbound _ _ hmem := absurd hmem List.not_mem_nil

/-- One end changes. -/
theorem Disciplined.frame {l' : Link} (hl : l.Disciplined)
    (hhandler : l'.handler = Function.update l.handler side h) (htold : l'.told = l.told)
    (hemitted : l'.emitted side.other = l.emitted side.other)
    (hsound : h.Sound (l.told side.other) (l.told side) (l'.emitted side))
    (hrequests : ∀ s, l'.requests s ⊆ l.told s) (hinbound : ∀ s, l'.inbound s ⊆ l.inbound s) :
    l'.Disciplined where
  sound s := by
    rw [hhandler, htold]
    obtain rfl | rfl := s.eq_or_eq_other side
    · rwa [Function.update_self]
    · rw [Function.update_of_ne side.other_ne, hemitted]
      exact hl.sound side.other
  requests := htold ▸ hrequests
  inbound s protocol hmem := htold ▸ hl.inbound s protocol (hinbound s hmem)

theorem Disciplined.setHandler (hl : l.Disciplined)
    (hsound : h.Sound (l.told side.other) (l.told side) (l.emitted side)) :
    (l.setHandler side h).Disciplined :=
  hl.frame rfl rfl rfl hsound hl.requests fun _ => List.Subset.refl _

/-- More handshakes may come, from either end. -/
theorem Disciplined.record (hl : l.Disciplined) (side : Side) (event : HandlerIn) :
    (l.record side event).Disciplined ∧
      ∀ handshake, event = .opening handshake → handshake ∈ (l.record side event).told side := by
  cases event with
  | opening handshake =>
      have hmono (s : Side) : l.told s ⊆ (l.record side (.opening handshake)).told s := by
        obtain rfl | rfl := s.eq_or_eq_other side
        · simp [Link.record]
        · simp [Link.record]
      refine ⟨⟨fun s => (hl.sound s).mono (hmono _) (hmono _), fun s =>
        List.Subset.trans (hl.requests s) (hmono s), fun s protocol hmem => ?_⟩, ?_⟩
      · obtain ⟨received, hreceived, heq⟩ := hl.inbound s protocol hmem
        exact ⟨received, hmono _ hreceived, heq⟩
      · rintro _ ⟨⟩
        simp [Link.record]
  | close => exact ⟨hl, nofun⟩
  | sendMessage message =>
      refine ⟨?_, nofun⟩
      unfold Link.record
      split_ifs
      · exact ⟨hl.sound, hl.requests, hl.inbound⟩
      · exact hl

theorem Disciplined.negotiate (hl : l.Disciplined) : (l.negotiate side).Disciplined := by
  unfold Link.negotiate
  split
  · exact hl
  · rename_i handshake requests hrequests
    have htold : handshake ∈ l.told side :=
      hl.requests side (hrequests ▸ List.mem_cons_self)
    refine ⟨hl.sound, fun s => ?_, fun s protocol hmem => ?_⟩
    · obtain rfl | rfl := s.eq_or_eq_other side
      · have hsub : requests ⊆ l.requests s := hrequests ▸ List.subset_cons_self ..
        simpa using List.Subset.trans hsub (hl.requests s)
      · simpa using hl.requests side.other
    · obtain rfl | rfl := s.eq_or_eq_other side
      · exact hl.inbound s protocol (by simpa using hmem)
      · simp only [Function.update_self, List.mem_cons] at hmem
        obtain rfl | hmem := hmem
        · exact ⟨handshake, by simpa using htold, rfl⟩
        · exact hl.inbound _ protocol hmem

theorem Disciplined.tell (hl : l.Disciplined) (event : HandlerIn) :
    ∃ l', l.step (.tell side event) = some l' ∧ l'.Disciplined := by
  obtain ⟨hrecord, hown⟩ := hl.record side event
  have hhandler : (l.record side event).handler = l.handler := by
    cases event with
    | sendMessage message =>
        unfold Link.record
        split_ifs <;> rfl
    | opening handshake => rfl
    | close => rfl
  obtain ⟨h, hinject, hsound⟩ := (hrecord.sound side).injectEvent hown
  rw [hhandler] at hinject
  exact ⟨_, by simp [step, hinject], hrecord.setHandler hsound⟩

theorem Disciplined.injectOutbound (hl : l.Disciplined) (substream : SubstreamId) :
    ∃ l', l.step (.outbound side substream) = some l' ∧ l'.Disciplined := by
  simp only [step]
  split_ifs
  · obtain ⟨h, hinject, hsound⟩ := (hl.sound side).outbound ⟨substream, []⟩
    refine ⟨_, by rw [hinject]; rfl, ?_⟩
    exact hl.frame rfl rfl rfl hsound hl.requests fun _ => List.Subset.refl _
  · exact ⟨l, rfl, hl⟩

theorem Disciplined.injectInbound (hl : l.Disciplined) (protocol : InSubstream) :
    ∃ l', l.step (.inbound side protocol) = some l' ∧ l'.Disciplined := by
  simp only [step]
  split_ifs with hmem
  · obtain ⟨handshake, htold, hreceived⟩ := hl.inbound side protocol hmem
    obtain ⟨h, hinject, hsound⟩ := (hl.sound side).inbound htold hreceived
    refine ⟨_, by rw [hinject]; rfl, ?_⟩
    refine hl.frame rfl rfl rfl hsound hl.requests fun s => ?_
    obtain rfl | rfl := s.eq_or_eq_other side
    · simpa using List.erase_subset ..
    · simp
  · exact ⟨l, rfl, hl⟩

theorem Disciplined.poll (hl : l.Disciplined) (deadline : Bool) (sink : SinkAnswers)
    (readout : Readout) :
    ∃ l', l.step (.poll side deadline sink readout) = some l' ∧ l'.Disciplined := by
  obtain ⟨h, sent, result, hpoll, hpolled⟩ := Handler.polled_of_poll
    (hl.sound side).ne_locked (l.streamAnswer side readout) deadline sink
  refine ⟨_, by rw [step, hpoll]; rfl, ?_⟩
  refine hl.frame rfl rfl ?_ ?_ (fun s => ?_) fun _ => List.Subset.refl _
  · exact Function.update_of_ne side.other_ne ..
  · simpa [polled] using (hl.sound side).polled hpolled
  · obtain rfl | rfl := s.eq_or_eq_other side
    · have hasked := (hl.sound s).asked_of_polled hpolled
      simpa [polled] using ⟨hl.requests s, hasked⟩
    · simpa [polled] using hl.requests side.other

theorem Disciplined.step (hl : l.Disciplined) (event : LinkEvent) :
    ∃ l', l.step event = some l' ∧ l'.Disciplined := by
  cases event with
  | tell side event => exact hl.tell event
  | negotiate side => exact ⟨_, rfl, hl.negotiate⟩
  | outbound side substream => exact hl.injectOutbound substream
  | inbound side protocol => exact hl.injectInbound protocol
  | dialUpgradeError side upgrade =>
      exact ⟨_, rfl, hl.setHandler ((hl.sound side).pushError upgrade)⟩
  | poll side deadline sink readout => exact hl.poll deadline sink readout

theorem Reach.links_disciplined (hl : Reach l) : l.Disciplined := by
  induction hl with
  | start => exact disciplined_start
  | @step l l' event _ hstep ih =>
      obtain ⟨l'', hstep', hl'⟩ := ih.step event
      rw [hstep] at hstep'
      exact Option.some.inj hstep' ▸ hl'

/-- Whatever comes, in any order, neither end panics, and what the network
protocol sees at an end, errors apart, is nothing or one opening with a
handshake that the other end was told to send, then messages, and then at most
one close, after which there is nothing. A closed end that was open has the
close among its events, or about to come. -/
theorem session_of_reach (hl : Reach l) :
    (∀ event, (l.step event).isSome) ∧
      ∀ s, Handler.Session (l.told s.other) (Handler.signals (l.emitted s)) ∧
        ((l.handler s).state = .closed → Handler.Ended (l.told s.other)
          (Handler.signals (l.emitted s ++ (l.handler s).pending))) := by
  refine ⟨fun event => ?_, fun s =>
    ⟨(hl.links_disciplined.sound s).session, (hl.links_disciplined.sound s).ended⟩⟩
  obtain ⟨l', hstep, -⟩ := hl.links_disciplined.step event
  rw [hstep]
  rfl

end Disciplined

/-! What an end has received is what the other one has accepted, up to some
point. -/

/-- A substream that an end has asked for. -/
def OwnedBy (s : Side) (substream : SubstreamId) : Prop :=
  substream < l.next ∧ l.owner substream = s

def Unread (s : Side) : Prop :=
  l.received s = [] ∧ ∀ substream, l.owner substream = s.other → l.read substream = 0

/-- How the accepted messages stand to the written ones. -/
def Sending (s : Side) : HandlerState → Prop
  | .init => l.accepted s = []
  | .opening _ outSubstream =>
      l.accepted s = [] ∧
        ∀ protocol ∈ outSubstream, l.OwnedBy s protocol.substream ∧ protocol.sendQueue = []
  | .opened _ outSubstream =>
      l.OwnedBy s outSubstream.substream ∧
        l.accepted s = l.written outSubstream.substream ++ outSubstream.sendQueue
  | _ => True

/-- How the received messages stand to the written ones. -/
def Receiving (s : Side) : HandlerState → Prop
  | .init => l.Unread s
  | .opening inSubstream _ =>
      l.Unread s ∧ ∀ protocol ∈ inSubstream, l.OwnedBy s.other protocol.substream
  | .opened inSubstream _ =>
      l.OwnedBy s.other inSubstream.substream ∧
        l.received s = (l.written inSubstream.substream).take (l.read inSubstream.substream)
  | _ => l.received s <+: l.accepted s.other

structure Delivering : Prop where
  fresh : ∀ substream, l.next ≤ substream → l.written substream = [] ∧ l.read substream = 0
  outbound : ∀ s, ∀ substream ∈ l.outbound s, l.OwnedBy s substream
  inbound : ∀ s, ∀ protocol ∈ l.inbound s, l.OwnedBy s.other protocol.substream
  readLe : ∀ substream, l.read substream ≤ (l.written substream).length
  written : ∀ substream, l.written substream <+: l.accepted (l.owner substream)
  sending : ∀ s, l.Sending s (l.handler s).state
  receiving : ∀ s, l.Receiving s (l.handler s).state

section Delivering

variable {l l' : Link} {side : Side} {h : Handler} {state : HandlerState}

theorem delivering_start : start.Delivering where
  fresh _ _ := ⟨rfl, rfl⟩
  outbound _ _ hmem := absurd hmem List.not_mem_nil
  inbound _ _ hmem := absurd hmem List.not_mem_nil
  readLe _ := Nat.le_refl 0
  written _ := List.nil_prefix
  sending _ := rfl
  receiving _ := ⟨rfl, fun _ _ => rfl⟩

theorem Receiving.received_front {s : Side} (h0 : l.Receiving s state)
    (hwritten : ∀ substream, l.written substream <+: l.accepted (l.owner substream)) :
    l.received s <+: l.accepted s.other := by
  cases state with
  | init => exact h0.1 ▸ List.nil_prefix
  | opening inSubstream outSubstream => exact h0.1.1 ▸ List.nil_prefix
  | opened inSubstream outSubstream =>
      obtain ⟨⟨-, howner⟩, htake⟩ := h0
      rw [htake, ← howner]
      exact (List.take_prefix ..).trans (hwritten _)
  | closed => exact h0
  | locked => exact h0

/-- What stays of the sending end when the other one changes. -/
theorem Sending.frame {s : Side} (h0 : l.Sending s state) (hnext : l.next ≤ l'.next)
    (howner : ∀ substream < l.next, l'.owner substream = l.owner substream)
    (haccepted : l'.accepted s = l.accepted s)
    (hwritten : ∀ substream, l.OwnedBy s substream → l'.written substream = l.written substream) :
    l'.Sending s state := by
  have howned (substream : SubstreamId) (h : l.OwnedBy s substream) : l'.OwnedBy s substream :=
    ⟨h.1.trans_le hnext, (howner substream h.1).trans h.2⟩
  cases state with
  | init => exact haccepted.trans h0
  | opening inSubstream outSubstream =>
      refine ⟨haccepted.trans h0.1, fun protocol hmem => ?_⟩
      exact ⟨howned _ (h0.2 protocol hmem).1, (h0.2 protocol hmem).2⟩
  | opened inSubstream outSubstream =>
      refine ⟨howned _ h0.1, ?_⟩
      rw [haccepted, hwritten _ h0.1]
      exact h0.2
  | closed => exact trivial
  | locked => exact trivial

/-- What stays of the receiving end when the other one changes. -/
theorem Receiving.frame {s : Side} (h0 : l.Receiving s state) (hnext : l.next ≤ l'.next)
    (howner : ∀ substream < l.next, l'.owner substream = l.owner substream)
    (hfresh : ∀ substream, l.next ≤ substream → l'.read substream = 0)
    (hread : ∀ substream, l.OwnedBy s.other substream → l'.read substream = l.read substream)
    (hreadLe : ∀ substream, l.read substream ≤ (l.written substream).length)
    (hwritten : ∀ substream, l.written substream <+: l'.written substream)
    (haccepted : l.accepted s.other <+: l'.accepted s.other)
    (hreceived : l'.received s = l.received s) : l'.Receiving s state := by
  have howned (substream : SubstreamId) (h : l.OwnedBy s.other substream) :
      l'.OwnedBy s.other substream :=
    ⟨h.1.trans_le hnext, (howner substream h.1).trans h.2⟩
  have hunread (h : l.Unread s) : l'.Unread s := by
    refine ⟨hreceived.trans h.1, fun substream hother => ?_⟩
    by_cases hlt : substream < l.next
    · have hmine := (howner substream hlt).symm.trans hother
      exact (hread substream ⟨hlt, hmine⟩).trans (h.2 substream hmine)
    · exact hfresh substream (not_lt.1 hlt)
  have hclosed (h : l.received s <+: l.accepted s.other) :
      l'.received s <+: l'.accepted s.other :=
    hreceived ▸ h.trans haccepted
  cases state with
  | init => exact hunread h0
  | opening inSubstream outSubstream =>
      exact ⟨hunread h0.1, fun protocol hmem => howned _ (h0.2 protocol hmem)⟩
  | opened inSubstream outSubstream =>
      obtain ⟨hmine, htake⟩ := h0
      refine ⟨howned _ hmine, ?_⟩
      obtain ⟨more, hmore⟩ := hwritten inSubstream.substream
      rw [hreceived, htake, hread _ hmine, ← hmore,
        List.take_append_of_le_length (hreadLe _)]
  | closed => exact hclosed h0
  | locked => exact hclosed h0

/-- One end changes: it may write on its substreams what it has accepted, and read what
is written on those of the other end. -/
theorem Delivering.frame (hl : l.Delivering) (hnext : l'.next = l.next)
    (howner : l'.owner = l.owner) (houtbound : ∀ s, l'.outbound s ⊆ l.outbound s)
    (hinbound : ∀ s, l'.inbound s ⊆ l.inbound s)
    (hhandler : l'.handler = Function.update l.handler side h)
    (hwritten : ∀ substream, l'.written substream = l.written substream ∨
      l.OwnedBy side substream ∧ l.written substream <+: l'.written substream ∧
        l'.written substream <+: l'.accepted side)
    (hread : ∀ substream, l'.read substream = l.read substream ∨
      l.OwnedBy side.other substream ∧
        l'.read substream ≤ (l.written substream).length)
    (hother : l'.accepted side.other = l.accepted side.other)
    (haccepted : l.accepted side <+: l'.accepted side)
    (hreceived : l'.received side.other = l.received side.other)
    (hsending : l'.Sending side h.state) (hreceiving : l'.Receiving side h.state) :
    l'.Delivering := by
  have hmono (substream : SubstreamId) : l.written substream <+: l'.written substream := by
    obtain heq | ⟨-, hfront, -⟩ := hwritten substream
    · exact heq ▸ List.prefix_rfl
    · exact hfront
  have hacc (s : Side) : l.accepted s <+: l'.accepted s := by
    obtain rfl | rfl := s.eq_or_eq_other side
    · exact haccepted
    · exact hother ▸ List.prefix_rfl
  have hfresh (substream : SubstreamId) (hle : l.next ≤ substream) :
      l'.written substream = [] ∧ l'.read substream = 0 := by
    obtain ⟨hw, hr⟩ := hl.fresh substream hle
    obtain heq | ⟨hmine, -⟩ := hwritten substream
    · obtain heq' | ⟨hmine, -⟩ := hread substream
      · exact ⟨heq.trans hw, heq'.trans hr⟩
      · exact absurd hmine.1 (not_lt.2 hle)
    · exact absurd hmine.1 (not_lt.2 hle)
  have howned (s : Side) (substream : SubstreamId) (hmine : l.OwnedBy s substream) :
      l'.OwnedBy s substream := by
    unfold OwnedBy
    rw [hnext, howner]
    exact hmine
  refine ⟨fun substream hle => hfresh substream (hnext ▸ hle), fun s substream hmem => ?_,
    fun s protocol hmem => ?_, fun substream => ?_, fun substream => ?_, fun s => ?_,
    fun s => ?_⟩
  · exact howned _ _ (hl.outbound s substream (houtbound s hmem))
  · exact howned _ _ (hl.inbound s protocol (hinbound s hmem))
  · obtain heq | ⟨-, hle⟩ := hread substream
    · exact heq ▸ (hl.readLe substream).trans (hmono substream).length_le
    · exact hle.trans (hmono substream).length_le
  · rw [howner]
    obtain heq | ⟨hmine, -, hfront⟩ := hwritten substream
    · exact heq ▸ (hl.written substream).trans (hacc _)
    · exact hmine.2 ▸ hfront
  · rw [hhandler]
    obtain rfl | rfl := s.eq_or_eq_other side
    · rwa [Function.update_self]
    · rw [Function.update_of_ne side.other_ne]
      refine (hl.sending side.other).frame hnext.ge (fun _ _ => by rw [howner]) hother
        fun substream hmine => (hwritten substream).resolve_right fun h => ?_
      exact side.other_ne (hmine.2.symm.trans h.1.2)
  · rw [hhandler]
    obtain rfl | rfl := s.eq_or_eq_other side
    · rwa [Function.update_self]
    · rw [Function.update_of_ne side.other_ne]
      refine (hl.receiving side.other).frame hnext.ge (fun _ _ => by rw [howner])
        (fun substream hle => (hfresh substream hle).2) (fun substream hmine => ?_) hl.readLe
        hmono (hacc _) hreceived
      refine (hread substream).resolve_right fun h => ?_
      exact side.other_ne (h.1.2.symm.trans (hmine.2.trans side.other_other))

theorem Delivering.setHandler (hl : l.Delivering) (hsending : l.Sending side h.state)
    (hreceiving : l.Receiving side h.state) : (l.setHandler side h).Delivering :=
  hl.frame rfl rfl (fun _ => List.Subset.refl _) (fun _ => List.Subset.refl _) rfl
    (fun _ => .inl rfl) (fun _ => .inl rfl) rfl List.prefix_rfl rfl hsending hreceiving

/-- A handler that keeps its state. -/
theorem Delivering.keepState (hl : l.Delivering) (hstate : h.state = (l.handler side).state) :
    (l.setHandler side h).Delivering :=
  hl.setHandler (hstate ▸ hl.sending side) (hstate ▸ hl.receiving side)

theorem Delivering.told (hl : l.Delivering) (told : Side → List Bytes) :
    { l with told }.Delivering :=
  ⟨hl.fresh, hl.outbound, hl.inbound, hl.readLe, hl.written, hl.sending, hl.receiving⟩

theorem Delivering.opening (hl : l.Delivering) {handshake : Bytes}
    (hopening : (l.handler side).opening handshake = some h) :
    (l.setHandler side h).Delivering := by
  obtain hsame | ⟨hinit, hstate⟩ := Handler.opening_state hopening
  · exact hl.keepState hsame
  · have hsending := hl.sending side
    have hreceiving := hl.receiving side
    rw [hinit] at hsending hreceiving
    exact hl.setHandler (hstate ▸ ⟨hsending, nofun⟩) (hstate ▸ ⟨hreceiving, nofun⟩)

theorem Delivering.close (hl : l.Delivering) (hclose : (l.handler side).close = some h) :
    (l.setHandler side h).Delivering := by
  have hstate := Handler.close_state hclose
  exact hl.setHandler (hstate ▸ trivial)
    (hstate ▸ (hl.receiving side).received_front hl.written)

/-- An open handler accepts a message for the end of its queue. -/
theorem Delivering.accept (hl : l.Delivering) (message : Bytes) {inSubstream : InSubstream}
    {outSubstream : OutSubstream}
    (hstate : (l.handler side).state = .opened inSubstream outSubstream) :
    ((l.record side (.sendMessage message)).setHandler side
      ((l.handler side).sendMessage message)).Delivering := by
  have hsending := hl.sending side
  have hreceiving := hl.receiving side
  rw [hstate] at hsending hreceiving
  obtain ⟨hmine, haccepted⟩ := hsending
  simp only [Link.record, sendsOn, Handler.sendMessage, hstate, Option.isSome_some, if_true]
  refine hl.frame rfl rfl (fun _ => List.Subset.refl _) (fun _ => List.Subset.refl _) rfl
    (fun _ => .inl rfl) (fun _ => .inl rfl) (by simp) (by simp) rfl ⟨hmine, ?_⟩ hreceiving
  simp [haccepted, OutSubstream.sendMessage]

/-- Any other handler answers with an error. -/
theorem Delivering.sendMessage (hl : l.Delivering) (message : Bytes) :
    ((l.record side (.sendMessage message)).setHandler side
      ((l.handler side).sendMessage message)).Delivering := by
  have herror (hnone : l.sendsOn side = none)
      (hpush : (l.handler side).sendMessage message =
        (l.handler side).push (.custom (.protocolError false))) :
      ((l.record side (.sendMessage message)).setHandler side
        ((l.handler side).sendMessage message)).Delivering := by
    rw [hpush, Link.record, hnone]
    exact hl.keepState rfl
  cases hstate : (l.handler side).state with
  | opened inSubstream outSubstream => exact hl.accept message hstate
  | init => exact herror (by rw [sendsOn, hstate]) (by rw [Handler.sendMessage, hstate])
  | opening _ _ => exact herror (by rw [sendsOn, hstate]) (by rw [Handler.sendMessage, hstate])
  | closed => exact herror (by rw [sendsOn, hstate]) (by rw [Handler.sendMessage, hstate])
  | locked => exact herror (by rw [sendsOn, hstate]) (by rw [Handler.sendMessage, hstate])

theorem Delivering.tell (hl : l.Delivering) {event : HandlerIn}
    (hstep : l.step (.tell side event) = some l') : l'.Delivering := by
  obtain ⟨h, hinject, rfl⟩ := Option.map_eq_some_iff.1 hstep
  cases event with
  | opening handshake => exact (hl.told _).opening hinject
  | close => exact hl.close hinject
  | sendMessage message => exact Option.some.inj hinject ▸ hl.sendMessage message

/-- A new substream belongs to the end that has asked for it. -/
theorem Delivering.negotiate (hl : l.Delivering) : (l.negotiate side).Delivering := by
  unfold Link.negotiate
  split
  · exact hl
  · have howner (substream : SubstreamId) (hlt : substream < l.next) :
        Function.update l.owner l.next side substream = l.owner substream :=
      Function.update_of_ne hlt.ne ..
    have howned (s : Side) (substream : SubstreamId) (hmine : l.OwnedBy s substream) :
        substream < l.next + 1 ∧ Function.update l.owner l.next side substream = s :=
      ⟨hmine.1.trans (Nat.lt_succ_self _), (howner substream hmine.1).trans hmine.2⟩
    have hnew : l.next < l.next + 1 ∧ Function.update l.owner l.next side l.next = side :=
      ⟨Nat.lt_succ_self _, Function.update_self ..⟩
    refine ⟨fun substream hle => hl.fresh substream (Nat.le_of_succ_le hle),
      fun s substream hmem => ?_, fun s protocol hmem => ?_, hl.readLe, fun substream => ?_,
      fun s => ?_, fun s => ?_⟩
    · obtain rfl | rfl := s.eq_or_eq_other side
      · simp only [Function.update_self, List.mem_cons] at hmem
        obtain rfl | hmem := hmem
        · exact hnew
        · exact howned _ _ (hl.outbound _ _ hmem)
      · exact howned _ _ (hl.outbound _ _ (by simpa using hmem))
    · obtain rfl | rfl := s.eq_or_eq_other side
      · exact howned _ _ (hl.inbound _ _ (by simpa using hmem))
      · simp only [Function.update_self, List.mem_cons] at hmem
        obtain rfl | hmem := hmem
        · exact side.other_other.symm ▸ hnew
        · exact howned _ _ (hl.inbound _ _ hmem)
    · change l.written substream <+: l.accepted (Function.update l.owner l.next side substream)
      by_cases hlt : substream < l.next
      · exact (howner substream hlt).symm ▸ hl.written substream
      · exact (hl.fresh substream (not_lt.1 hlt)).1 ▸ List.nil_prefix
    · exact (hl.sending s).frame (Nat.le_succ _) howner rfl fun _ _ => rfl
    · exact (hl.receiving s).frame (Nat.le_succ _) howner (fun _ hle => (hl.fresh _ hle).2)
        (fun _ _ => rfl) hl.readLe (fun _ => List.prefix_rfl) List.prefix_rfl rfl

/-- Before a handler is open nothing has gone through a substream. -/
theorem Delivering.sending_opened (hl : l.Delivering) (hnone : l.accepted side = [])
    {outSubstream : OutSubstream} (hmine : l.OwnedBy side outSubstream.substream)
    (hempty : outSubstream.sendQueue = []) (inSubstream : InSubstream) :
    l.Sending side (.opened inSubstream outSubstream) := by
  refine ⟨hmine, ?_⟩
  have hwritten : l.written outSubstream.substream = [] :=
    List.prefix_nil.1 (hnone ▸ hmine.2 ▸ hl.written outSubstream.substream)
  simp [hnone, hwritten, hempty]

theorem Unread.receiving_opened (h0 : l.Unread side) {inSubstream : InSubstream}
    (hmine : l.OwnedBy side.other inSubstream.substream) (outSubstream : OutSubstream) :
    l.Receiving side (.opened inSubstream outSubstream) := by
  refine ⟨hmine, ?_⟩
  rw [h0.1, h0.2 _ hmine.2, List.take_zero]

theorem Delivering.injectOutbound (hl : l.Delivering) {substream : SubstreamId}
    (hstep : l.step (.outbound side substream) = some l') : l'.Delivering := by
  simp only [step] at hstep
  split_ifs at hstep with hmem
  · obtain ⟨h, hinject, rfl⟩ := Option.map_eq_some_iff.1 hstep
    have howned := hl.outbound side substream hmem
    have hdone (hsending : l.Sending side h.state) (hreceiving : l.Receiving side h.state) :
        ({ l with
          outbound := Function.update l.outbound side ((l.outbound side).erase substream)
          }.setHandler side h).Delivering := by
      refine hl.frame rfl rfl (fun s => ?_) (fun _ => List.Subset.refl _) rfl
        (fun _ => .inl rfl) (fun _ => .inl rfl) rfl List.prefix_rfl rfl hsending hreceiving
      obtain rfl | rfl := s.eq_or_eq_other side
      · simpa using List.erase_subset ..
      · simp
    have hsending := hl.sending side
    have hreceiving := hl.receiving side
    obtain hsame | ⟨hold, hstate⟩ | ⟨inSubstream, outSubstream, hold, hstate⟩ :=
      Handler.outbound_state hinject
    · exact hdone (hsame ▸ hsending) (hsame ▸ hreceiving)
    · have hnone : l.accepted side = [] ∧ l.Unread side := by
        obtain hold | ⟨outSubstream, hold⟩ := hold
        · exact ⟨by rwa [hold] at hsending, by rwa [hold] at hreceiving⟩
        · rw [hold] at hsending hreceiving
          exact ⟨hsending.1, hreceiving.1⟩
      refine hdone ?_ (hstate ▸ ⟨hnone.2, nofun⟩)
      rw [hstate]
      exact ⟨hnone.1, fun protocol heq => Option.some.inj heq ▸ ⟨howned, rfl⟩⟩
    · rw [hold] at hsending hreceiving
      refine hdone ?_ ?_
      · rw [hstate]
        exact hl.sending_opened hsending.1 howned rfl inSubstream
      · rw [hstate]
        exact hreceiving.1.receiving_opened (hreceiving.2 inSubstream rfl) ⟨substream, []⟩
  · exact Option.some.inj hstep ▸ hl

theorem Delivering.injectInbound (hl : l.Delivering) {protocol : InSubstream}
    (hstep : l.step (.inbound side protocol) = some l') : l'.Delivering := by
  simp only [step] at hstep
  split_ifs at hstep with hmem
  · obtain ⟨h, hinject, rfl⟩ := Option.map_eq_some_iff.1 hstep
    have howned := hl.inbound side protocol hmem
    have hdone (hsending : l.Sending side h.state) (hreceiving : l.Receiving side h.state) :
        ({ l with
          inbound := Function.update l.inbound side ((l.inbound side).erase protocol)
          }.setHandler side h).Delivering := by
      refine hl.frame rfl rfl (fun _ => List.Subset.refl _) (fun s => ?_) rfl
        (fun _ => .inl rfl) (fun _ => .inl rfl) rfl List.prefix_rfl rfl hsending hreceiving
      obtain rfl | rfl := s.eq_or_eq_other side
      · simpa using List.erase_subset ..
      · simp
    have hsending := hl.sending side
    have hreceiving := hl.receiving side
    obtain hsame | ⟨hold, hstate⟩ | ⟨inSubstream, outSubstream, hold, hstate⟩ :=
      Handler.inbound_state hinject
    · exact hdone (hsame ▸ hsending) (hsame ▸ hreceiving)
    · have hnone : l.accepted side = [] ∧ l.Unread side := by
        obtain hold | ⟨inSubstream, hold⟩ := hold
        · exact ⟨by rwa [hold] at hsending, by rwa [hold] at hreceiving⟩
        · rw [hold] at hsending hreceiving
          exact ⟨hsending.1, hreceiving.1⟩
      refine hdone (hstate ▸ ⟨hnone.1, nofun⟩) ?_
      rw [hstate]
      exact ⟨hnone.2, fun other heq => Option.some.inj heq ▸ howned⟩
    · rw [hold] at hsending hreceiving
      obtain ⟨hmine, hempty⟩ := hsending.2 outSubstream rfl
      refine hdone ?_ ?_
      · rw [hstate]
        exact hl.sending_opened hsending.1 hmine hempty protocol
      · rw [hstate]
        exact hreceiving.1.receiving_opened howned outSubstream
  · exact Option.some.inj hstep ▸ hl

theorem polled_read (sent : List Bytes) (result : Poll HandlerEvent) :
    (l.polled side (h, sent, result)).read = l.consume side result := rfl

theorem polled_written (sent : List Bytes) (result : Poll HandlerEvent) :
    (l.polled side (h, sent, result)).written = l.write side sent := rfl

theorem received_polled (s : Side) (sent : List Bytes) (result : Poll HandlerEvent) :
    (l.polled side (h, sent, result)).received s =
      if s = side then l.received s ++ Handler.messages (Handler.polledEvents result)
      else l.received s := by
  unfold Link.received
  split_ifs with hs
  · simp [polled, hs]
  · simp [polled, hs]

theorem write_of_opened {inSubstream : InSubstream} {outSubstream : OutSubstream}
    (hstate : (l.handler side).state = .opened inSubstream outSubstream) (sent : List Bytes) :
    l.write side sent = Function.update l.written outSubstream.substream
      (l.written outSubstream.substream ++ sent) := by
  unfold write sendsOn
  rw [hstate]

theorem write_nil : l.write side [] = l.written := by
  unfold write
  split
  · rw [List.append_nil, Function.update_eq_self]
  · rfl

theorem consume_of_ne {result : Poll HandlerEvent}
    (hread : ∀ message, result ≠ .ready (.custom (.message message))) :
    l.consume side result = l.read := by
  unfold consume
  split
  · exact absurd rfl (hread _)
  · rfl

/-- A `poll` that sends and reads nothing. -/
theorem Delivering.silent (hl : l.Delivering) {result : Poll HandlerEvent}
    (hstate : h.state = (l.handler side).state)
    (hread : ∀ message, result ≠ .ready (.custom (.message message))) :
    (l.polled side (h, [], result)).Delivering := by
  have hreceived (s : Side) : (l.polled side (h, [], result)).received s = l.received s := by
    rw [received_polled]
    split_ifs
    · cases result with
      | pending => exact List.append_nil _
      | ready event =>
          cases event with
          | outboundSubstreamRequest handshake => exact List.append_nil _
          | custom event =>
              cases event with
              | message message => exact absurd rfl (hread message)
              | protocolOpen handshake => exact List.append_nil _
              | protocolClose => exact List.append_nil _
              | protocolError disconnect => exact List.append_nil _
    · rfl
  have hwritten : (l.polled side (h, [], result)).written = l.written := write_nil
  have hconsume : (l.polled side (h, [], result)).read = l.read := consume_of_ne hread
  refine hl.frame rfl rfl (fun _ => List.Subset.refl _) (fun _ => List.Subset.refl _) rfl
    (fun _ => .inl (by rw [hwritten])) (fun _ => .inl (by rw [hconsume])) rfl List.prefix_rfl
    (hreceived _) ?_ ?_
  · exact hstate ▸ (hl.sending side).frame le_rfl (fun _ _ => rfl) rfl fun _ _ => by rw [hwritten]
  · exact hstate ▸ (hl.receiving side).frame le_rfl (fun _ _ => rfl)
      (fun substream hle => by rw [hconsume, (hl.fresh substream hle).2])
      (fun _ _ => by rw [hconsume]) hl.readLe (fun _ => hwritten ▸ List.prefix_rfl)
      List.prefix_rfl (hreceived side)

/-- What a `poll` of an open handler writes it has accepted before. -/
theorem Delivering.written_write (hl : l.Delivering) {inSubstream : InSubstream}
    {outSubstream : OutSubstream} {sent : List Bytes}
    (hstate : (l.handler side).state = .opened inSubstream outSubstream)
    (hsent : sent <+: outSubstream.sendQueue) (substream : SubstreamId) :
    l.write side sent substream = l.written substream ∨
      l.OwnedBy side substream ∧ l.written substream <+: l.write side sent substream ∧
        l.write side sent substream <+: l.accepted side := by
  have hsending := hl.sending side
  rw [hstate] at hsending
  obtain ⟨hmine, haccepted⟩ := hsending
  rw [write_of_opened hstate]
  by_cases heq : substream = outSubstream.substream
  · subst heq
    rw [Function.update_self, haccepted]
    exact .inr ⟨hmine, List.prefix_append .., List.prefix_append_right_inj _ |>.2 hsent⟩
  · exact .inl (Function.update_of_ne heq ..)

/-- A `poll` of an open handler that closes it. -/
theorem Delivering.closing (hl : l.Delivering) {inSubstream : InSubstream}
    {outSubstream : OutSubstream} {sent : List Bytes}
    (hstate : (l.handler side).state = .opened inSubstream outSubstream)
    (hsent : sent <+: outSubstream.sendQueue) (hclosed : h.state = .closed) :
    (l.polled side (h, sent, .ready (.custom .protocolClose))).Delivering := by
  have hreceived (s : Side) :
      (l.polled side (h, sent, .ready (.custom .protocolClose))).received s = l.received s := by
    rw [received_polled]
    split_ifs
    · exact List.append_nil _
    · rfl
  refine hl.frame rfl rfl (fun _ => List.Subset.refl _) (fun _ => List.Subset.refl _) rfl
    (hl.written_write hstate hsent) (fun _ => .inl rfl) rfl List.prefix_rfl (hreceived _)
    (hclosed ▸ trivial) ?_
  have hfront := (hl.receiving side).received_front hl.written
  rw [← hreceived side] at hfront
  exact hclosed ▸ hfront

/-- What an open handler has not sent yet stays in its queue. -/
theorem Delivering.sending_polled (hl : l.Delivering) {inSubstream : InSubstream}
    {outSubstream rest : OutSubstream} {sent : List Bytes}
    (hstate : (l.handler side).state = .opened inSubstream outSubstream)
    (hsame : rest.substream = outSubstream.substream)
    (hsent : sent ++ rest.sendQueue = outSubstream.sendQueue) (result : Poll HandlerEvent) :
    (l.polled side (h, sent, result)).Sending side (.opened inSubstream rest) := by
  have hsending := hl.sending side
  rw [hstate] at hsending
  obtain ⟨hmine, haccepted⟩ := hsending
  refine ⟨hsame ▸ hmine, ?_⟩
  change l.accepted side = l.write side sent rest.substream ++ rest.sendQueue
  rw [haccepted, write_of_opened hstate, hsame, Function.update_self, List.append_assoc, hsent]

/-- An open handler that waits for a message. -/
theorem Delivering.waiting (hl : l.Delivering) {inSubstream : InSubstream}
    {outSubstream rest : OutSubstream} {sent : List Bytes}
    (hold : (l.handler side).state = .opened inSubstream outSubstream)
    (hsame : rest.substream = outSubstream.substream)
    (hsent : sent ++ rest.sendQueue = outSubstream.sendQueue)
    (hstate : h.state = .opened inSubstream rest) :
    (l.polled side (h, sent, .pending)).Delivering := by
  have hreceived (s : Side) : (l.polled side (h, sent, .pending)).received s = l.received s := by
    rw [received_polled]
    split_ifs
    · exact List.append_nil _
    · rfl
  have hwritten := hl.written_write hold (hsent ▸ List.prefix_append ..)
  refine hl.frame rfl rfl (fun _ => List.Subset.refl _) (fun _ => List.Subset.refl _) rfl
    hwritten (fun _ => .inl rfl) rfl List.prefix_rfl (hreceived _)
    (hstate ▸ hl.sending_polled hold hsame hsent _) ?_
  have hreceiving := hl.receiving side
  rw [hold] at hreceiving
  obtain ⟨hmine, htake⟩ := hreceiving
  rw [hstate]
  refine ⟨hmine, (hreceived side).trans (htake.trans ?_)⟩
  have hother := (hwritten inSubstream.substream).resolve_right fun h =>
    side.other_ne (hmine.2.symm.trans h.1.2)
  exact congrArg _ hother.symm

/-- An open handler that gets the next message of the other end. -/
theorem Delivering.reading (hl : l.Delivering) {inSubstream : InSubstream}
    {outSubstream rest : OutSubstream} {sent : List Bytes} {message : Bytes}
    (hold : (l.handler side).state = .opened inSubstream outSubstream)
    (hsame : rest.substream = outSubstream.substream)
    (hsent : sent ++ rest.sendQueue = outSubstream.sendQueue)
    (hnext : l.nextMessage side = some message) (hstate : h.state = .opened inSubstream rest) :
    (l.polled side (h, sent, .ready (.custom (.message message)))).Delivering := by
  have hreceiving := hl.receiving side
  rw [hold] at hreceiving
  obtain ⟨hmine, htake⟩ := hreceiving
  have hreceives : l.receivesOn side = some inSubstream.substream := by
    rw [receivesOn, hold]
  rw [nextMessage, hreceives, Option.bind_some] at hnext
  have hlt := (List.getElem?_eq_some_iff.1 hnext).1
  have hconsume : l.consume side (.ready (.custom (.message message))) =
      Function.update l.read inSubstream.substream (l.read inSubstream.substream + 1) := by
    unfold consume
    rw [hreceives]
  have hwritten := hl.written_write hold (hsent ▸ List.prefix_append ..)
  refine hl.frame rfl rfl (fun _ => List.Subset.refl _) (fun _ => List.Subset.refl _) rfl
    hwritten (fun substream => ?_) rfl List.prefix_rfl ?_
    (hstate ▸ hl.sending_polled hold hsame hsent _) ?_
  · rw [polled_read, hconsume]
    by_cases heq : substream = inSubstream.substream
    · subst heq
      rw [Function.update_self]
      exact .inr ⟨hmine, hlt⟩
    · exact .inl (Function.update_of_ne heq ..)
  · rw [received_polled, if_neg side.other_ne]
  · rw [hstate]
    refine ⟨hmine, ?_⟩
    have hother := (hwritten inSubstream.substream).resolve_right fun h =>
      side.other_ne (hmine.2.symm.trans h.1.2)
    rw [received_polled, if_pos rfl, polled_read, polled_written, hother, hconsume,
      Function.update_self, List.take_add_one, hnext, htake]
    rfl

theorem nextMessage_of_streamAnswer {readout : Readout} {message : Bytes}
    (hread : l.streamAnswer side readout = .ready (some (some message))) :
    l.nextMessage side = some message := by
  cases readout with
  | message =>
      simp only [streamAnswer] at hread
      cases hnext : l.nextMessage side with
      | none =>
          rw [hnext] at hread
          exact absurd hread nofun
      | some next =>
          rw [hnext] at hread
          simpa using hread
  | pending => exact absurd hread nofun
  | error => exact absurd hread nofun
  | closed => exact absurd hread nofun

theorem Delivering.poll (hl : l.Delivering) (hdisciplined : l.Disciplined) {deadline : Bool}
    {sink : SinkAnswers} {readout : Readout}
    (hstep : l.step (.poll side deadline sink readout) = some l') : l'.Delivering := by
  have hsound := hdisciplined.sound side
  obtain ⟨h, sent, result, hpoll, hpolled⟩ := Handler.polled_of_poll
    hsound.ne_locked (l.streamAnswer side readout) deadline sink
  rw [step, hpoll] at hstep
  obtain rfl := Option.some.inj hstep
  cases hpolled with
  | queued hqueue =>
      refine hl.silent rfl ?_
      rintro message ⟨⟩
      refine hsound.quiet message ?_
      rw [Handler.pending_of_queued hqueue]
      exact List.mem_cons_self
  | idle hstate => exact hl.silent rfl nofun
  | deadline hqueue hstate => exact hl.silent rfl nofun
  | close hqueue hstate hsent => exact hl.closing hstate hsent rfl
  | wait hstate hsame hsent => exact hl.waiting hstate hsame hsent rfl
  | @message _ _ _ _ message hqueue hstate hsame hsent hread =>
      exact hl.reading hstate hsame hsent (nextMessage_of_streamAnswer hread) rfl

theorem Delivering.step (hl : l.Delivering) (hdisciplined : l.Disciplined) {event : LinkEvent}
    (hstep : l.step event = some l') : l'.Delivering := by
  cases event with
  | tell side event => exact hl.tell hstep
  | negotiate side => exact Option.some.inj hstep ▸ hl.negotiate
  | outbound side substream => exact hl.injectOutbound hstep
  | inbound side protocol => exact hl.injectInbound hstep
  | dialUpgradeError side upgrade => exact Option.some.inj hstep ▸ hl.keepState rfl
  | poll side deadline sink readout => exact hl.poll hdisciplined hstep

theorem Reach.delivering (hl : Reach l) : l.Delivering := by
  induction hl with
  | start => exact delivering_start
  | step hreach hstep ih => exact ih.step hreach.links_disciplined hstep

end Delivering

/-! An end has no more substreams than it was told to open with handshakes. -/

def substreams (s : Side) : List SubstreamId :=
  (List.range l.next).filter fun substream => l.owner substream = s

def Counted : Prop :=
  ∀ s, (l.handler s).requested.length + (l.requests s).length + (l.substreams s).length ≤
    (l.told s).length

section Counted

variable {l l' : Link} {side : Side} {h : Handler}

theorem counted_start : start.Counted := fun _ => le_rfl

theorem Counted.frame (hl : l.Counted) (hnext : l'.next = l.next) (howner : l'.owner = l.owner)
    (hhandler : l'.handler = Function.update l.handler side h)
    (hrequests : l'.requests side.other = l.requests side.other)
    (htold : l'.told side.other = l.told side.other)
    (hside : h.requested.length + (l'.requests side).length + (l.told side).length ≤
      (l.handler side).requested.length + (l.requests side).length + (l'.told side).length) :
    l'.Counted := by
  intro s
  have hs := hl s
  unfold substreams at hs ⊢
  rw [hnext, howner, hhandler]
  obtain rfl | rfl := s.eq_or_eq_other side
  · rw [Function.update_self]
    omega
  · rwa [Function.update_of_ne side.other_ne, hrequests, htold]

/-- A handler that asks for nothing. -/
theorem Counted.setHandler (hl : l.Counted)
    (hrequested : h.requested = (l.handler side).requested) : (l.setHandler side h).Counted :=
  hl.frame rfl rfl rfl rfl rfl (by simp [hrequested])

theorem Counted.tell (hl : l.Counted) {event : HandlerIn}
    (hstep : l.step (.tell side event) = some l') : l'.Counted := by
  obtain ⟨h, hinject, rfl⟩ := Option.map_eq_some_iff.1 hstep
  cases event with
  | opening handshake =>
      have hrequested := Handler.opening_requested hinject
      refine hl.frame rfl rfl rfl rfl (by simp [record]) ?_
      simp only [record, setHandler_requests, setHandler_told, Function.update_self,
        List.length_append, List.length_singleton]
      omega
  | close => exact hl.setHandler (Handler.close_requested hinject)
  | sendMessage message =>
      obtain rfl := Option.some.inj hinject
      have hrequested := Handler.sendMessage_requested (h := l.handler side) message
      unfold record
      split_ifs
      · exact hl.frame rfl rfl rfl rfl rfl (by simp [hrequested])
      · exact hl.setHandler hrequested

theorem Counted.negotiate (hl : l.Counted) : (l.negotiate side).Counted := by
  unfold Link.negotiate
  split
  · exact hl
  · rename_i handshake requests hrequests
    intro s
    have hs := hl s
    have howner (substream : SubstreamId) (hmem : substream ∈ List.range l.next) :
        decide (Function.update l.owner l.next side substream = s) =
          decide (l.owner substream = s) := by
      rw [Function.update_of_ne (List.mem_range.1 hmem).ne]
    simp only [substreams, List.range_succ, List.filter_append, List.filter_congr howner,
      List.length_append]
    unfold substreams at hs
    obtain rfl | rfl := s.eq_or_eq_other side
    · rw [hrequests] at hs
      simp only [Function.update_self, decide_true, List.filter_cons_of_pos, List.filter_nil,
        List.length_cons, List.length_nil] at hs ⊢
      omega
    · simpa using hs

theorem Counted.step (hl : l.Counted) (hdisciplined : l.Disciplined) {event : LinkEvent}
    (hstep : l.step event = some l') : l'.Counted := by
  cases event with
  | tell side event => exact hl.tell hstep
  | negotiate side => exact Option.some.inj hstep ▸ hl.negotiate
  | outbound side substream =>
      simp only [Link.step] at hstep
      split_ifs at hstep
      · obtain ⟨h, hinject, rfl⟩ := Option.map_eq_some_iff.1 hstep
        exact hl.setHandler (Handler.outbound_requested hinject)
      · exact Option.some.inj hstep ▸ hl
  | inbound side protocol =>
      simp only [Link.step] at hstep
      split_ifs at hstep
      · obtain ⟨h, hinject, rfl⟩ := Option.map_eq_some_iff.1 hstep
        exact hl.setHandler (Handler.inbound_requested hinject)
      · exact Option.some.inj hstep ▸ hl
  | dialUpgradeError side upgrade =>
      exact Option.some.inj hstep ▸ hl.setHandler (Handler.requested_push_custom ..)
  | poll side deadline sink readout =>
      obtain ⟨h, sent, result, hpoll, hpolled⟩ := Handler.polled_of_poll
        (hdisciplined.sound side).ne_locked (l.streamAnswer side readout) deadline sink
      rw [Link.step, hpoll] at hstep
      obtain rfl := Option.some.inj hstep
      have hrequested := congrArg List.length hpolled.requested_eq
      rw [List.length_append] at hrequested
      refine hl.frame rfl rfl rfl ?_ rfl ?_
      · exact Function.update_of_ne side.other_ne ..
      · simp only [polled, Function.update_self, List.length_append]
        omega

theorem Reach.counted (hl : Reach l) : l.Counted := by
  induction hl with
  | start => exact counted_start
  | step hreach hstep ih => exact ih.step hreach.links_disciplined hstep

/-- Told to open once, an end has one substream. -/
theorem Counted.eq_of_ownedBy {s : Side} (hl : l.Counted) (honce : (l.told s).length ≤ 1)
    {a b : SubstreamId} (ha : l.OwnedBy s a) (hb : l.OwnedBy s b) : a = b := by
  have hlength : (l.substreams s).length ≤ 1 := by
    have hs := hl s
    omega
  have hmem {substream : SubstreamId} (h : l.OwnedBy s substream) :
      substream ∈ l.substreams s := by
    simpa [substreams, OwnedBy] using h
  cases hsubstreams : l.substreams s with
  | nil => exact absurd (hmem ha) (hsubstreams ▸ List.not_mem_nil)
  | cons only rest =>
      obtain rfl : rest = [] := by simpa [hsubstreams] using hlength
      have hin {substream : SubstreamId} (h : l.OwnedBy s substream) : substream = only :=
        List.mem_singleton.1 (hsubstreams ▸ hmem h)
      rw [hin ha, hin hb]

end Counted

/-- What an end has received is what the other end has accepted from its network
protocol, in this order, up to some point. If that end was told to open once,
then while both are open the rest is on the substream or in the queue. -/
theorem received_prefix_of_reach {l : Link} (hl : Reach l) (s : Side) :
    l.received s <+: l.accepted s.other ∧
      ((l.told s.other).length ≤ 1 → ∀ inSubstream out inOther outSubstream,
        (l.handler s).state = .opened inSubstream out →
        (l.handler s.other).state = .opened inOther outSubstream →
        l.accepted s.other = l.received s ++
          (l.written inSubstream.substream).drop (l.read inSubstream.substream) ++
          outSubstream.sendQueue) := by
  refine ⟨(hl.delivering.receiving s).received_front hl.delivering.written, ?_⟩
  intro honce inSubstream out inOther outSubstream hs hother
  have hreceiving := hl.delivering.receiving s
  have hsending := hl.delivering.sending s.other
  rw [hs] at hreceiving
  rw [hother] at hsending
  have hsame := hl.counted.eq_of_ownedBy honce hreceiving.1 hsending.1
  rw [hreceiving.2, List.take_append_drop, hsending.2, hsame]

theorem Reach.run {l l' : Link} {events : List LinkEvent} (hl : Reach l)
    (hrun : l.run events = some l') : Reach l' := by
  induction events generalizing l with
  | nil => exact Option.some.inj hrun ▸ hl
  | cons event events ih =>
      obtain ⟨next, hstep, hrun⟩ := Option.bind_eq_some_iff.1 hrun
      exact ih (hl.step hstep) hrun

/-- Both ends are told to open, the dialer sends two messages and the listener
reads one of them. -/
def exchange : List LinkEvent :=
  let sink : SinkAnswers := ⟨.ready (.ok ()), none, .ready (.ok ())⟩
  [.tell .dialer (.opening [1]), .poll .dialer false sink .pending, .negotiate .dialer,
    .tell .listener (.opening [2]), .poll .listener false sink .pending, .negotiate .listener,
    .outbound .dialer 0, .inbound .listener ⟨0, some [1]⟩, .outbound .listener 1,
    .inbound .dialer ⟨1, some [2]⟩, .poll .dialer false sink .pending,
    .poll .listener false sink .pending, .tell .dialer (.sendMessage [7]),
    .tell .dialer (.sendMessage [8]), .poll .dialer false sink .pending,
    .poll .listener false sink .message]

def exchanged : Link := (start.run exchange).get (by decide)

theorem reach_exchanged : Reach exchanged :=
  Reach.start.run (Option.some_get _).symm

theorem session_of_reach_exchanged :
    exchanged.emitted .listener = [.protocolOpen [1], .message [7]] ∧
      Handler.Session [[1]] (Handler.signals [.protocolOpen [1], .message [7]]) :=
  ⟨by decide, ((session_of_reach reach_exchanged).2 .listener).1⟩

theorem received_prefix_exchanged :
    exchanged.received .listener = [[7]] ∧ exchanged.accepted .dialer = [[7], [8]] ∧
      (exchanged.accepted .dialer = exchanged.received .listener ++ [[8]] ++ []) :=
  ⟨by decide, by decide, (received_prefix_of_reach reach_exchanged .listener).2 (by decide)
    ⟨0, none⟩ ⟨1, []⟩ ⟨1, none⟩ ⟨0, []⟩ (by decide) (by decide)⟩

end Link

end Finastate.Network
