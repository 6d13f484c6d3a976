import Finastate.Network.Protocol

/-!
# The handler of a connection

It opens the node protocol on one connection, with a substream in each
direction: the one it asks for carries what it sends, the one the remote asks
for carries what it receives. Who asks for a substream sends a handshake first.
The handler is driven by what the network protocol tells it, by the substreams
that come up and by `poll`, whose events go back to the network protocol.

Sockets and timers belong to the network library. What they answer is an
argument, and a function is `none` where the source panics.
-/

namespace Finastate.Network

abbrev SubstreamId := Nat

/-- `InSubstream`. Its socket is known by the substream. -/
structure InSubstream where
  substream : SubstreamId
  receivedHandshake : Option Bytes
  deriving DecidableEq, Repr

structure OutSubstream where
  substream : SubstreamId
  sendQueue : List Bytes
  deriving DecidableEq, Repr

inductive Poll (α : Type)
  | pending
  | ready (a : α)
  deriving DecidableEq, Repr

/-- What the socket answers when messages are written: to `poll_ready`, to
`start_send` (the first message of the queue that it refuses, if any) and to
`poll_flush`. -/
structure SinkAnswers where
  ready : Poll (Except Unit Unit)
  refused : Option Nat
  flush : Poll (Except Unit Unit)

/-- What the socket answers when a message is read: `none` is an error. -/
abbrev StreamAnswer := Poll (Option (Option Bytes))

namespace OutSubstream

def sendMessage (out : OutSubstream) (message : Bytes) : OutSubstream :=
  { out with sendQueue := out.sendQueue ++ [message] }

/-- `poll_next`, with the messages that go to the socket. A message that the
socket refuses has left the queue. -/
def pollNext (out : OutSubstream) (sink : SinkAnswers) :
    OutSubstream × List Bytes × Poll (Option (Except Unit Unit)) :=
  if out.sendQueue = [] then (out, [], .ready (some (.ok ())))
  else
    match sink.ready with
    | .pending => (out, [], .pending)
    | .ready (.error e) => (out, [], .ready (some (.error e)))
    | .ready (.ok _) =>
        match sink.refused with
        | some n =>
            if n < out.sendQueue.length then
              ({ out with sendQueue := out.sendQueue.drop (n + 1) }, out.sendQueue.take n,
                .ready (some (.error ())))
            else flushed { out with sendQueue := [] } out.sendQueue
        | none => flushed { out with sendQueue := [] } out.sendQueue
where
  flushed (out : OutSubstream) (sent : List Bytes) :
      OutSubstream × List Bytes × Poll (Option (Except Unit Unit)) :=
    match sink.flush with
    | .pending => (out, sent, .pending)
    | .ready result => (out, sent, .ready (some result))

/-- What goes to the socket comes from the front of the queue, and without an error the rest
stays. -/
theorem pollNext_spec (out : OutSubstream) (sink : SinkAnswers) :
    ∃ out' sent result, out.pollNext sink = (out', sent, result) ∧
      out'.substream = out.substream ∧ sent <+: out.sendQueue ∧
      (sent ++ out'.sendQueue = out.sendQueue ∨ ∃ e, result = .ready (some (.error e))) := by
  have hflushed : ∃ out' sent result,
      pollNext.flushed sink { out with sendQueue := [] } out.sendQueue = (out', sent, result) ∧
      out'.substream = out.substream ∧ sent <+: out.sendQueue ∧
      (sent ++ out'.sendQueue = out.sendQueue ∨ ∃ e, result = .ready (some (.error e))) := by
    unfold pollNext.flushed
    split
    · exact ⟨_, _, _, rfl, rfl, List.prefix_rfl, .inl (List.append_nil _)⟩
    · exact ⟨_, _, _, rfl, rfl, List.prefix_rfl, .inl (List.append_nil _)⟩
  unfold pollNext
  split_ifs with hnil
  · exact ⟨_, _, _, rfl, rfl, List.nil_prefix, .inl rfl⟩
  · split
    · exact ⟨_, _, _, rfl, rfl, List.nil_prefix, .inl rfl⟩
    · exact ⟨_, _, _, rfl, rfl, List.nil_prefix, .inl rfl⟩
    · split
      · split_ifs with hlt
        · exact ⟨_, _, _, rfl, rfl, List.take_prefix .., .inr ⟨(), rfl⟩⟩
        · exact hflushed
      · exact hflushed

end OutSubstream

/-- `handler::State`, without the timer of `Opening`. -/
inductive HandlerState
  | init
  | opening (inSubstream : Option InSubstream) (outSubstream : Option OutSubstream)
  | opened (inSubstream : InSubstream) (outSubstream : OutSubstream)
  | closed
  | locked
  deriving DecidableEq, Repr

/-- `ProtocolsHandlerEvent`. -/
inductive HandlerEvent
  | outboundSubstreamRequest (handshake : Bytes)
  | custom (event : HandlerOut)
  deriving DecidableEq, Repr

structure Handler where
  state : HandlerState
  eventsQueue : List HandlerEvent
  deriving DecidableEq, Repr

namespace Handler

/-- `into_handler`. -/
def new : Handler := { state := .init, eventsQueue := [] }

def push (h : Handler) (event : HandlerEvent) : Handler :=
  { h with eventsQueue := h.eventsQueue ++ [event] }

def opening (h : Handler) (handshake : Bytes) : Option Handler :=
  match h.state with
  | .init =>
      some ({ h with state := .opening none none }.push (.outboundSubstreamRequest handshake))
  | .opening inSubstream outSubstream =>
      some ({ h with state := .opening inSubstream outSubstream }.push
        (.outboundSubstreamRequest handshake))
  | .opened inSubstream outSubstream =>
      some { h with state := .opened inSubstream outSubstream }
  | .closed => some { h with state := .closed }
  | .locked => none

def close (h : Handler) : Option Handler :=
  match h.state with
  | .init => some { h with state := .closed }
  | .opening _ _ => some { h with state := .closed }
  | .opened _ _ => some ({ h with state := .closed }.push (.custom .protocolClose))
  | .closed => some { h with state := .closed }
  | .locked => none

def sendMessage (h : Handler) (message : Bytes) : Handler :=
  match h.state with
  | .opened inSubstream outSubstream =>
      { h with state := .opened inSubstream (outSubstream.sendMessage message) }
  | _ => h.push (.custom (.protocolError false))

/-- Both substreams are there. The handshake can be taken once. -/
def openBoth (h : Handler) (inSubstream : InSubstream) (outSubstream : OutSubstream) :
    Option Handler :=
  match inSubstream.receivedHandshake with
  | none => none
  | some handshake =>
      some ({ h with
        state := .opened { inSubstream with receivedHandshake := none } outSubstream }.push
          (.custom (.protocolOpen handshake)))

def injectFullyNegotiatedInbound (h : Handler) (protocol : InSubstream) : Option Handler :=
  match h.state with
  | .init => some { h with state := .opening (some protocol) none }
  | .opening _ outSubstream =>
      match outSubstream with
      | some outSubstream => h.openBoth protocol outSubstream
      | none => some { h with state := .opening (some protocol) none }
  | .opened inSubstream outSubstream =>
      some { h with state := .opened inSubstream outSubstream }
  | .closed => some { h with state := .closed }
  | .locked => none

def injectFullyNegotiatedOutbound (h : Handler) (protocol : OutSubstream) : Option Handler :=
  match h.state with
  | .init => some { h with state := .opening none (some protocol) }
  | .opening inSubstream _ =>
      match inSubstream with
      | some inSubstream => h.openBoth inSubstream protocol
      | none => some { h with state := .opening none (some protocol) }
  | .opened inSubstream outSubstream =>
      some { h with state := .opened inSubstream outSubstream }
  | .closed => some { h with state := .closed }
  | .locked => none

def injectEvent (h : Handler) : HandlerIn → Option Handler
  | .opening handshake => h.opening handshake
  | .close => h.close
  | .sendMessage message => some (h.sendMessage message)

/-- `upgrade` is whether the error is one of the upgrade. -/
def injectDialUpgradeError (h : Handler) (upgrade : Bool) : Handler :=
  h.push (.custom (.protocolError upgrade))

/-- `poll`, with the messages that go to the socket. `deadline` is whether the
time to open is over. -/
def poll (h : Handler) (deadline : Bool) (sink : SinkAnswers) (stream : StreamAnswer) :
    Option (Handler × List Bytes × Poll HandlerEvent) :=
  match h.eventsQueue with
  | event :: eventsQueue => some ({ h with eventsQueue }, [], .ready event)
  | [] =>
      match h.state with
      | .init => some ({ h with state := .init }, [], .pending)
      | .opening inSubstream outSubstream =>
          let h := { h with state := .opening inSubstream outSubstream }
          if deadline then some (h, [], .ready (.custom (.protocolError true)))
          else some (h, [], .pending)
      | .opened inSubstream outSubstream =>
          let closed := { h with state := .closed }
          match outSubstream.pollNext sink with
          | (_, sent, .ready (some (.error _))) =>
              some (closed, sent, .ready (.custom .protocolClose))
          | (_, sent, .ready none) => some (closed, sent, .ready (.custom .protocolClose))
          | (outSubstream, sent, _) =>
              let h := { h with state := .opened inSubstream outSubstream }
              match stream with
              | .ready (some none) => some (closed, sent, .ready (.custom .protocolClose))
              | .ready none => some (closed, sent, .ready (.custom .protocolClose))
              | .pending => some (h, sent, .pending)
              | .ready (some (some message)) =>
                  some (h, sent, .ready (.custom (.message message)))
      | .closed => some ({ h with state := .closed }, [], .pending)
      | .locked => none


/-- What has been pushed and not polled yet. -/
def pending (h : Handler) : List HandlerOut :=
  h.eventsQueue.filterMap fun
    | .custom event => some event
    | .outboundSubstreamRequest _ => none

def requested (h : Handler) : List Bytes :=
  h.eventsQueue.filterMap fun
    | .custom _ => none
    | .outboundSubstreamRequest handshake => some handshake

/-- What a `poll` returns for the network protocol. -/
def polledEvents : Poll HandlerEvent → List HandlerOut
  | .ready (.custom event) => [event]
  | _ => []

/-- What a `poll` returns for the network library. -/
def polledRequests : Poll HandlerEvent → List Bytes
  | .ready (.outboundSubstreamRequest handshake) => [handshake]
  | _ => []

/-- The messages among the events for the network protocol. -/
def messages (events : List HandlerOut) : List Bytes :=
  events.filterMap fun
    | .message message => some message
    | _ => none

@[simp] theorem messages_append (a b : List HandlerOut) :
    messages (a ++ b) = messages a ++ messages b := List.filterMap_append

section Events

variable (h : Handler) (event : HandlerOut) (handshake : Bytes) (state : HandlerState)

@[simp] theorem push_state (event : HandlerEvent) : (h.push event).state = h.state := rfl

@[simp] theorem pending_push_custom : (h.push (.custom event)).pending = h.pending ++ [event] := by
  simp [pending, push]

@[simp] theorem pending_push_request :
    (h.push (.outboundSubstreamRequest handshake)).pending = h.pending := by
  simp [pending, push]

@[simp] theorem requested_push_custom : (h.push (.custom event)).requested = h.requested := by
  simp [requested, push]

@[simp] theorem requested_push_request :
    (h.push (.outboundSubstreamRequest handshake)).requested = h.requested ++ [handshake] := by
  simp [requested, push]

@[simp] theorem pending_setState : { h with state }.pending = h.pending := rfl

@[simp] theorem requested_setState : { h with state }.requested = h.requested := rfl

end Events

/-! What the network protocol sees of a handler: errors at any time, and apart
from them one opening, messages, and at most one close that ends it. -/

def signals (events : List HandlerOut) : List HandlerOut :=
  events.filter fun
    | .protocolError _ => false
    | _ => true

@[simp] theorem signals_nil : signals [] = [] := rfl

@[simp] theorem signals_append (a b : List HandlerOut) :
    signals (a ++ b) = signals a ++ signals b := List.filter_append ..

@[simp] theorem signals_error (b : Bool) : signals [.protocolError b] = [] := rfl

@[simp] theorem signals_open (handshake : Bytes) :
    signals [.protocolOpen handshake] = [.protocolOpen handshake] := rfl

@[simp] theorem signals_close : signals [.protocolClose] = [.protocolClose] := rfl

@[simp] theorem signals_message (message : Bytes) :
    signals [.message message] = [.message message] := rfl

/-- `told` are the handshakes that the remote may have sent. -/
def Opening (told : List Bytes) (messages : List Bytes) (seen : List HandlerOut) : Prop :=
  ∃ handshake ∈ told, seen = .protocolOpen handshake :: messages.map .message

def Session (told : List Bytes) (seen : List HandlerOut) : Prop :=
  seen = [] ∨ ∃ messages opened, Opening told messages opened ∧
    seen <+: opened ++ [.protocolClose]

/-- A session that is over, or one that there never was. -/
def Ended (told : List Bytes) (seen : List HandlerOut) : Prop :=
  seen = [] ∨ ∃ messages opened, Opening told messages opened ∧ seen = opened ++ [.protocolClose]

/-- What has been seen of a handler in a state. -/
def Orderly (told : List Bytes) (seen : List HandlerOut) : HandlerState → Prop
  | .init => seen = []
  | .opening inSubstream _ =>
      seen = [] ∧ ∀ protocol ∈ inSubstream, ∃ handshake ∈ told,
        protocol.receivedHandshake = some handshake
  | .opened _ _ => ∃ messages, Opening told messages seen
  | .closed => Ended told seen
  | .locked => False

/-- `own` are the handshakes that the handler was told to open with. -/
structure Sound (told own : List Bytes) (emitted : List HandlerOut) (h : Handler) : Prop where
  orderly : Orderly told (signals (emitted ++ h.pending)) h.state
  quiet : ∀ message, .message message ∉ h.pending
  asked : ∀ handshake ∈ h.requested, handshake ∈ own

section Sound

variable {told own : List Bytes} {emitted : List HandlerOut} {h h' : Handler}

theorem Opening.push {messages : List Bytes} {seen : List HandlerOut}
    (h : Opening told messages seen) (message : Bytes) :
    Opening told (messages ++ [message]) (seen ++ [.message message]) := by
  obtain ⟨handshake, hmem, rfl⟩ := h
  exact ⟨handshake, hmem, by simp⟩

theorem Opening.mono {told' messages : List Bytes} {seen : List HandlerOut}
    (h : Opening told messages seen) (hsub : told ⊆ told') : Opening told' messages seen := by
  obtain ⟨handshake, hmem, rfl⟩ := h
  exact ⟨handshake, hsub hmem, rfl⟩

theorem Ended.mono {told' : List Bytes} {seen : List HandlerOut} (h : Ended told seen)
    (hsub : told ⊆ told') : Ended told' seen := by
  obtain rfl | ⟨messages, opened, hopen, heq⟩ := h
  · exact .inl rfl
  · exact .inr ⟨messages, opened, hopen.mono hsub, heq⟩

theorem Ended.session {seen : List HandlerOut} (h : Ended told seen) : Session told seen := by
  obtain rfl | ⟨messages, opened, hopen, rfl⟩ := h
  · exact .inl rfl
  · exact .inr ⟨messages, opened, hopen, List.prefix_rfl⟩

/-- What has been seen before is a session too. -/
theorem Session.of_front {seen seen' : List HandlerOut} (h : Session told seen)
    (hfront : seen' <+: seen) : Session told seen' := by
  obtain rfl | ⟨messages, opened, hopen, hseen⟩ := h
  · exact .inl (List.prefix_nil.1 hfront)
  · exact .inr ⟨messages, opened, hopen, hfront.trans hseen⟩

theorem Orderly.mono {told' : List Bytes} {seen : List HandlerOut} {state : HandlerState}
    (h : Orderly told seen state) (hsub : told ⊆ told') : Orderly told' seen state := by
  cases state with
  | init => exact h
  | opening inSubstream outSubstream =>
      refine ⟨h.1, fun protocol hmem => ?_⟩
      obtain ⟨handshake, htold, heq⟩ := h.2 protocol hmem
      exact ⟨handshake, hsub htold, heq⟩
  | opened inSubstream outSubstream =>
      obtain ⟨messages, hopen⟩ := h
      exact ⟨messages, hopen.mono hsub⟩
  | closed => exact Ended.mono h hsub
  | locked => exact h

/-- In any state it is a session, up to some point. -/
theorem Orderly.session {seen : List HandlerOut} {state : HandlerState}
    (h : Orderly told seen state) : Session told seen := by
  cases state with
  | init => exact .inl h
  | opening inSubstream outSubstream => exact .inl h.1
  | opened inSubstream outSubstream =>
      obtain ⟨messages, hopen⟩ := h
      exact .inr ⟨messages, seen, hopen, List.prefix_append ..⟩
  | closed => exact Ended.session h
  | locked => exact h.elim

/-- A handler may close in any state, and says so if it was open. -/
theorem Orderly.close {seen : List HandlerOut} {inSubstream : InSubstream}
    {outSubstream : OutSubstream} (h : Orderly told seen (.opened inSubstream outSubstream)) :
    Orderly told (seen ++ [.protocolClose]) .closed := by
  obtain ⟨messages, hopen⟩ := h
  exact .inr ⟨messages, seen, hopen, rfl⟩

theorem Sound.mono {told' own' : List Bytes} (h0 : Sound told own emitted h)
    (htold : told ⊆ told') (hown : own ⊆ own') : Sound told' own' emitted h where
  orderly := h0.orderly.mono htold
  quiet := h0.quiet
  asked handshake hmem := hown (h0.asked handshake hmem)

/-- The state changes and nothing is pushed. -/
theorem Sound.setState (h0 : Sound told own emitted h) (state : HandlerState)
    (horderly : Orderly told (signals (emitted ++ h.pending)) state) :
    Sound told own emitted { h with state } where
  orderly := horderly
  quiet := h0.quiet
  asked := h0.asked

/-- The state changes and an event is pushed. -/
theorem Sound.setStatePush (h0 : Sound told own emitted h) (state : HandlerState)
    {event : HandlerOut}
    (horderly : Orderly told (signals (emitted ++ h.pending) ++ signals [event]) state)
    (hquiet : ∀ message, event ≠ .message message) :
    Sound told own emitted ({ h with state }.push (.custom event)) where
  orderly := by
    simpa only [pending_push_custom, pending_setState, push_state, ← List.append_assoc,
      signals_append] using horderly
  quiet message hmem := by
    rw [pending_push_custom, pending_setState, List.mem_append, List.mem_singleton] at hmem
    exact hmem.elim (h0.quiet message) fun heq => hquiet message heq.symm
  asked handshake hmem := by
    rw [requested_push_custom, requested_setState] at hmem
    exact h0.asked handshake hmem

theorem Sound.pushError (h0 : Sound told own emitted h) (b : Bool) :
    Sound told own emitted (h.push (.custom (.protocolError b))) :=
  h0.setStatePush h.state
    (by simpa only [signals_error, List.append_nil] using h0.orderly) nofun

theorem Sound.request (h0 : Sound told own emitted h) (state : HandlerState) {handshake : Bytes}
    (horderly : Orderly told (signals (emitted ++ h.pending)) state) (hown : handshake ∈ own) :
    Sound told own emitted ({ h with state }.push (.outboundSubstreamRequest handshake)) where
  orderly := by
    rw [pending_push_request]
    exact horderly
  quiet message hmem := by
    rw [pending_push_request] at hmem
    exact h0.quiet message hmem
  asked other hmem := by
    rw [requested_push_request, requested_setState, List.mem_append, List.mem_singleton] at hmem
    exact hmem.elim (h0.asked other) fun heq => heq ▸ hown

theorem Sound.new : Sound told own [] Handler.new where
  orderly := rfl
  quiet _ := List.not_mem_nil
  asked _ hmem := absurd hmem List.not_mem_nil

theorem Sound.opening (h0 : Sound told own emitted h) {handshake : Bytes}
    (hown : handshake ∈ own) :
    ∃ h', h.opening handshake = some h' ∧ Sound told own emitted h' := by
  have horderly := h0.orderly
  unfold Handler.opening
  cases hs : h.state with
  | init =>
      rw [hs] at horderly
      exact ⟨_, rfl, h0.request _ ⟨horderly, nofun⟩ hown⟩
  | opening inSubstream outSubstream =>
      rw [hs] at horderly
      exact ⟨_, rfl, h0.request _ horderly hown⟩
  | opened inSubstream outSubstream =>
      rw [hs] at horderly
      exact ⟨_, rfl, h0.setState _ horderly⟩
  | closed =>
      rw [hs] at horderly
      exact ⟨_, rfl, h0.setState _ horderly⟩
  | locked =>
      rw [hs] at horderly
      exact horderly.elim

theorem Sound.close (h0 : Sound told own emitted h) :
    ∃ h', h.close = some h' ∧ Sound told own emitted h' := by
  have horderly := h0.orderly
  unfold Handler.close
  cases hs : h.state with
  | init =>
      rw [hs] at horderly
      exact ⟨_, rfl, h0.setState _ (.inl horderly)⟩
  | opening inSubstream outSubstream =>
      rw [hs] at horderly
      exact ⟨_, rfl, h0.setState _ (.inl horderly.1)⟩
  | opened inSubstream outSubstream =>
      rw [hs] at horderly
      exact ⟨_, rfl, h0.setStatePush _ horderly.close nofun⟩
  | closed =>
      rw [hs] at horderly
      exact ⟨_, rfl, h0.setState _ horderly⟩
  | locked =>
      rw [hs] at horderly
      exact horderly.elim

theorem Sound.sendMessage (h0 : Sound told own emitted h) (message : Bytes) :
    Sound told own emitted (h.sendMessage message) := by
  have horderly := h0.orderly
  unfold Handler.sendMessage
  split
  · rename_i inSubstream outSubstream hs
    rw [hs] at horderly
    exact h0.setState _ horderly
  · exact h0.pushError false

/-- The handshake of an in-substream is there when both substreams are. -/
theorem Sound.openBoth (h0 : Sound told own emitted h) {protocol : InSubstream}
    (outSubstream : OutSubstream) (hseen : signals (emitted ++ h.pending) = [])
    {handshake : Bytes} (htold : handshake ∈ told)
    (hreceived : protocol.receivedHandshake = some handshake) :
    ∃ h', h.openBoth protocol outSubstream = some h' ∧ Sound told own emitted h' := by
  simp only [Handler.openBoth, hreceived]
  refine ⟨_, rfl, h0.setStatePush _ ⟨[], handshake, htold, ?_⟩ nofun⟩
  rw [hseen]
  rfl

theorem Sound.inbound (h0 : Sound told own emitted h) {protocol : InSubstream}
    {handshake : Bytes} (htold : handshake ∈ told)
    (hreceived : protocol.receivedHandshake = some handshake) :
    ∃ h', h.injectFullyNegotiatedInbound protocol = some h' ∧ Sound told own emitted h' := by
  have horderly := h0.orderly
  have hsome : ∀ other ∈ some protocol, ∃ handshake ∈ told,
      other.receivedHandshake = some handshake := fun other hmem =>
    Option.some.inj hmem ▸ ⟨handshake, htold, hreceived⟩
  unfold Handler.injectFullyNegotiatedInbound
  cases hs : h.state with
  | init =>
      rw [hs] at horderly
      exact ⟨_, rfl, h0.setState _ ⟨horderly, hsome⟩⟩
  | opening inSubstream outSubstream =>
      rw [hs] at horderly
      cases outSubstream with
      | none => exact ⟨_, rfl, h0.setState _ ⟨horderly.1, hsome⟩⟩
      | some outSubstream => exact h0.openBoth outSubstream horderly.1 htold hreceived
  | opened inSubstream outSubstream =>
      rw [hs] at horderly
      exact ⟨_, rfl, h0.setState _ horderly⟩
  | closed =>
      rw [hs] at horderly
      exact ⟨_, rfl, h0.setState _ horderly⟩
  | locked =>
      rw [hs] at horderly
      exact horderly.elim

theorem Sound.outbound (h0 : Sound told own emitted h) (protocol : OutSubstream) :
    ∃ h', h.injectFullyNegotiatedOutbound protocol = some h' ∧ Sound told own emitted h' := by
  have horderly := h0.orderly
  unfold Handler.injectFullyNegotiatedOutbound
  cases hs : h.state with
  | init =>
      rw [hs] at horderly
      exact ⟨_, rfl, h0.setState _ ⟨horderly, nofun⟩⟩
  | opening inSubstream outSubstream =>
      rw [hs] at horderly
      cases inSubstream with
      | none => exact ⟨_, rfl, h0.setState _ ⟨horderly.1, nofun⟩⟩
      | some inSubstream =>
          obtain ⟨handshake, htold, hreceived⟩ := horderly.2 inSubstream rfl
          exact h0.openBoth protocol horderly.1 htold hreceived
  | opened inSubstream outSubstream =>
      rw [hs] at horderly
      exact ⟨_, rfl, h0.setState _ horderly⟩
  | closed =>
      rw [hs] at horderly
      exact ⟨_, rfl, h0.setState _ horderly⟩
  | locked =>
      rw [hs] at horderly
      exact horderly.elim

theorem Sound.injectEvent (h0 : Sound told own emitted h) {event : HandlerIn}
    (hown : ∀ handshake, event = .opening handshake → handshake ∈ own) :
    ∃ h', h.injectEvent event = some h' ∧ Sound told own emitted h' := by
  cases event with
  | opening handshake => exact h0.opening (hown handshake rfl)
  | close => exact h0.close
  | sendMessage message => exact ⟨_, rfl, h0.sendMessage message⟩

/-- What `poll` can do. -/
inductive Polled (h : Handler) (stream : StreamAnswer) :
    Handler → List Bytes → Poll HandlerEvent → Prop
  | queued {event : HandlerEvent} {eventsQueue : List HandlerEvent}
      (hqueue : h.eventsQueue = event :: eventsQueue) :
      Polled h stream { h with eventsQueue } [] (.ready event)
  | idle (hstate : ∀ inSubstream outSubstream, h.state ≠ .opened inSubstream outSubstream) :
      Polled h stream h [] .pending
  | deadline (hqueue : h.eventsQueue = [])
      (hstate : ∀ inSubstream outSubstream, h.state ≠ .opened inSubstream outSubstream) :
      Polled h stream h [] (.ready (.custom (.protocolError true)))
  | close {inSubstream : InSubstream} {outSubstream : OutSubstream} {sent : List Bytes}
      (hqueue : h.eventsQueue = []) (hstate : h.state = .opened inSubstream outSubstream)
      (hsent : sent <+: outSubstream.sendQueue) :
      Polled h stream { h with state := .closed } sent (.ready (.custom .protocolClose))
  | wait {inSubstream : InSubstream} {outSubstream rest : OutSubstream} {sent : List Bytes}
      (hstate : h.state = .opened inSubstream outSubstream)
      (hsame : rest.substream = outSubstream.substream)
      (hsent : sent ++ rest.sendQueue = outSubstream.sendQueue) :
      Polled h stream { h with state := .opened inSubstream rest } sent .pending
  | message {inSubstream : InSubstream} {outSubstream rest : OutSubstream} {sent : List Bytes}
      {message : Bytes} (hqueue : h.eventsQueue = [])
      (hstate : h.state = .opened inSubstream outSubstream)
      (hsame : rest.substream = outSubstream.substream)
      (hsent : sent ++ rest.sendQueue = outSubstream.sendQueue)
      (hread : stream = .ready (some (some message))) :
      Polled h stream { h with state := .opened inSubstream rest } sent
        (.ready (.custom (.message message)))

theorem polled_of_opened {stream : StreamAnswer} {inSubstream : InSubstream}
    {outSubstream : OutSubstream} (hqueue : h.eventsQueue = [])
    (hstate : h.state = .opened inSubstream outSubstream) (deadline : Bool)
    (sink : SinkAnswers) :
    ∃ h' sent result, h.poll deadline sink stream = some (h', sent, result) ∧
      Polled h stream h' sent result := by
  obtain ⟨state, eventsQueue⟩ := h
  obtain rfl : eventsQueue = [] := hqueue
  obtain rfl : state = .opened inSubstream outSubstream := hstate
  obtain ⟨rest, sent, answer, hnext, hsame, hfront, hall⟩ :=
    outSubstream.pollNext_spec sink
  simp only [Handler.poll, hnext]
  split
  · rename_i hanswer
    obtain ⟨-, rfl, -⟩ := hanswer
    exact ⟨_, _, _, rfl, .close rfl rfl hfront⟩
  · rename_i hanswer
    obtain ⟨-, rfl, -⟩ := hanswer
    exact ⟨_, _, _, rfl, .close rfl rfl hfront⟩
  · rename_i herror _ hanswer
    obtain ⟨rfl, rfl, rfl⟩ := hanswer
    have hsent : sent ++ rest.sendQueue = outSubstream.sendQueue := by
      refine hall.resolve_right ?_
      rintro ⟨e, rfl⟩
      exact herror _ rfl
    split
    · exact ⟨_, _, _, rfl, .close rfl rfl hfront⟩
    · exact ⟨_, _, _, rfl, .close rfl rfl hfront⟩
    · exact ⟨_, _, _, rfl, .wait rfl hsame hsent⟩
    · exact ⟨_, _, _, rfl, .message rfl rfl hsame hsent rfl⟩

theorem polled_of_poll (hlocked : h.state ≠ .locked) (stream : StreamAnswer) (deadline : Bool)
    (sink : SinkAnswers) :
    ∃ h' sent result, h.poll deadline sink stream = some (h', sent, result) ∧
      Polled h stream h' sent result := by
  obtain ⟨state, eventsQueue⟩ := h
  cases eventsQueue with
  | cons event eventsQueue => exact ⟨_, _, _, rfl, .queued rfl⟩
  | nil =>
      cases state with
      | init => exact ⟨_, _, _, rfl, .idle nofun⟩
      | opening inSubstream outSubstream =>
          cases deadline with
          | true => exact ⟨_, _, _, rfl, .deadline rfl nofun⟩
          | false => exact ⟨_, _, _, rfl, .idle nofun⟩
      | opened inSubstream outSubstream => exact polled_of_opened rfl rfl deadline sink
      | closed => exact ⟨_, _, _, rfl, .idle nofun⟩
      | locked => exact absurd rfl hlocked

theorem pending_of_queued {event : HandlerEvent} {eventsQueue : List HandlerEvent}
    (hqueue : h.eventsQueue = event :: eventsQueue) :
    h.pending = polledEvents (.ready event) ++ { h with eventsQueue }.pending := by
  unfold Handler.pending
  rw [hqueue]
  cases event with
  | outboundSubstreamRequest handshake => rfl
  | custom event => rfl

theorem pending_of_nil (hqueue : h.eventsQueue = []) : h.pending = [] := by
  rw [Handler.pending, hqueue, List.filterMap_nil]

/-- An event that comes straight from `poll`, past an empty queue. -/
theorem Sound.direct (h0 : Sound told own emitted h) (hqueue : h.eventsQueue = [])
    (state : HandlerState) {event : HandlerOut}
    (horderly : Orderly told (signals emitted ++ signals [event]) state) :
    Sound told own (emitted ++ [event]) { h with state } where
  orderly := by
    rw [pending_setState, pending_of_nil hqueue, List.append_nil, signals_append]
    exact horderly
  quiet := h0.quiet
  asked := h0.asked

theorem Sound.orderly_of_nil (h0 : Sound told own emitted h) (hqueue : h.eventsQueue = []) :
    Orderly told (signals emitted) h.state := by
  have horderly := h0.orderly
  rwa [pending_of_nil hqueue, List.append_nil] at horderly

theorem Sound.polled {stream : StreamAnswer} {sent : List Bytes} {result : Poll HandlerEvent}
    (h0 : Sound told own emitted h) (hpoll : Polled h stream h' sent result) :
    Sound told own (emitted ++ polledEvents result) h' := by
  cases hpoll with
  | @queued event eventsQueue hqueue =>
      refine ⟨?_, fun message hmem => h0.quiet message ?_, fun handshake hmem =>
        h0.asked handshake ?_⟩
      · rw [List.append_assoc, ← pending_of_queued hqueue]
        exact h0.orderly
      · rw [pending_of_queued hqueue]
        exact List.mem_append_right _ hmem
      · unfold Handler.requested at hmem ⊢
        rw [hqueue]
        exact (List.Sublist.filterMap _ (List.sublist_cons_self ..)).subset hmem
  | idle hstate => simpa only [polledEvents, List.append_nil] using h0
  | deadline hqueue hstate =>
      refine h0.direct hqueue h.state ?_
      simpa only [signals_error, List.append_nil] using h0.orderly_of_nil hqueue
  | close hqueue hstate hsent =>
      exact h0.direct hqueue _ (hstate ▸ h0.orderly_of_nil hqueue).close
  | wait hstate hsame hsent =>
      simp only [polledEvents, List.append_nil]
      have horderly := h0.orderly
      rw [hstate] at horderly
      exact h0.setState _ horderly
  | message hqueue hstate hsame hsent hread =>
      refine h0.direct hqueue _ ?_
      obtain ⟨messages, hopen⟩ := hstate ▸ h0.orderly_of_nil hqueue
      exact ⟨_, hopen.push _⟩

theorem Sound.asked_of_polled {stream : StreamAnswer} {sent : List Bytes}
    {result : Poll HandlerEvent} (h0 : Sound told own emitted h)
    (hpoll : Polled h stream h' sent result) : polledRequests result ⊆ own := by
  cases hpoll with
  | @queued event eventsQueue hqueue =>
      cases event with
      | custom event => exact List.nil_subset _
      | outboundSubstreamRequest handshake =>
          rintro other hmem
          obtain rfl := List.mem_singleton.1 hmem
          refine h0.asked other ?_
          rw [Handler.requested, hqueue]
          exact List.mem_cons_self
  | idle hstate => exact List.nil_subset _
  | deadline hqueue hstate => exact List.nil_subset _
  | close hqueue hstate hsent => exact List.nil_subset _
  | wait hstate hsame hsent => exact List.nil_subset _
  | message hqueue hstate hsame hsent hread => exact List.nil_subset _

theorem Sound.ne_locked (h0 : Sound told own emitted h) : h.state ≠ .locked := by
  intro hstate
  have horderly := h0.orderly
  rw [hstate] at horderly
  exact horderly

theorem Sound.ended (h0 : Sound told own emitted h) (hclosed : h.state = .closed) :
    Ended told (signals (emitted ++ h.pending)) := by
  have horderly := h0.orderly
  rwa [hclosed] at horderly

theorem Sound.session (h0 : Sound told own emitted h) : Session told (signals emitted) :=
  h0.orderly.session.of_front (by simp)

end Sound

/-! What becomes of the state. -/

section State

variable {h h' : Handler}

theorem opening_state {handshake : Bytes} (hopening : h.opening handshake = some h') :
    h'.state = h.state ∨ h.state = .init ∧ h'.state = .opening none none := by
  unfold opening at hopening
  cases hstate : h.state with
  | init =>
      obtain rfl := Option.some.inj (hstate ▸ hopening)
      exact .inr ⟨rfl, rfl⟩
  | opening inSubstream outSubstream =>
      obtain rfl := Option.some.inj (hstate ▸ hopening)
      exact .inl rfl
  | opened inSubstream outSubstream =>
      obtain rfl := Option.some.inj (hstate ▸ hopening)
      exact .inl rfl
  | closed =>
      obtain rfl := Option.some.inj (hstate ▸ hopening)
      exact .inl rfl
  | locked => exact absurd (hstate ▸ hopening) nofun

theorem close_state (hclose : h.close = some h') : h'.state = .closed := by
  unfold close at hclose
  cases hstate : h.state with
  | locked => exact absurd (hstate ▸ hclose) nofun
  | init => exact Option.some.inj (hstate ▸ hclose) ▸ rfl
  | opening inSubstream outSubstream => exact Option.some.inj (hstate ▸ hclose) ▸ rfl
  | opened inSubstream outSubstream => exact Option.some.inj (hstate ▸ hclose) ▸ rfl
  | closed => exact Option.some.inj (hstate ▸ hclose) ▸ rfl

theorem openBoth_state {protocol : InSubstream} {outSubstream : OutSubstream}
    (hopen : h.openBoth protocol outSubstream = some h') :
    h'.state = .opened { protocol with receivedHandshake := none } outSubstream := by
  unfold openBoth at hopen
  split at hopen
  · exact absurd hopen nofun
  · exact Option.some.inj hopen ▸ rfl

theorem inbound_state {protocol : InSubstream}
    (hinbound : h.injectFullyNegotiatedInbound protocol = some h') :
    h'.state = h.state ∨
      (h.state = .init ∨ ∃ inSubstream, h.state = .opening inSubstream none) ∧
        h'.state = .opening (some protocol) none ∨
      ∃ inSubstream outSubstream, h.state = .opening inSubstream (some outSubstream) ∧
        h'.state = .opened { protocol with receivedHandshake := none } outSubstream := by
  unfold injectFullyNegotiatedInbound at hinbound
  cases hstate : h.state with
  | init =>
      obtain rfl := Option.some.inj (hstate ▸ hinbound)
      exact .inr (.inl ⟨.inl rfl, rfl⟩)
  | opening inSubstream outSubstream =>
      rw [hstate] at hinbound
      cases outSubstream with
      | none =>
          obtain rfl := Option.some.inj hinbound
          exact .inr (.inl ⟨.inr ⟨inSubstream, rfl⟩, rfl⟩)
      | some outSubstream =>
          exact .inr (.inr ⟨inSubstream, outSubstream, rfl, openBoth_state hinbound⟩)
  | opened inSubstream outSubstream =>
      obtain rfl := Option.some.inj (hstate ▸ hinbound)
      exact .inl rfl
  | closed =>
      obtain rfl := Option.some.inj (hstate ▸ hinbound)
      exact .inl rfl
  | locked => exact absurd (hstate ▸ hinbound) nofun

theorem outbound_state {protocol : OutSubstream}
    (houtbound : h.injectFullyNegotiatedOutbound protocol = some h') :
    h'.state = h.state ∨
      (h.state = .init ∨ ∃ outSubstream, h.state = .opening none outSubstream) ∧
        h'.state = .opening none (some protocol) ∨
      ∃ inSubstream outSubstream, h.state = .opening (some inSubstream) outSubstream ∧
        h'.state = .opened { inSubstream with receivedHandshake := none } protocol := by
  unfold injectFullyNegotiatedOutbound at houtbound
  cases hstate : h.state with
  | init =>
      obtain rfl := Option.some.inj (hstate ▸ houtbound)
      exact .inr (.inl ⟨.inl rfl, rfl⟩)
  | opening inSubstream outSubstream =>
      rw [hstate] at houtbound
      cases inSubstream with
      | none =>
          obtain rfl := Option.some.inj houtbound
          exact .inr (.inl ⟨.inr ⟨outSubstream, rfl⟩, rfl⟩)
      | some inSubstream =>
          exact .inr (.inr ⟨inSubstream, outSubstream, rfl, openBoth_state houtbound⟩)
  | opened inSubstream outSubstream =>
      obtain rfl := Option.some.inj (hstate ▸ houtbound)
      exact .inl rfl
  | closed =>
      obtain rfl := Option.some.inj (hstate ▸ houtbound)
      exact .inl rfl
  | locked => exact absurd (hstate ▸ houtbound) nofun

/-- Only an opening asks for a substream. -/
theorem opening_requested {handshake : Bytes} (hopening : h.opening handshake = some h') :
    h'.requested.length ≤ h.requested.length + 1 := by
  unfold opening at hopening
  cases hstate : h.state with
  | init =>
      obtain rfl := Option.some.inj (hstate ▸ hopening)
      simp
  | opening inSubstream outSubstream =>
      obtain rfl := Option.some.inj (hstate ▸ hopening)
      simp
  | opened inSubstream outSubstream =>
      obtain rfl := Option.some.inj (hstate ▸ hopening)
      simp
  | closed =>
      obtain rfl := Option.some.inj (hstate ▸ hopening)
      simp
  | locked => exact absurd (hstate ▸ hopening) nofun

theorem close_requested (hclose : h.close = some h') : h'.requested = h.requested := by
  unfold close at hclose
  cases hstate : h.state with
  | locked => exact absurd (hstate ▸ hclose) nofun
  | init => exact Option.some.inj (hstate ▸ hclose) ▸ rfl
  | opening inSubstream outSubstream => exact Option.some.inj (hstate ▸ hclose) ▸ rfl
  | opened inSubstream outSubstream =>
      exact Option.some.inj (hstate ▸ hclose) ▸ requested_push_custom ..
  | closed => exact Option.some.inj (hstate ▸ hclose) ▸ rfl

theorem sendMessage_requested (message : Bytes) :
    (h.sendMessage message).requested = h.requested := by
  unfold sendMessage
  split
  · rfl
  · exact requested_push_custom ..

theorem openBoth_requested {protocol : InSubstream} {outSubstream : OutSubstream}
    (hopen : h.openBoth protocol outSubstream = some h') : h'.requested = h.requested := by
  unfold openBoth at hopen
  split at hopen
  · exact absurd hopen nofun
  · exact Option.some.inj hopen ▸ requested_push_custom ..

theorem inbound_requested {protocol : InSubstream}
    (hinbound : h.injectFullyNegotiatedInbound protocol = some h') :
    h'.requested = h.requested := by
  unfold injectFullyNegotiatedInbound at hinbound
  split at hinbound
  · exact Option.some.inj hinbound ▸ rfl
  · split at hinbound
    · exact openBoth_requested hinbound
    · exact Option.some.inj hinbound ▸ rfl
  · exact Option.some.inj hinbound ▸ rfl
  · exact Option.some.inj hinbound ▸ rfl
  · exact absurd hinbound nofun

theorem outbound_requested {protocol : OutSubstream}
    (houtbound : h.injectFullyNegotiatedOutbound protocol = some h') :
    h'.requested = h.requested := by
  unfold injectFullyNegotiatedOutbound at houtbound
  split at houtbound
  · exact Option.some.inj houtbound ▸ rfl
  · split at houtbound
    · exact openBoth_requested houtbound
    · exact Option.some.inj houtbound ▸ rfl
  · exact Option.some.inj houtbound ▸ rfl
  · exact Option.some.inj houtbound ▸ rfl
  · exact absurd houtbound nofun

theorem Polled.requested_eq {stream : StreamAnswer} {sent : List Bytes}
    {result : Poll HandlerEvent} (hpolled : Polled h stream h' sent result) :
    h.requested = polledRequests result ++ h'.requested := by
  cases hpolled with
  | @queued event eventsQueue hqueue =>
      unfold Handler.requested
      rw [hqueue]
      cases event with
      | outboundSubstreamRequest handshake => rfl
      | custom event => rfl
  | idle hstate => rfl
  | deadline hqueue hstate => rfl
  | close hqueue hstate hsent => rfl
  | wait hstate hsame hsent => rfl
  | message hqueue hstate hsame hsent hread => rfl

end State

end Handler

end Finastate.Network
