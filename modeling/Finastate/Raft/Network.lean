import Mathlib.Data.Finset.Card
import Finastate.Raft.Votes

/-!
# A network of Raft nodes

The nodes of a network with one authority set. What a node sends stays in
`sent` and may be delivered any number of times, in any order or never. A
packet has the start of the node that it is or answers a request of (`epoch`),
so that a run can leave out the replies that come after a restart. A node also
learns blocks that another node has, and it may stop between any two writes;
a restart is a stop after which nothing is missing.

`Reach` are the runs of the handlers. `Trail` are the same runs in steps of
single acts, so that an invariant of the network is proved once for each act.
-/

namespace Finastate.Raft

/-- A reply has the id of a request of the node it is sent to. -/
def RaftMessage.isReply : RaftMessage → Bool
  | .registerValidatorRes _ => true
  | .appendEntriesRes _ => true
  | .requestVoteRes _ => true
  | .requestProposalRes _ => true
  | _ => false

structure Packet where
  source : Address
  target : PeerId
  message : RaftMessage
  epoch : Nat
  deriving DecidableEq, Repr

/-- One authority set for all blocks, and the nodes with their keys and peer
ids. -/
structure Network where
  support : Support
  authorities : List Address
  nodup : authorities.Nodup
  fixed : ∀ chain, support.getAuthorities chain = authorities
  members : List Address
  key : Address → SecretKey
  own : ∀ a ∈ members, support.basic.address (support.basic.publicKey (key a)) = a
  peerId : Address → PeerId
  peerId_injective : ∀ a ∈ members, ∀ b ∈ members, peerId a = peerId b → a = b

/-- The nodes, how often each of them has been started again, and all that was
sent. -/
structure Cluster where
  nodes : Address → Stream
  epochs : Address → Nat
  sent : List Packet

/-- What is sent beyond `old`. -/
def packets (source : Address) (own asked : Nat) (old new : List (PeerId × RaftMessage)) :
    List Packet :=
  (new.take (new.length - old.length)).map fun p =>
    { source, target := p.1, message := p.2, epoch := if p.2.isReply then asked else own }

namespace Cluster

variable (net : Network)

def start : Cluster where
  nodes a := (Stream.blank net.support (net.key a)).spawn net.support
  epochs _ := 0
  sent := []

/-- One event of a node. A message answers a request of the epoch `asked`. -/
def step (C : Cluster) (a : Address) (oracle : Oracle) (event : Event) (asked : Nat) :
    Cluster :=
  let s := (C.nodes a).step net.support oracle event
  { nodes := Function.update C.nodes a s
    epochs := C.epochs
    sent := packets a (C.epochs a) asked (C.nodes a).out s.out ++ C.sent }

def crash (C : Cluster) (a : Address) (oracle : Oracle) (event : Event) (k : Nat) : Cluster where
  nodes := Function.update C.nodes a ((C.nodes a).crash net.support oracle event k)
  epochs := Function.update C.epochs a (C.epochs a + 1)
  sent := C.sent

/-- What can happen to a node: a message was sent to it, and a block is one that
a node has. -/
structure Admits (C : Cluster) (a : Address) (event : Event) (asked : Nat) : Prop where
  member : a ∈ net.members
  runs : event ≠ .restart
  sent : ∀ peerId message, event = .message peerId (some message) →
    ∃ b ∈ net.members, peerId = net.peerId b ∧
      { source := b, target := net.peerId a, message, epoch := asked } ∈ C.sent
  learnt : ∀ block, event = .sync block →
    ∃ b ∈ net.members, block ∈ (C.nodes b).storage.chain

end Cluster

/-- A condition on the events of a run. -/
abbrev Network.Guard := Cluster → Address → Oracle → Event → Nat → Prop

/-- A condition on what is on disk when a node stops. -/
abbrev Network.StopGuard := Cluster → Address → Event → Stream → Prop

namespace Network

variable (net : Network) (P : Guard) (Q : StopGuard)

/-- The states that the nodes can reach together. -/
inductive Reach : Cluster → Prop
  | start : Reach (.start net)
  | step {C : Cluster} (h : Reach C) (a : Address) (oracle : Oracle) (event : Event)
      (asked : Nat) (admits : C.Admits net a event asked) (hp : P C a oracle event asked) :
      Reach (C.step net a oracle event asked)
  | crash {C : Cluster} (h : Reach C) (a : Address) (oracle : Oracle) (event : Event)
      (asked : Nat) (admits : C.Admits net a event asked) (hp : P C a oracle event asked)
      (k : Nat) (hq : Q C a event ((C.nodes a).stopped net.support oracle event k)) :
      Reach (C.crash net a oracle event k)

/-- More than half of the authorities. -/
def Majority (Q : Finset Address) : Prop :=
  Q ⊆ net.authorities.toFinset ∧ net.authorities.length < 2 * Q.card

end Network

theorem Network.Majority.meet {net : Network} {Q Q' : Finset Address} (h : net.Majority Q)
    (h' : net.Majority Q') : ∃ a ∈ Q, a ∈ Q' := by
  have hcard : net.authorities.toFinset.card < Q.card + Q'.card := by
    have hle := List.toFinset_card_le net.authorities
    have hQ := h.2
    have hQ' := h'.2
    omega
  obtain ⟨a, ha⟩ := Finset.inter_nonempty_of_card_lt_card_add_card h.1 h'.1 hcard
  exact ⟨a, (Finset.mem_inter.1 ha).1, (Finset.mem_inter.1 ha).2⟩

/-! ## Runs in single acts -/

/-- The cores of the nodes, while one of them may be in the middle of an event. -/
structure World where
  cores : Address → Core
  epochs : Address → Nat
  sent : List Packet

def Cluster.world (C : Cluster) : World where
  cores a := (C.nodes a).core
  epochs := C.epochs
  sent := C.sent

namespace World

def act (w : World) (a : Address) (asked : Nat) (c : Core) : World where
  cores := Function.update w.cores a c
  epochs := w.epochs
  sent := packets a (w.epochs a) asked (w.cores a).out c.out ++ w.sent

def restart (w : World) (a : Address) (c : Core) : World where
  cores := Function.update w.cores a c
  epochs := Function.update w.epochs a (w.epochs a + 1)
  sent := w.sent

/-- Node `a` is in the middle of an event that `C` was left with. -/
structure Within (net : Network) (C : Cluster) (a : Address) (event : Event) (w : World) :
    Prop where
  acts : Acts net.support event (C.nodes a).core (C.nodes a).core (w.cores a)
  others : ∀ b, b ≠ a → w.cores b = (C.nodes b).core
  epochs : w.epochs = C.epochs
  sent : C.sent ⊆ w.sent

end World

/-- The states in the middle of the events of a run. -/
inductive Network.Trail (net : Network) (P : Network.Guard) (Q : Network.StopGuard) :
    World → Prop
  | start : Trail net P Q (Cluster.start net).world
  | act {C : Cluster} {w : World} (hC : Trail net P Q C.world) (hw : Trail net P Q w)
      (a : Address) (oracle : Oracle) (event : Event) (asked : Nat)
      (admits : C.Admits net a event asked) (hp : P C a oracle event asked)
      (within : w.Within net C a event) (c : Core)
      (hact : Act net.support event (C.nodes a).core (w.cores a) c) :
      Trail net P Q (w.act a asked c)
  | crash {C : Cluster} {w : World} (hC : Trail net P Q C.world) (hw : Trail net P Q w)
      (a : Address) (oracle : Oracle) (event : Event) (asked : Nat)
      (admits : C.Admits net a event asked) (hp : P C a oracle event asked)
      (within : w.Within net C a event) (d : Core) (s : Stream) (hq : Q C a event s)
      (halt : Halt event (C.nodes a).core (w.cores a) d)
      (chain : d.storage.chain = s.storage.chain) (db : d.storage.db = s.storage.db) :
      Trail net P Q (w.restart a
        { d.restarted net.support with
          announcedBy := (C.nodes a).announcedBy
          compared := (C.nodes a).compared })

section

variable {support : Support} {event : Event} {o c c' : Core}

/-- An act sends at most one message. -/
theorem Act.out_cases (h : Act support event o c c') :
    c'.out = c.out ∨ ∃ p, c'.out = p :: c.out := by
  cases h with
  | chat peerId message nextRequestId chat id => exact Or.inr ⟨_, rfl⟩
  | ask target peerId role timeout state member other fresh known => exact Or.inr ⟨_, rfl⟩
  | replicate address req replication replicationOut role state first found peerId known =>
      exact Or.inr ⟨_, rfl⟩
  | respondVote peerId address req res message peer id granted => exact Or.inr ⟨_, rfl⟩
  | respondAppend peerId address req res message peer id term reported =>
      exact Or.inr ⟨_, rfl⟩
  | _ => exact Or.inl rfl

/-- What is sent. A reply answers the message that is handled. -/
theorem Act.sent_cases (h : Act support event o c c') {peerId : PeerId} {message : RaftMessage}
    (hout : c'.out = (peerId, message) :: c.out) :
    message.IsChat c.publicKey ∨
      (∃ req target, message = .requestVoteReq req ∧ req.requestId = c.nextRequestId ∧
        AssocMap.get? c.knownValidators target = some peerId) ∨
      (∃ req target, message = .appendEntriesReq { req with requestId := c.nextRequestId } ∧
        .appendEntriesReq target req ∈ c.leader.replicationOut ∧
        AssocMap.get? c.knownValidators target = some peerId) ∨
      (∃ req res address, message = .requestVoteRes res ∧
        event = .message peerId (some (.requestVoteReq req)) ∧
        o.getPeerAddress peerId = some address ∧ res.requestId = req.requestId ∧
        (res.voteGranted = true → ∃ r ∈ c.trace,
          r.action = .grant address (req.lastLogIndex, req.lastLogTerm) ∧
            r.storage.currentTerm = req.term)) ∨
      ∃ req res address, message = .appendEntriesRes res ∧
        event = .message peerId (some (.appendEntriesReq req)) ∧
        o.getPeerAddress peerId = some address ∧ res.requestId = req.requestId ∧
        (req.term < res.term ∨ c.storage.currentTerm = req.term) ∧
        c.trace.head? = some ⟨.report (res.lastLogIndex, res.lastLogTerm), c.storage⟩ := by
  have hsplit {peerId' : PeerId} {message' : RaftMessage}
      (hcons : (peerId', message') :: c.out = (peerId, message) :: c.out) :
      peerId' = peerId ∧ message' = message :=
    Prod.mk.inj (List.cons.inj hcons).1
  have hne : c.out ≠ (peerId, message) :: c.out := fun hcons => by
    have hlength := congrArg List.length hcons
    simp at hlength
  cases h with
  | chat peerId' message' nextRequestId chat id =>
      obtain ⟨rfl, rfl⟩ := hsplit hout
      exact Or.inl chat
  | ask target peerId' role timeout state member other fresh known =>
      obtain ⟨rfl, rfl⟩ := hsplit hout
      exact Or.inr (Or.inl ⟨_, target, rfl, rfl, known⟩)
  | replicate address req replication replicationOut role state first found peerId' known =>
      obtain ⟨rfl, rfl⟩ := hsplit hout
      exact Or.inr (Or.inr (Or.inl ⟨req, address, rfl, by simp [first], known⟩))
  | respondVote peerId' address req res message' peer id granted =>
      obtain ⟨rfl, rfl⟩ := hsplit hout
      exact Or.inr (Or.inr (Or.inr (Or.inl ⟨req, res, address, rfl, message', peer, id,
        granted⟩)))
  | respondAppend peerId' address req res message' peer id term reported =>
      obtain ⟨rfl, rfl⟩ := hsplit hout
      exact Or.inr (Or.inr (Or.inr (Or.inr ⟨req, res, address, rfl, message', peer, id, term,
        reported⟩)))
  | _ => exact absurd hout hne

theorem Acts.exists_out (h : Acts support event o c c') : ∃ new, c'.out = new ++ c.out := by
  induction h with
  | refl => exact ⟨[], rfl⟩
  | tail _ hact ih =>
      obtain ⟨old, hold⟩ := ih
      rcases hact.out_cases with hsame | ⟨p, hnew⟩
      · exact ⟨old, hsame.trans hold⟩
      · exact ⟨p :: old, by rw [hnew, hold, List.cons_append]⟩

end

theorem packets_append (source : Address) (own asked : Nat)
    (new old : List (PeerId × RaftMessage)) :
    packets source own asked old (new ++ old) = new.map fun p =>
      { source, target := p.1, message := p.2,
        epoch := if p.2.isReply then asked else own } := by
  rw [packets, List.length_append, Nat.add_sub_cancel, List.take_left]

theorem packets_self (source : Address) (own asked : Nat) (old : List (PeerId × RaftMessage)) :
    packets source own asked old old = [] := by
  simp [packets]

theorem packets_cons (source : Address) (own asked : Nat) (p : PeerId × RaftMessage)
    (old : List (PeerId × RaftMessage)) :
    packets source own asked old (p :: old) =
      [{ source, target := p.1, message := p.2,
         epoch := if p.2.isReply then asked else own }] :=
  packets_append source own asked [p] old

namespace Network

variable {net : Network} {P : Guard} {Q : StopGuard} {C : Cluster}

theorem Reach.stable (h : net.Reach P Q C) (a : Address) : (C.nodes a).Stable := by
  induction h with
  | start => exact .spawn _
  | step h b oracle event asked admits hp ih =>
      unfold Cluster.step
      simp only [Function.update_apply]
      split
      · next hab => subst hab; exact ih.step event
      · exact ih
  | crash h b oracle event asked admits hp k hq ih =>
      unfold Cluster.crash
      simp only [Function.update_apply]
      split
      · exact .crash _ event k
      · exact ih

/-- The acts of an event, one after the other. -/
theorem Trail.acts (hC : net.Trail P Q C.world) {a : Address} {oracle : Oracle} {event : Event}
    {asked : Nat} (admits : C.Admits net a event asked) (hp : P C a oracle event asked)
    {c : Core} (h : Acts net.support event (C.nodes a).core (C.nodes a).core c) :
    net.Trail P Q (C.world.act a asked c) ∧ (C.world.act a asked c).Within net C a event := by
  have hsent (c : Core) : C.sent ⊆ (C.world.act a asked c).sent :=
    List.subset_append_right _ _
  induction h with
  | refl =>
      have hsame : C.world.act a asked (C.nodes a).core = C.world := by
        unfold World.act Cluster.world
        simp only [packets_self, List.nil_append]
        rw [Function.update_eq_self a fun a => (C.nodes a).core]
      refine ⟨by rwa [hsame], ?_⟩
      exact ⟨by rw [hsame]; exact .refl, fun b _ => by rw [hsame]; rfl, rfl, hsent _⟩
  | @tail b c hacts hact ih =>
      obtain ⟨htrail, hwithin⟩ := ih
      have hcore : (C.world.act a asked b).cores a = b := Function.update_self ..
      have hworld : (C.world.act a asked b).act a asked c = C.world.act a asked c := by
        obtain ⟨new, hnew⟩ := Acts.exists_out hacts
        obtain ⟨new', hnew'⟩ := Acts.exists_out (.single hact)
        unfold World.act
        simp only [Function.update_self, Function.update_idem]
        change (⟨_, _, packets a (C.epochs a) asked b.out c.out ++
          (packets a (C.epochs a) asked (C.nodes a).core.out b.out ++ C.sent)⟩ : World) =
          ⟨_, _, packets a (C.epochs a) asked (C.nodes a).core.out c.out ++ C.sent⟩
        rw [hnew', packets_append, hnew, packets_append, ← List.append_assoc new',
          packets_append, List.map_append, List.append_assoc]
      rw [← hworld]
      refine ⟨hC.act htrail a oracle event asked admits hp hwithin c (by rwa [hcore]), ?_⟩
      rw [hworld]
      refine ⟨?_, fun d hd => Function.update_of_ne hd .., rfl, hsent c⟩
      change Acts net.support event _ _ (Function.update C.world.cores a c a)
      rw [Function.update_self]
      exact hacts.tail hact

theorem Reach.trail (h : net.Reach P Q C) : net.Trail P Q C.world := by
  induction h with
  | start => exact .start
  | @step C h a oracle event asked admits hp ih =>
      obtain ⟨hmoves, -⟩ := @Stream.step_spec net.support oracle _ (h.stable a).state
        (h.stable a).sound event
      have htrail := (ih.acts admits hp hmoves.acts).1
      have hworld : (C.step net a oracle event asked).world =
          C.world.act a asked ((C.nodes a).step net.support oracle event).core := by
        unfold Cluster.step Cluster.world World.act
        congr
        funext b
        exact Function.apply_update (fun _ s => s.core) C.nodes a _ b
      rw [hworld]
      exact htrail
  | @crash C h a oracle event asked admits hp k hq ih =>
      obtain ⟨mid, d, hwrites, hhalt, hquieter, hchain, hdb, hcore, -⟩ :=
        @Stream.crash_spec net.support oracle _ (h.stable a).state (h.stable a).sound event k
      obtain ⟨htrail, hwithin⟩ := ih.acts admits hp hwrites.acts
      have hmid : (C.world.act a asked mid).cores a = mid := Function.update_self ..
      have hcrash := ih.crash htrail a oracle event asked admits hp hwithin d _ hq
        (by rwa [hmid]) hchain hdb
      have hworld : (C.crash net a oracle event k).world =
          (C.world.act a asked mid).restart a
            { d.restarted net.support with
              announcedBy := (C.nodes a).announcedBy
              compared := (C.nodes a).compared } := by
        unfold Cluster.crash Cluster.world World.restart World.act
        simp only [Function.update_idem]
        congr
        · funext b
          rw [← hcore]
          exact Function.apply_update (fun _ s => s.core) C.nodes a _ b
        · have hout : mid.out = (C.nodes a).core.out := hwrites.quieter.out
          change C.sent = packets a (C.epochs a) asked (C.nodes a).core.out mid.out ++ C.sent
          rw [hout, packets_self, List.nil_append]
      rw [hworld]
      exact hcrash

end Network

/-! ## Growing worlds -/

namespace World

/-- More has been sent and noted. -/
structure Grows (w w' : World) : Prop where
  sent : w.sent ⊆ w'.sent
  traces : ∀ a, (w.cores a).trace ⊆ (w'.cores a).trace

variable {support : Support} {event : Event} {o c : Core} {w : World} {a : Address} {asked : Nat}

theorem cores_act_self (w : World) (a : Address) (asked : Nat) (c : Core) :
    (w.act a asked c).cores a = c :=
  Function.update_self ..

theorem cores_act_of_ne (w : World) {a b : Address} (h : b ≠ a) (asked : Nat) (c : Core) :
    (w.act a asked c).cores b = w.cores b :=
  Function.update_of_ne h ..

theorem cores_restart_self (w : World) (a : Address) (c : Core) :
    (w.restart a c).cores a = c :=
  Function.update_self ..

theorem cores_restart_of_ne (w : World) {a b : Address} (h : b ≠ a) (c : Core) :
    (w.restart a c).cores b = w.cores b :=
  Function.update_of_ne h ..

theorem grows_act (h : Act support event o (w.cores a) c) : w.Grows (w.act a asked c) where
  sent := List.subset_append_right _ _
  traces b := by
    by_cases hab : b = a
    · subst hab
      rw [cores_act_self]
      exact h.trace_subset
    · rw [cores_act_of_ne w hab]
      exact List.Subset.refl _

theorem sent_act_of_out_eq (h : c.out = (w.cores a).out) :
    (w.act a asked c).sent = w.sent := by
  simp only [act, h, packets_self, List.nil_append]

theorem sent_act_of_out_cons {p : PeerId × RaftMessage} (h : c.out = p :: (w.cores a).out) :
    (w.act a asked c).sent =
      { source := a, target := p.1, message := p.2,
        epoch := if p.2.isReply then asked else w.epochs a } :: w.sent := by
  simp only [act, h, packets_cons, List.cons_append, List.nil_append]

/-- What a node sends in one act. -/
theorem mem_sent_act (h : Act support event o (w.cores a) c) {p : Packet}
    (hp : p ∈ (w.act a asked c).sent) :
    p ∈ w.sent ∨ (p.source = a ∧ c.out = (p.target, p.message) :: (w.cores a).out ∧
      p.epoch = if p.message.isReply then asked else w.epochs a) := by
  rcases h.out_cases with hsame | ⟨q, hq⟩
  · rw [sent_act_of_out_eq hsame] at hp
    exact Or.inl hp
  · rw [sent_act_of_out_cons hq] at hp
    rcases List.mem_cons.1 hp with rfl | hp
    · exact Or.inr ⟨rfl, hq, rfl⟩
    · exact Or.inl hp

end World

theorem Halt.trace_eq {event : Event} {o c d : Core} (h : Halt event o c d) :
    d.trace = c.trace := by
  cases h <;> rfl

theorem Halt.quieter {event : Event} {o c d : Core} (h : Halt event o c d) : c.Quieter d := by
  cases h <;> exact ⟨rfl, rfl, rfl⟩

theorem World.grows_restart {event : Event} {o c d : Core} {w : World} {a : Address}
    (h : Halt event o (w.cores a) d) (hc : c.trace = d.trace) : w.Grows (w.restart a c) where
  sent := List.Subset.refl _
  traces b := by
    by_cases hab : b = a
    · subst hab
      rw [cores_restart_self, hc, h.trace_eq]
      exact List.Subset.refl _
    · rw [cores_restart_of_ne w hab]
      exact List.Subset.refl _

/-! ## Who is who -/

/-- A node knows the authorities, and its peers by their addresses. -/
structure Core.Peered (net : Network) (a : Address) (c : Core) : Prop where
  publicKey : c.publicKey = net.support.basic.publicKey (net.key a)
  address : c.address = net.support.basic.address (net.support.basic.publicKey (net.key a))
  authorities : c.authorities = net.authorities
  peers : ∀ peerId address, c.getPeerAddress peerId = some address →
    address ∈ net.members ∧ peerId = net.peerId address
  known : ∀ address peerId, AssocMap.get? c.knownValidators address = some peerId →
    address ∈ net.members ∧ peerId = net.peerId address

/-- Nodes register under their own addresses. -/
structure World.Peered (net : Network) (w : World) : Prop where
  nodes : ∀ a, (w.cores a).Peered net a
  sources : ∀ p ∈ w.sent, p.source ∈ net.members
  registers : ∀ p ∈ w.sent, ∀ req, p.message = .registerValidatorReq req →
    req.publicKey = net.support.basic.publicKey (net.key p.source)
  authorities : ∀ a authorities, InternalMessage.authoritiesUpdated authorities ∉
    (w.cores a).internal

theorem Network.getRaftAuthorities_eq (net : Network) (chain : Chain) (number : BlockNumber) :
    net.support.getRaftAuthorities chain number = net.authorities :=
  net.fixed _

section

variable {net : Network} {C : Cluster} {w : World} {a : Address} {event : Event} {asked : Nat}

/-- A message of a registered peer was sent by the node of that address. -/
theorem Cluster.Admits.receives (h : C.Admits net a event asked)
    (hpeered : C.world.Peered net) {address : Address} {message : RaftMessage}
    (hreceives : (C.nodes a).core.Receives event address message) :
    address ∈ net.members ∧
      { source := address, target := net.peerId a, message, epoch := asked } ∈ C.sent := by
  obtain ⟨peerId, hevent, hpeer⟩ := hreceives
  obtain ⟨b, hb, rfl, hsent⟩ := h.sent peerId message hevent
  obtain ⟨haddress, hsame⟩ := (hpeered.nodes a).peers _ _ hpeer
  obtain rfl := net.peerId_injective b hb address haddress hsame
  exact ⟨hb, hsent⟩

theorem Cluster.Admits.registers (h : C.Admits net a event asked)
    (hpeered : C.world.Peered net) {peerId : PeerId} {address : Address}
    (hregisters : event.Registers net.support peerId address) :
    address ∈ net.members ∧ peerId = net.peerId address := by
  obtain ⟨req, hevent, rfl⟩ := hregisters
  obtain ⟨b, hb, rfl, hsent⟩ := h.sent peerId _ hevent
  have hkey := hpeered.registers _ hsent req rfl
  rw [hkey, net.own b hb]
  exact ⟨hb, rfl⟩

end

theorem Act.peered {net : Network} {C : Cluster} {a : Address} {event : Event} {asked : Nat}
    {c c' : Core} (h : Act net.support event (C.nodes a).core c c')
    (admits : C.Admits net a event asked) (hpeered : C.world.Peered net)
    (hc : c.Peered net a) : c'.Peered net a := by
  cases h with
  | peers peers knownValidators registered known =>
      refine ⟨hc.publicKey, hc.address, hc.authorities, ?_, ?_⟩
      · intro peerId address hpeer
        rcases registered peerId address hpeer with hold | hnew
        · exact hc.peers peerId address hold
        · exact admits.registers hpeered hnew
      · intro address peerId hpeer
        rcases known address peerId hpeer with hold | hnew
        · exact hc.known address peerId hold
        · exact admits.registers hpeered hnew
  | authorities told => exact { hc with authorities := net.getRaftAuthorities_eq _ _ }
  | restart told => exact absurd told admits.runs
  | _ => exact ⟨hc.publicKey, hc.address, hc.authorities, hc.peers, hc.known⟩

/-- A node that is started knows no peers. -/
theorem Core.Peered.restarted {net : Network} {a : Address} {c : Core}
    (publicKey : c.publicKey = net.support.basic.publicKey (net.key a))
    (address : c.address = net.support.basic.address (net.support.basic.publicKey (net.key a))) :
    (c.restarted net.support).Peered net a where
  publicKey
  address
  authorities := net.getRaftAuthorities_eq _ _
  peers := nofun
  known := nofun

/-- An act leaves no news of other authorities. -/
theorem Act.authoritiesUpdated {net : Network} {C : Cluster} {a : Address} {event : Event}
    {c c' : Core} (h : Act net.support event (C.nodes a).core c c')
    (ho : (C.nodes a).core.Peered net a) (hc : c.Peered net a)
    (hnone : ∀ authorities, InternalMessage.authoritiesUpdated authorities ∉ c.internal)
    (authorities : List Address) :
    InternalMessage.authoritiesUpdated authorities ∉ c'.internal := by
  have htail {message : InternalMessage} {internal : List InternalMessage}
      (hfirst : c.internal = message :: internal) :
      InternalMessage.authoritiesUpdated authorities ∉ internal := by
    have hall := hnone authorities
    rw [hfirst] at hall
    exact fun hmem => hall (List.mem_cons_of_mem _ hmem)
  cases h with
  | queue message queues =>
      rw [List.mem_append, List.mem_singleton, not_or]
      refine ⟨hnone authorities, ?_⟩
      rintro rfl
      obtain ⟨hcurrent, hother⟩ := queues
      exact hother (hcurrent.trans (hc.authorities.trans ho.authorities.symm))
  | pop message internal first => exact htail first
  | count address res internal role state first open_ granted member => exact htail first
  | deliver address res internal replication first found => exact htail first
  | regroup replications authorities internal first => exact htail first
  | restart told => exact List.not_mem_nil
  | _ => exact hnone authorities

theorem Network.Trail.peered {net : Network} {P : Network.Guard} {Q : Network.StopGuard}
    {w : World} (h : net.Trail P Q w) : w.Peered net := by
  induction h with
  | start =>
      have hcore (a : Address) : (Cluster.start net).world.cores a =
          (Stream.blank net.support (net.key a)).core.restarted net.support :=
        (Stream.spawn_spec _).1
      refine ⟨?_, nofun, nofun, ?_⟩
      · intro a
        rw [hcore]
        exact .restarted rfl rfl
      · intro a authorities
        rw [hcore]
        exact List.not_mem_nil
  | @act C w hC hw a oracle event asked admits hp within c hact ihC ih =>
      refine ⟨?_, ?_, ?_, ?_⟩
      · intro b
        by_cases hab : b = a
        · subst hab
          rw [World.cores_act_self]
          exact hact.peered admits ihC (ih.nodes b)
        · rw [World.cores_act_of_ne w hab]
          exact ih.nodes b
      · intro p hp
        rcases World.mem_sent_act hact hp with hold | ⟨hsource, -⟩
        · exact ih.sources p hold
        · rw [hsource]
          exact admits.member
      · intro p hp req hreq
        rcases World.mem_sent_act hact hp with hold | ⟨hsource, hout, -⟩
        · exact ih.registers p hold req hreq
        · rw [hreq] at hout
          rcases hact.sent_cases hout with hchat | ⟨_, _, hother, -⟩ | ⟨_, _, hother, -⟩ |
            ⟨_, _, _, hother, -⟩ | ⟨_, _, _, hother, -⟩
          · rw [hsource, ← (ih.nodes a).publicKey]
            exact hchat
          all_goals exact nomatch hother
      · intro b authorities
        by_cases hab : b = a
        · subst hab
          rw [World.cores_act_self]
          exact hact.authoritiesUpdated (ihC.nodes b) (ih.nodes b) (ih.authorities b) authorities
        · rw [World.cores_act_of_ne w hab]
          exact ih.authorities b authorities
  | @crash C w hC hw a oracle event asked admits hp within d s hq halt chain db ihC ih =>
      refine ⟨?_, ih.sources, ih.registers, ?_⟩
      · intro b
        by_cases hab : b = a
        · subst hab
          rw [World.cores_restart_self]
          have hnode := ih.nodes b
          have hrestarted : (d.restarted net.support).Peered net b :=
            .restarted (halt.quieter.publicKey.trans hnode.publicKey)
              (halt.quieter.address.trans hnode.address)
          exact { hrestarted with }
        · rw [World.cores_restart_of_ne w hab]
          exact ih.nodes b
      · intro b authorities
        by_cases hab : b = a
        · subst hab
          rw [World.cores_restart_self]
          exact List.not_mem_nil
        · rw [World.cores_restart_of_ne w hab]
          exact ih.authorities b authorities

/-! ## Request ids -/

/-- The id of a request that a vote or a matched log depends on. -/
def RaftMessage.requestId? : RaftMessage → Option Nat
  | .requestVoteReq req => some req.requestId
  | .appendEntriesReq req => some req.requestId
  | _ => none

/-- No node has sent so much that its request ids start again. -/
def World.Bounded (net : Network) (w : World) : Prop :=
  ∀ a ∈ net.members, (w.cores a).out.length < 2 ^ 64

/-- Since a node was started its requests have had different ids. -/
structure World.Numbered (net : Network) (w : World) : Prop where
  next : ∀ a ∈ net.members, (w.cores a).nextRequestId ≤ (w.cores a).out.length
  epochs : ∀ p ∈ w.sent, ∀ id, p.message.requestId? = some id → p.epoch ≤ w.epochs p.source
  ids : ∀ p ∈ w.sent, ∀ id, p.message.requestId? = some id → p.epoch = w.epochs p.source →
    id < (w.cores p.source).nextRequestId
  unique : ∀ p ∈ w.sent, ∀ p' ∈ w.sent, ∀ id, p.message.requestId? = some id →
    p'.message.requestId? = some id → p.source = p'.source → p.epoch = p'.epoch → p = p'

theorem nextId_of_lt {id : Nat} (h : id + 1 < 2 ^ 64) : nextId id = id + 1 :=
  if_pos h

theorem RaftMessage.IsChat.requestId? {publicKey : PublicKey} {message : RaftMessage}
    (h : message.IsChat publicKey) : message.requestId? = none := by
  cases message with
  | appendEntriesReq req => exact h.elim
  | requestVoteReq req => exact h.elim
  | _ => rfl

section

variable {support : Support} {event : Event} {o c c' : Core}

/-- A message with an id is a request: it takes the next id. -/
theorem Act.requestId (h : Act support event o c c') {peerId : PeerId} {message : RaftMessage}
    {id : Nat} (hout : c'.out = (peerId, message) :: c.out)
    (hid : message.requestId? = some id) : id = c.nextRequestId ∧ message.isReply = false := by
  rcases h.sent_cases hout with hchat | ⟨req, _, rfl, hreq, -⟩ | ⟨_, _, rfl, -⟩ |
    ⟨_, _, _, rfl, -⟩ | ⟨_, _, _, rfl, -⟩
  · rw [hchat.requestId?] at hid
    exact nomatch hid
  · obtain rfl := Option.some.inj hid
    exact ⟨hreq, rfl⟩
  · obtain rfl := Option.some.inj hid
    exact ⟨rfl, rfl⟩
  · exact nomatch hid
  · exact nomatch hid

/-- The next id is taken by a message, and by every request. -/
theorem Act.nextRequestId_cases (h : Act support event o c c') (runs : event ≠ .restart) :
    (c'.nextRequestId = c.nextRequestId ∧ c.out.length ≤ c'.out.length ∧
      ∀ peerId message, c'.out = (peerId, message) :: c.out → message.requestId? = none) ∨
    (c'.nextRequestId = nextId c.nextRequestId ∧ c'.out.length = c.out.length + 1) := by
  have hone {p : PeerId × RaftMessage} (hnone : p.2.requestId? = none) (peerId : PeerId)
      (message : RaftMessage) (hout : p :: c.out = (peerId, message) :: c.out) :
      message.requestId? = none := by
    obtain rfl := (List.cons.inj hout).1
    exact hnone
  have hsame (peerId : PeerId) (message : RaftMessage)
      (hout : c.out = (peerId, message) :: c.out) : message.requestId? = none := by
    have hlength := congrArg List.length hout
    simp at hlength
  cases h with
  | chat peerId message nextRequestId chat id =>
      rcases id with rfl | rfl
      · exact Or.inl ⟨rfl, Nat.le_succ _, hone chat.requestId?⟩
      · exact Or.inr ⟨rfl, rfl⟩
  | ask target peerId role timeout state member other fresh known => exact Or.inr ⟨rfl, rfl⟩
  | replicate address req replication replicationOut role state first found peerId known =>
      exact Or.inr ⟨rfl, rfl⟩
  | respondVote peerId address req res message peer id granted =>
      exact Or.inl ⟨rfl, Nat.le_succ _, hone rfl⟩
  | respondAppend peerId address req res message peer id term reported =>
      exact Or.inl ⟨rfl, Nat.le_succ _, hone rfl⟩
  | restart told => exact absurd told runs
  | _ => exact Or.inl ⟨rfl, le_rfl, hsame⟩

/-- Ids only increase while the node runs. -/
theorem Act.nextRequestId (h : Act support event o c c') (runs : event ≠ .restart)
    (hle : c.nextRequestId ≤ c.out.length) (hbound : c'.out.length < 2 ^ 64) :
    c.nextRequestId ≤ c'.nextRequestId ∧ c'.nextRequestId ≤ c'.out.length := by
  rcases h.nextRequestId_cases runs with ⟨hsame, hlength, -⟩ | ⟨hnext, hlength⟩
  · omega
  · rw [nextId_of_lt (by omega)] at hnext
    omega

/-- A request moves the next id. -/
theorem Act.requestId_lt (h : Act support event o c c') (runs : event ≠ .restart)
    (hle : c.nextRequestId ≤ c.out.length) (hbound : c'.out.length < 2 ^ 64) {peerId : PeerId}
    {message : RaftMessage} {id : Nat} (hout : c'.out = (peerId, message) :: c.out)
    (hid : message.requestId? = some id) : id < c'.nextRequestId := by
  obtain ⟨rfl, -⟩ := h.requestId hout hid
  rcases h.nextRequestId_cases runs with ⟨-, -, hnone⟩ | ⟨hnext, hlength⟩
  · rw [hnone peerId message hout] at hid
    exact nomatch hid
  · rw [nextId_of_lt (by omega)] at hnext
    omega

theorem Act.length_out (h : Act support event o c c') : c.out.length ≤ c'.out.length := by
  rcases h.out_cases with hsame | ⟨p, hp⟩
  · rw [hsame]
  · rw [hp]
    exact Nat.le_succ _

end

theorem World.Bounded.of_act {net : Network} {event : Event} {o c : Core} {w : World}
    {a : Address} {asked : Nat} (h : (w.act a asked c).Bounded net)
    (hact : Act net.support event o (w.cores a) c) : w.Bounded net := by
  intro b hb
  have hbound := h b hb
  by_cases hab : b = a
  · subst hab
    rw [cores_act_self] at hbound
    exact hact.length_out.trans_lt hbound
  · rwa [cores_act_of_ne w hab] at hbound

theorem World.Bounded.of_restart {net : Network} {event : Event} {o c d : Core} {w : World}
    {a : Address} (h : (w.restart a c).Bounded net) (halt : Halt event o (w.cores a) d)
    (hc : c.out = d.out) : w.Bounded net := by
  intro b hb
  have hbound := h b hb
  by_cases hab : b = a
  · subst hab
    rw [cores_restart_self, hc, halt.quieter.out] at hbound
    exact hbound
  · rwa [cores_restart_of_ne w hab] at hbound

theorem Network.Trail.numbered {net : Network} {P : Network.Guard} {Q : Network.StopGuard}
    {w : World} (h : net.Trail P Q w) (hbounded : w.Bounded net) : w.Numbered net := by
  induction h with
  | start =>
      refine ⟨?_, nofun, nofun, nofun⟩
      intro a _
      have hcore : (Cluster.start net).world.cores a =
          (Stream.blank net.support (net.key a)).core.restarted net.support :=
        (Stream.spawn_spec _).1
      rw [hcore]
      exact Nat.zero_le _
  | @act C w hC hw a oracle event asked admits hp within c hact ihC ih =>
      have ih := ih (hbounded.of_act hact)
      have hle := ih.next a admits.member
      have hbound : c.out.length < 2 ^ 64 := by
        have hbound := hbounded a admits.member
        rwa [World.cores_act_self] at hbound
      obtain ⟨hgrows, hnext⟩ := hact.nextRequestId admits.runs hle hbound
      -- the id of a new request is higher than the ids of the same epoch before
      have hnew : ∀ p ∈ w.sent, ∀ p' : Packet, c.out = (p'.target, p'.message) :: (w.cores a).out →
          p'.source = a → (p'.epoch = if p'.message.isReply then asked else w.epochs a) →
          ∀ id, p.message.requestId? = some id → p'.message.requestId? = some id →
            p.source = p'.source → p.epoch = p'.epoch → False := by
        intro p hp p' hout hsource hepoch id hid hid' hsame hsame'
        obtain ⟨rfl, hreply⟩ := hact.requestId hout hid'
        rw [hreply, if_neg Bool.false_ne_true] at hepoch
        have hold := ih.ids p hp _ hid (by rw [hsame', hepoch, hsame, hsource])
        rw [hsame, hsource] at hold
        exact absurd hold (lt_irrefl _)
      refine ⟨?_, ?_, ?_, ?_⟩
      · intro b hb
        by_cases hab : b = a
        · subst hab
          rw [World.cores_act_self]
          exact hnext
        · rw [World.cores_act_of_ne w hab]
          exact ih.next b hb
      · intro p hp id hid
        rcases World.mem_sent_act hact hp with hold | ⟨hsource, hout, hepoch⟩
        · exact ih.epochs p hold id hid
        · rw [(hact.requestId hout hid).2, if_neg Bool.false_ne_true] at hepoch
          rw [hepoch, hsource]
          exact le_rfl
      · intro p hp id hid hepoch
        rcases World.mem_sent_act hact hp with hold | ⟨hsource, hout, -⟩
        · have hid := ih.ids p hold id hid hepoch
          by_cases hab : p.source = a
          · rw [hab, World.cores_act_self]
            rw [hab] at hid
            omega
          · rwa [World.cores_act_of_ne w hab]
        · rw [hsource, World.cores_act_self]
          exact hact.requestId_lt admits.runs hle hbound hout hid
      · intro p hp p' hp' id hid hid' hsource hepoch
        rcases World.mem_sent_act hact hp with hold | ⟨hsource₁, hout₁, hepoch₁⟩
        · rcases World.mem_sent_act hact hp' with hold' | ⟨hsource₂, hout₂, hepoch₂⟩
          · exact ih.unique p hold p' hold' id hid hid' hsource hepoch
          · exact (hnew p hold p' hout₂ hsource₂ hepoch₂ id hid hid' hsource hepoch).elim
        · rcases World.mem_sent_act hact hp' with hold' | ⟨hsource₂, hout₂, hepoch₂⟩
          · exact (hnew p' hold' p hout₁ hsource₁ hepoch₁ id hid' hid hsource.symm
              hepoch.symm).elim
          · rw [hout₁] at hout₂
            obtain ⟨htarget, hmessage⟩ := Prod.mk.inj (List.cons.inj hout₂).1
            cases p
            cases p'
            simp_all
  | @crash C w hC hw a oracle event asked admits hp within d s hq halt chain db ihC ih =>
      have ih := ih (hbounded.of_restart halt rfl)
      refine ⟨?_, ?_, ?_, ih.unique⟩
      · intro b hb
        by_cases hab : b = a
        · subst hab
          rw [World.cores_restart_self]
          exact Nat.zero_le _
        · rw [World.cores_restart_of_ne w hab]
          exact ih.next b hb
      · intro p hp id hid
        have hold := ih.epochs p hp id hid
        simp only [World.restart, Function.update_apply]
        split
        · next hab =>
          rw [hab] at hold
          exact hold.trans (Nat.le_succ _)
        · exact hold
      · intro p hp id hid hepoch
        have hold := ih.epochs p hp id hid
        by_cases hab : p.source = a
        · -- nothing has been sent since the node was started
          simp only [World.restart, hab, Function.update_self] at hepoch
          rw [hab] at hold
          omega
        · simp only [World.restart, Function.update_of_ne hab] at hepoch ⊢
          exact ih.ids p hp id hid hepoch

/-! ## Moves in their order -/

/-- An event of a node, with the epoch of the request that a message is or
answers. -/
abbrev Cluster.Move := Address × Event × Nat

namespace Cluster

variable (net : Network) (oracle : Oracle) (P : Network.Guard)

def steps (C : Cluster) (moves : List Move) : Cluster :=
  moves.foldl (fun C m => C.step net m.1 oracle m.2.1 m.2.2) C

def StepsWith : Cluster → List Move → Prop
  | _, [] => True
  | C, m :: moves =>
      (C.Admits net m.1 m.2.1 m.2.2 ∧ P C m.1 oracle m.2.1 m.2.2) ∧
        StepsWith (C.step net m.1 oracle m.2.1 m.2.2) moves

/-- What an event has to be, as the cases of the event. -/
def Admitted (C : Cluster) (a : Address) (event : Event) (asked : Nat) : Prop :=
  a ∈ net.members ∧
    match event with
    | .restart => False
    | .message _ none => True
    | .message peerId (some message) =>
        ∃ b ∈ net.members, peerId = net.peerId b ∧
          { source := b, target := net.peerId a, message, epoch := asked } ∈ C.sent
    | .sync block => ∃ b ∈ net.members, block ∈ (C.nodes b).storage.chain
    | _ => True

theorem admits_iff {C : Cluster} {a : Address} {event : Event} {asked : Nat} :
    C.Admits net a event asked ↔ C.Admitted net a event asked := by
  constructor
  · rintro ⟨member, runs, sent, learnt⟩
    refine ⟨member, ?_⟩
    cases event with
    | restart => exact runs rfl
    | message peerId message =>
        cases message with
        | none => trivial
        | some message => exact sent peerId message rfl
    | sync block => exact learnt block rfl
    | _ => trivial
  · rintro ⟨member, hevent⟩
    refine ⟨member, ?_, ?_, ?_⟩
    · rintro rfl
      exact hevent
    · rintro peerId message rfl
      exact hevent
    · rintro block rfl
      exact hevent

instance (C : Cluster) (a : Address) (event : Event) (asked : Nat) :
    Decidable (C.Admitted net a event asked) :=
  match event with
  | .restart => inferInstanceAs (Decidable (_ ∧ False))
  | .message _ none => inferInstanceAs (Decidable (_ ∧ True))
  | .message peerId (some message) =>
      inferInstanceAs (Decidable (a ∈ net.members ∧ ∃ b ∈ net.members,
        peerId = net.peerId b ∧
          ({ source := b, target := net.peerId a, message, epoch := asked } : Packet) ∈ C.sent))
  | .sync block =>
      inferInstanceAs (Decidable (_ ∧ ∃ b ∈ net.members, block ∈ (C.nodes b).storage.chain))
  | .election => inferInstanceAs (Decidable (_ ∧ True))
  | .schedule _ => inferInstanceAs (Decidable (_ ∧ True))
  | .internal => inferInstanceAs (Decidable (_ ∧ True))
  | .replicationOut => inferInstanceAs (Decidable (_ ∧ True))
  | .replicate _ => inferInstanceAs (Decidable (_ ∧ True))
  | .replicationIn _ => inferInstanceAs (Decidable (_ ∧ True))
  | .open .. => inferInstanceAs (Decidable (_ ∧ True))
  | .close _ => inferInstanceAs (Decidable (_ ∧ True))
  | .blockCommitted => inferInstanceAs (Decidable (_ ∧ True))
  | .generate => inferInstanceAs (Decidable (_ ∧ True))
  | .shutdown => inferInstanceAs (Decidable (_ ∧ True))

instance (C : Cluster) (a : Address) (event : Event) (asked : Nat) :
    Decidable (C.Admits net a event asked) :=
  decidable_of_iff _ (admits_iff net).symm

instance decidableStepsWith [∀ C a oracle event asked, Decidable (P C a oracle event asked)] :
    ∀ (C : Cluster) (moves : List Move), Decidable (C.StepsWith net oracle P moves)
  | _, [] => isTrue trivial
  | C, m :: moves =>
      have := decidableStepsWith (C.step net m.1 oracle m.2.1 m.2.2) moves
      inferInstanceAs (Decidable (_ ∧ _))

end Cluster

theorem Network.Reach.steps {net : Network} {oracle : Oracle} {P : Network.Guard}
    {Q : Network.StopGuard} {C : Cluster} (h : net.Reach P Q C) {moves : List Cluster.Move}
    (hp : C.StepsWith net oracle P moves) : net.Reach P Q (C.steps net oracle moves) := by
  induction moves generalizing C with
  | nil => exact h
  | cons m moves ih =>
      obtain ⟨⟨admits, hguard⟩, hrest⟩ := hp
      exact ih (h.step m.1 oracle m.2.1 m.2.2 admits hguard) hrest

/-! ## A sample network -/

namespace Sample

/-- The validators `0, .., n - 1`, each the peer of its own name. -/
def network (n : Nat) (nodup : ((support n).getAuthorities []).Nodup) : Network where
  support := support n
  authorities := (support n).getAuthorities []
  nodup
  fixed _ := rfl
  members := (support n).getAuthorities []
  key a := ⟨a.bytes⟩
  own _ _ := rfl
  peerId a := a.bytes
  peerId_injective a _ b _ h := by
    cases a
    cases b
    exact congrArg Address.mk h

def network3 : Network := network 3 (by decide)

/-- Node `a` connects to node `b`. -/
def connect (a b : UInt8) : Cluster.Move := (⟨[a]⟩, .open [b] 7 7, 0)

/-- Node `b` receives a message of node `a`. -/
def deliver (a b : UInt8) (message : RaftMessage) : Cluster.Move :=
  (⟨[b]⟩, .message [a] (some message), 0)

/-- Node `a` does something by itself. -/
def does (a : UInt8) (event : Event) : Cluster.Move := (⟨[a]⟩, event, 0)

def registration (a : UInt8) (requestId : Nat) : RaftMessage :=
  .registerValidatorReq { requestId, publicKey := ⟨[a]⟩, signature := ⟨[a]⟩ }

/-- Two nodes that connect and register with each other; they have sent `m` and
`n` requests before. -/
def acquaint (a b : UInt8) (m n : Nat) : List Cluster.Move :=
  [connect a b, connect b a, deliver a b (registration a m), deliver b a (registration b n)]

/-- The network after the moves. -/
def cluster (moves : List Cluster.Move) : Cluster :=
  (Cluster.start network3).steps network3 oracle moves

theorem reach_cluster {P : Network.Guard} {Q : Network.StopGuard} {moves : List Cluster.Move}
    (hp : (Cluster.start network3).StepsWith network3 oracle P moves) :
    network3.Reach P Q (cluster moves) :=
  Network.Reach.start.steps hp

end Sample

end Finastate.Raft
