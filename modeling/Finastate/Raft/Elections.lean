import Finastate.Raft.Network

/-!
# Election safety

A candidate counts the replies to the requests of its round, one for each
authority, and every vote it counts is noted by the voter in the term of the
round. Two majorities meet, and a node votes once in a term, so at most one
node is elected in a term. The term of a round and of a leader must not change
under it: `refresh` raises the term to the one of a synced block whatever the
node is doing, and then a leader goes on in a term that another node leads.
-/

namespace Finastate.Raft

/-! ## Votes and majorities -/

namespace World

/-- The node has noted a vote for the candidate in the term. -/
def Voted (w : World) (v candidate : Address) (term : Nat) : Prop :=
  ∃ r ∈ (w.cores v).trace, r.storage.currentVotedFor = some candidate ∧
    r.storage.currentTerm = term

/-- The node has granted the request of the candidate. -/
def Granted (w : World) (v candidate : Address) (req : RequestVoteReq) : Prop :=
  ∃ r ∈ (w.cores v).trace, r.action = .grant candidate (req.lastLogIndex, req.lastLogTerm) ∧
    r.storage.currentTerm = req.term

/-- A majority has voted for the node in the term. -/
def Elected (net : Network) (w : World) (a : Address) (term : Nat) : Prop :=
  ∃ Q, net.Majority Q ∧ ∀ v ∈ Q, w.Voted v a term

/-- The request was sent, in the current epoch of the node. -/
def Asks (net : Network) (w : World) (a v : Address) (req : RequestVoteReq) : Prop :=
  { source := a, target := net.peerId v, message := .requestVoteReq req,
    epoch := w.epochs a } ∈ w.sent

variable {net : Network} {w w' : World} {a v candidate : Address} {term : Nat}
  {req : RequestVoteReq}

theorem Voted.mono (h : w.Voted v candidate term) (hgrows : w.Grows w') :
    w'.Voted v candidate term := by
  obtain ⟨r, hr, hvote⟩ := h
  exact ⟨r, hgrows.traces v hr, hvote⟩

theorem Granted.mono (h : w.Granted v candidate req) (hgrows : w.Grows w') :
    w'.Granted v candidate req := by
  obtain ⟨r, hr, hgrant⟩ := h
  exact ⟨r, hgrows.traces v hr, hgrant⟩

theorem Elected.mono (h : w.Elected net a term) (hgrows : w.Grows w') :
    w'.Elected net a term := by
  obtain ⟨Q, hmajority, hvoted⟩ := h
  exact ⟨Q, hmajority, fun v hv => (hvoted v hv).mono hgrows⟩

theorem Granted.voted (h : w.Granted v candidate req) (hvotes : (w.cores v).Votes) :
    w.Voted v candidate req.term := by
  obtain ⟨r, hr, haction, hterm⟩ := h
  exact ⟨r, hr, hvotes.voting.grants r hr _ _ haction, hterm⟩

/-- Two majorities meet, and nobody votes twice. -/
theorem Elected.unique {b : Address} (h : w.Elected net a term) (h' : w.Elected net b term)
    (hvotes : ∀ v, (w.cores v).Votes) : a = b := by
  obtain ⟨Q, hmajority, hvoted⟩ := h
  obtain ⟨Q', hmajority', hvoted'⟩ := h'
  obtain ⟨v, hv, hv'⟩ := hmajority.meet hmajority'
  obtain ⟨r, hr, hvote, hterm⟩ := hvoted v hv
  obtain ⟨r', hr', hvote', hterm'⟩ := hvoted' v hv'
  exact (hvotes v).voting.once r hr r' hr' a b hvote hvote' (hterm.trans hterm'.symm)

end World

/-- The votes of all nodes stay good when no candidate counts past the last
term. -/
theorem Network.Trail.votes {net : Network} {P : Network.Guard} {Q : Network.StopGuard}
    {w : World} (h : net.Trail P Q w)
    (hcounts : ∀ C a oracle event asked, P C a oracle event asked →
      (C.nodes a).CountsOn event) (a : Address) : (w.cores a).Votes := by
  induction h with
  | start =>
      have hcore : (Cluster.start net).world.cores a =
          (Stream.blank net.support (net.key a)).core.restarted net.support :=
        (Stream.spawn_spec _).1
      rw [hcore]
      exact Core.votes_restarted ⟨by simp [Stream.blank, Stream.core],
        by simp [Stream.blank, Stream.core], by simp [Stream.blank, Stream.core],
        by simp [Stream.blank, Stream.core], by simp [Stream.blank, Stream.core], .nil⟩
  | @act C w hC hw b oracle event asked admits hp within c hact ihC ih =>
      by_cases hab : a = b
      · subst hab
        rw [World.cores_act_self]
        exact hact.votes (hcounts C a oracle event asked hp) ih
      · rwa [World.cores_act_of_ne w hab]
  | @crash C w hC hw b oracle event asked admits hp within d s hq halt chain db ihC ih =>
      by_cases hab : a = b
      · subst hab
        rw [World.cores_restart_self]
        obtain ⟨hterm, hvote, hvoting⟩ := @Core.votes_restarted net.support _
          (halt.voting (hcounts C a oracle event asked hp) ih)
        exact ⟨hterm, hvote, hvoting⟩
      · rwa [World.cores_restart_of_ne w hab]

/-! ## The invariant -/

/-- The round of a candidate: its requests are in the current term, one to each
node, and the voters have granted theirs. -/
structure Core.Round (net : Network) (w : World) (a : Address) (c : Core) : Prop where
  vote : c.storage.currentVotedFor = some a
  needed : c.candidate.votesNeeded = net.authorities.length / 2 + 1
  counted : c.candidate.votesGranted = c.candidate.voters.length + 1
  asked : ∀ id v, (id, v) ∈ c.candidate.asked → v ∈ net.authorities ∧ v ≠ a ∧
    v ∈ net.members ∧
    ∃ req, w.Asks net a v req ∧ req.requestId = id ∧ req.term = c.storage.currentTerm
  targets : (c.candidate.asked.map Prod.snd).Nodup
  requests : ∀ id ∈ c.candidate.requests, ∃ v, (id, v) ∈ c.candidate.asked
  voters : ∀ v ∈ c.candidate.voters, ∃ req, (req.requestId, v) ∈ c.candidate.asked ∧
    req.requestId ∉ c.candidate.requests ∧ w.Asks net a v req ∧
    req.term = c.storage.currentTerm ∧ w.Granted v a req
  distinct : c.candidate.voters.Nodup

/-- A node on its way to lead, and as the leader. -/
structure Core.Seeks (net : Network) (w : World) (a : Address) (c : Core) : Prop where
  member : c.state = .follower ∨ c.state = .candidate ∨ c.state = .leader →
    a ∈ net.authorities
  queued : ∀ address res, .requestVoteRes address res ∈ c.internal →
    address ∈ net.members ∧
      { source := address, target := net.peerId a, message := .requestVoteRes res,
        epoch := w.epochs a } ∈ w.sent
  round : c.role = .candidate → c.state = .candidate ∨ c.state = .leader → c.Round net w a
  leads : c.role = .leader → c.state = .leader → w.Elected net a c.storage.currentTerm
  queuedOut : ∀ address req, .appendEntriesReq address req ∈ c.leader.replicationOut →
    w.Elected net a req.term

/-- Every granted vote answers a request, and every leader that sends entries is
elected. -/
structure World.Elections (net : Network) (w : World) : Prop where
  nodes : ∀ a ∈ net.members, (w.cores a).Seeks net w a
  replies : ∀ p ∈ w.sent, ∀ res, p.message = .requestVoteRes res → res.voteGranted = true →
    ∃ b ∈ net.members, ∃ req, p.target = net.peerId b ∧
      { source := b, target := net.peerId p.source, message := .requestVoteReq req,
        epoch := p.epoch } ∈ w.sent ∧
      req.requestId = res.requestId ∧ w.Granted p.source b req
  leaders : ∀ p ∈ w.sent, ∀ req, p.message = .appendEntriesReq req →
    w.Elected net p.source req.term

theorem Core.Round.mono {net : Network} {w w' : World} {a : Address} {c c' : Core}
    (h : c.Round net w a) (hgrows : w.Grows w') (hepochs : w'.epochs a = w.epochs a)
    (hcandidate : c'.candidate = c.candidate)
    (hterm : c'.storage.currentTerm = c.storage.currentTerm)
    (hvote : c'.storage.currentVotedFor = c.storage.currentVotedFor) : c'.Round net w' a := by
  have hasks {v : Address} {req : RequestVoteReq} (hasks : w.Asks net a v req) :
      w'.Asks net a v req := by
    unfold World.Asks
    rw [hepochs]
    exact hgrows.sent hasks
  refine ⟨?_, ?_, ?_, ?_, ?_, ?_, ?_, ?_⟩
  · rw [hvote, h.vote]
  · rw [hcandidate, h.needed]
  · rw [hcandidate, h.counted]
  · rw [hcandidate, hterm]
    intro id v hv
    obtain ⟨hauthority, hother, hmember, req, hreq, hid, hnow⟩ := h.asked id v hv
    exact ⟨hauthority, hother, hmember, req, hasks hreq, hid, hnow⟩
  · rw [hcandidate]
    exact h.targets
  · rw [hcandidate]
    exact h.requests
  · rw [hcandidate, hterm]
    intro v hv
    obtain ⟨req, hasked, hclosed, hreq, hnow, hgranted⟩ := h.voters v hv
    exact ⟨req, hasked, hclosed, hasks hreq, hnow, hgranted.mono hgrows⟩
  · rw [hcandidate]
    exact h.distinct

/-- What the invariant of a node reads is as before or less. -/
structure Core.Calms (c c' : Core) : Prop where
  state : c'.state = c.state
  role : c'.role = c.role
  candidate : c'.candidate = c.candidate
  term : c'.storage.currentTerm = c.storage.currentTerm
  vote : c'.storage.currentVotedFor = c.storage.currentVotedFor
  internal : c'.internal ⊆ c.internal
  queuedOut : c'.leader.replicationOut ⊆ c.leader.replicationOut

theorem Core.Seeks.mono {net : Network} {w w' : World} {a : Address} {c c' : Core}
    (h : c.Seeks net w a) (hgrows : w.Grows w') (hepochs : w'.epochs a = w.epochs a)
    (hcalms : c.Calms c') : c'.Seeks net w' a := by
  refine ⟨?_, ?_, ?_, ?_, ?_⟩
  · rw [hcalms.state]
    exact h.member
  · intro address res hmem
    rw [hepochs]
    obtain ⟨hmember, hsent⟩ := h.queued address res (hcalms.internal hmem)
    exact ⟨hmember, hgrows.sent hsent⟩
  · rw [hcalms.role, hcalms.state]
    intro hrole hstate
    exact (h.round hrole hstate).mono hgrows hepochs hcalms.candidate hcalms.term hcalms.vote
  · rw [hcalms.role, hcalms.state, hcalms.term]
    intro hrole hstate
    exact (h.leads hrole hstate).mono hgrows
  · intro address req hmem
    exact (h.queuedOut address req (hcalms.queuedOut hmem)).mono hgrows

/-- A node that neither leads nor is a candidate. -/
theorem Core.Seeks.follow {net : Network} {w w' : World} {a : Address} {c c' : Core}
    (h : c.Seeks net w a) (hgrows : w.Grows w') (hepochs : w'.epochs a = w.epochs a)
    (hmember : c'.state = .follower → a ∈ net.authorities)
    (hstate : c'.state ≠ .leader ∧ c'.state ≠ .candidate)
    (hinternal : c'.internal ⊆ c.internal)
    (hqueuedOut : c'.leader.replicationOut ⊆ c.leader.replicationOut) : c'.Seeks net w' a where
  member := by
    rintro (hfollower | hcandidate | hleader)
    · exact hmember hfollower
    · exact absurd hcandidate hstate.2
    · exact absurd hleader hstate.1
  queued := by
    intro address res hmem
    rw [hepochs]
    obtain ⟨haddress, hsent⟩ := h.queued address res (hinternal hmem)
    exact ⟨haddress, hgrows.sent hsent⟩
  round := by
    rintro - (hcandidate | hleader)
    · exact absurd hcandidate hstate.2
    · exact absurd hleader hstate.1
  leads _ hleader := absurd hleader hstate.1
  queuedOut address req hmem := (h.queuedOut address req (hqueuedOut hmem)).mono hgrows

/-! ## What has to be granted -/

/-- A reply is delivered in the epoch of its request. -/
def Cluster.Fresh (C : Cluster) (a : Address) (event : Event) (asked : Nat) : Prop :=
  ∀ peerId message, event = .message peerId (some message) → message.isReply = true →
    asked = C.epochs a

/-- A leader or a candidate is not told of a block of a higher term. -/
def Stream.Steady (s : Stream) (event : Event) : Prop :=
  event = .blockCommitted → s.role = .leader ∨ s.role = .candidate →
    (Storage.basePosition s.storage.chain).2 ≤ s.storage.currentTerm

/-- A base of a term that is not higher leaves the term and the vote. -/
theorem Storage.refresh_vote {storage : Storage} (hterm : storage.currentTerm = storage.db.term)
    (hvote : storage.currentVotedFor = storage.db.vote)
    (hsteady : (basePosition storage.chain).2 ≤ storage.currentTerm) :
    (refresh storage.chain storage.db).currentTerm = storage.currentTerm ∧
      (refresh storage.chain storage.db).currentVotedFor = storage.currentVotedFor := by
  have hfix : fixCurrentTerm storage.db (basePosition storage.chain).2 = storage.db := by
    rw [hterm] at hsteady
    exact if_neg (not_lt.2 hsteady)
  have hlogs := term_fixLogs (fixCommitLogIndex storage.db (basePosition storage.chain).1)
    (basePosition storage.chain).1
  have hcommit := term_fixCommitLogIndex storage.db (basePosition storage.chain).1
  have hproposal := term_fixProposal
    (fixLogs (fixCommitLogIndex storage.db (basePosition storage.chain).1)
      (basePosition storage.chain).1)
  constructor
  · calc (refresh storage.chain storage.db).currentTerm
      _ = (fixProposal (fixLogs (fixCommitLogIndex
            (fixCurrentTerm storage.db (basePosition storage.chain).2)
            (basePosition storage.chain).1) (basePosition storage.chain).1)).term := rfl
      _ = storage.currentTerm := by
          rw [hfix, hproposal.1, hlogs.1, hcommit.1, hterm]
  · calc (refresh storage.chain storage.db).currentVotedFor
      _ = (fixProposal (fixLogs (fixCommitLogIndex
            (fixCurrentTerm storage.db (basePosition storage.chain).2)
            (basePosition storage.chain).1) (basePosition storage.chain).1)).vote := rfl
      _ = storage.currentVotedFor := by
          rw [hfix, hproposal.2, hlogs.2, hcommit.2, hvote]

/-! ## The acts of an election -/

section

variable {net : Network} {w w' : World} {a : Address} {c : Core}

/-- The candidate that has enough votes is elected. -/
theorem Core.Round.elected (h : c.Round net w a) (hmember : a ∈ net.authorities)
    (henough : c.candidate.votesNeeded ≤ c.candidate.votesGranted)
    (hgrows : w.Grows w') (hvotes : ∀ v, (w.cores v).Votes)
    (hself : w'.Voted a a c.storage.currentTerm) :
    w'.Elected net a c.storage.currentTerm := by
  have hasked : ∀ v ∈ c.candidate.voters, v ∈ net.authorities ∧ v ≠ a := by
    intro v hv
    obtain ⟨req, hmem, -⟩ := h.voters v hv
    obtain ⟨hauthority, hother, -⟩ := h.asked _ v hmem
    exact ⟨hauthority, hother⟩
  have hother : a ∉ c.candidate.voters.toFinset := by
    intro ha
    exact (hasked a (List.mem_toFinset.1 ha)).2 rfl
  refine ⟨insert a c.candidate.voters.toFinset, ⟨?_, ?_⟩, ?_⟩
  · intro v hv
    rcases Finset.mem_insert.1 hv with rfl | hv
    · exact List.mem_toFinset.2 hmember
    · exact List.mem_toFinset.2 (hasked v (List.mem_toFinset.1 hv)).1
  · rw [Finset.card_insert_of_notMem hother, List.toFinset_card_of_nodup h.distinct]
    have hneeded := h.needed
    have hcounted := h.counted
    omega
  · intro v hv
    rcases Finset.mem_insert.1 hv with rfl | hv
    · exact hself
    · obtain ⟨req, -, -, -, hterm, hgranted⟩ := h.voters v (List.mem_toFinset.1 hv)
      rw [← hterm]
      exact (hgranted.voted (hvotes v)).mono hgrows

/-- The reply to an open request is a vote in the round, of a node that has not
been counted. -/
theorem Core.Round.count (h : c.Round net w a) (hnumbered : w.Numbered net)
    {address : Address} {req : RequestVoteReq} {id : Nat} (haddress : address ∈ net.members) (hasks : w.Asks net a address req)
    (hid : req.requestId = id) (hopen : id ∈ c.candidate.requests)
    (hgranted : w.Granted address a req) :
    Core.Round net w a
      { c with
        candidate :=
          { c.candidate with
            requests := c.candidate.requests.filter fun id' => id' ≠ id
            votesGranted := c.candidate.votesGranted + 1
            voters := address :: c.candidate.voters } } := by
  obtain ⟨v, hv⟩ := h.requests id hopen
  obtain ⟨-, -, hvmember, req', hasks', hid', hterm⟩ := h.asked id v hv
  -- the request of this id went to the node that answers it
  have hsame := hnumbered.unique _ hasks _ hasks' id (by rw [← hid]; rfl)
    (by rw [← hid']; rfl) rfl rfl
  obtain ⟨-, htarget, hmessage, -⟩ := Packet.mk.inj hsame
  obtain rfl := net.peerId_injective address haddress v hvmember htarget
  obtain rfl := RaftMessage.requestVoteReq.inj hmessage
  have hnew : address ∉ c.candidate.voters := by
    intro hold
    obtain ⟨req', hasked, hclosed, -⟩ := h.voters address hold
    have hpair : (id, address) = (req'.requestId, address) :=
      List.inj_on_of_nodup_map h.targets hv hasked rfl
    rw [← (Prod.mk.inj hpair).1] at hclosed
    exact hclosed hopen
  refine ⟨h.vote, h.needed, ?_, h.asked, h.targets, ?_, ?_, ?_⟩
  · rw [List.length_cons, h.counted]
  · intro id' hid'
    exact h.requests id' (List.mem_of_mem_filter hid')
  · intro v' hv'
    rcases List.mem_cons.1 hv' with rfl | hv'
    · refine ⟨req, by rw [hid]; exact hv, ?_, hasks, hterm, hgranted⟩
      rw [hid]
      simp
    · obtain ⟨req', hasked, hclosed, hrest⟩ := h.voters v' hv'
      exact ⟨req', hasked, fun hmem => hclosed (List.mem_of_mem_filter hmem), hrest⟩
  · exact List.nodup_cons.2 ⟨hnew, h.distinct⟩

end

theorem Core.Round.forget {net : Network} {w : World} {a : Address} {c : Core}
    (h : c.Round net w a) (id : Nat) :
    Core.Round net w a
      { c with candidate.requests := c.candidate.requests.filter fun id' => id' ≠ id } := by
  refine ⟨h.vote, h.needed, h.counted, h.asked, h.targets, ?_, ?_, h.distinct⟩
  · intro id' hid'
    exact h.requests id' (List.mem_of_mem_filter hid')
  · intro v hv
    obtain ⟨req, hasked, hclosed, hrest⟩ := h.voters v hv
    exact ⟨req, hasked, fun hmem => hclosed (List.mem_of_mem_filter hmem), hrest⟩

/-- The messages of a replication task are requests in the current term. -/
theorem ReplicationStream.term_of_task {storage : Storage} {target : Address}
    {stream : ReplicationStream} {event : Event} {r : ReplicationStream}
    {messages : List ReplicationOutMessage}
    (h : (event = .replicate target ∧ (r, messages) = replicate storage target stream) ∨
      (event = .replicationIn target ∧ (r, messages) = onInMessage storage target stream))
    {address : Address} {req : AppendEntriesReq}
    (hmem : .appendEntriesReq address req ∈ messages) : req.term = storage.currentTerm := by
  rcases h with ⟨-, h⟩ | ⟨-, h⟩
  · obtain ⟨-, rfl⟩ := Prod.mk.inj h
    rw [List.mem_singleton] at hmem
    obtain ⟨-, rfl⟩ := ReplicationOutMessage.appendEntriesReq.inj hmem
    rfl
  · have hnone : .appendEntriesReq address req ∉ (onInMessage storage target stream).2 := by
      unfold onInMessage onAppendEntriesRes
      grind
    rw [← h] at hnone
    exact absurd hmem hnone

/-- The node that acts. -/
theorem Act.seeks {net : Network} {C : Cluster} {w w' : World} {a : Address} {event : Event}
    {asked : Nat} {c' : Core} (hact : Act net.support event (C.nodes a).core (w.cores a) c')
    (hw' : w' = w.act a asked c') (admits : C.Admits net a event asked)
    (within : w.Within net C a event) (hfresh : C.Fresh a event asked)
    (hsteady : (C.nodes a).Steady event) (hC : C.world.Peered net) (hpeered : w.Peered net)
    (hnumbered : w.Numbered net) (hvotes : ∀ v, (w.cores v).Votes)
    (h : w.Elections net) : c'.Seeks net w' a := by
  have hgrows : w.Grows w' := hw' ▸ World.grows_act hact
  have hepochs : w'.epochs a = w.epochs a := by rw [hw']; rfl
  have ha := h.nodes a admits.member
  have haddress : (w.cores a).address = a :=
    (hpeered.nodes a).address.trans (net.own a admits.member)
  have hsame (hcalms : (w.cores a).Calms c') : c'.Seeks net w' a :=
    ha.mono hgrows hepochs hcalms
  have htail {message : InternalMessage} {internal : List InternalMessage}
      (hfirst : (w.cores a).internal = message :: internal) :
      internal ⊆ (w.cores a).internal := by
    rw [hfirst]
    exact List.subset_cons_self _ _
  have htailOut {message : ReplicationOutMessage}
      {replicationOut : List ReplicationOutMessage}
      (hfirst : (w.cores a).leader.replicationOut = message :: replicationOut) :
      replicationOut ⊆ (w.cores a).leader.replicationOut := by
    rw [hfirst]
    exact List.subset_cons_self _ _
  have hfollow (hmember : c'.state = .follower → a ∈ net.authorities)
      (hstate : c'.state ≠ .leader ∧ c'.state ≠ .candidate)
      (hinternal : c'.internal = (w.cores a).internal)
      (hout : c'.leader.replicationOut = (w.cores a).leader.replicationOut) :
      c'.Seeks net w' a :=
    ha.follow hgrows hepochs hmember hstate (by rw [hinternal]; exact List.Subset.refl _)
      (by rw [hout]; exact List.Subset.refl _)
  have hqueued (address : Address) (res : RequestVoteRes)
      (hmem : .requestVoteRes address res ∈ (w.cores a).internal) :
      address ∈ net.members ∧
        { source := address, target := net.peerId a, message := .requestVoteRes res,
          epoch := w'.epochs a } ∈ w'.sent := by
    obtain ⟨hmember, hsent⟩ := ha.queued address res hmem
    rw [hepochs]
    exact ⟨hmember, hgrows.sent hsent⟩
  have hqueuedOut (address : Address) (req : AppendEntriesReq)
      (hmem : .appendEntriesReq address req ∈ (w.cores a).leader.replicationOut) :
      w'.Elected net a req.term :=
    (ha.queuedOut address req hmem).mono hgrows
  cases hact with
  | queue message queues =>
      refine ⟨ha.member, ?_, ?_, ?_, ?_⟩
      · intro address res hmem
        rw [hepochs]
        rcases List.mem_append.1 hmem with hold | hnew
        · obtain ⟨hmember, hsent⟩ := ha.queued address res hold
          exact ⟨hmember, hgrows.sent hsent⟩
        · rw [List.mem_singleton] at hnew
          subst hnew
          obtain ⟨hmember, hsent⟩ := admits.receives hC queues
          obtain ⟨peerId, hevent, -⟩ := queues
          have hasked : asked = w.epochs a := by
            rw [within.epochs]
            exact hfresh peerId _ hevent rfl
          rw [hasked] at hsent
          exact ⟨hmember, hgrows.sent (within.sent hsent)⟩
      · exact fun hrole hstate => (ha.round hrole hstate).mono hgrows hepochs rfl rfl rfl
      · exact fun hrole hstate => (ha.leads hrole hstate).mono hgrows
      · exact fun address req hmem => (ha.queuedOut address req hmem).mono hgrows
  | pop message internal first =>
      exact hsame ⟨rfl, rfl, rfl, rfl, rfl, htail first, List.Subset.refl _⟩
  | setState state rule =>
      have hauthority (hmember : (w.cores a).address ∈ (w.cores a).authorities) :
          a ∈ net.authorities := by
        rwa [haddress, (hpeered.nodes a).authorities] at hmember
      rcases rule with rfl | rfl | ⟨rfl, hmember⟩ | ⟨rfl, hfollower, hrole⟩
      · exact hfollow nofun ⟨nofun, nofun⟩ rfl rfl
      · exact hfollow nofun ⟨nofun, nofun⟩ rfl rfl
      · exact hfollow (fun _ => hauthority hmember) ⟨nofun, nofun⟩ rfl rfl
      · -- a follower that becomes a candidate has no round yet
        refine ⟨fun _ => ha.member (Or.inl hfollower), hqueued, ?_, ?_, hqueuedOut⟩
        · exact fun hcandidate => nomatch hrole.symm.trans hcandidate
        · exact fun hleader => nomatch hrole.symm.trans hleader
  | rest calm =>
      refine ⟨ha.member, hqueued, ?_, ?_, hqueuedOut⟩
      · rintro - (hcandidate | hleader)
        · exact absurd hcandidate calm.2
        · exact absurd hleader calm.1
      · exact fun _ hleader => absurd hleader calm.1
  | campaign timeout before storage trace state =>
      refine ⟨ha.member, hqueued, ?_, nofun, hqueuedOut⟩
      intro _ _
      refine ⟨congrArg some haddress, ?_, rfl, nofun, List.nodup_nil, nofun, nofun,
        List.nodup_nil⟩
      exact congrArg (fun authorities => authorities.length / 2 + 1)
        (hpeered.nodes a).authorities
  | ask target peerId role timeout state member other fresh known =>
      refine ⟨ha.member, hqueued, ?_, fun hleader => absurd (role.symm.trans hleader) nofun, hqueuedOut⟩
      intro _ _
      obtain ⟨htarget, rfl⟩ := (hpeered.nodes a).known target peerId known
      have hround := (ha.round role (Or.inl state)).mono hgrows hepochs rfl rfl rfl
      rw [(hpeered.nodes a).authorities] at member fresh
      rw [haddress] at other
      have hasks : w'.Asks net a target
          { requestId := (w.cores a).nextRequestId, term := (w.cores a).storage.currentTerm
            lastLogIndex := (w.cores a).storage.lastLog.1
            lastLogTerm := (w.cores a).storage.lastLog.2 } := by
        unfold World.Asks
        rw [hepochs, hw', World.sent_act_of_out_cons rfl]
        exact List.mem_cons_self
      refine ⟨hround.vote, hround.needed, hround.counted, ?_, ?_, ?_, ?_, hround.distinct⟩
      · intro id v hv
        rcases List.mem_cons.1 hv with hnew | hold
        · obtain ⟨rfl, rfl⟩ := Prod.mk.inj hnew
          exact ⟨member, other, htarget, _, hasks, rfl, rfl⟩
        · exact hround.asked id v hold
      · exact List.nodup_cons.2 ⟨fresh net.nodup, hround.targets⟩
      · intro id hid
        rcases List.mem_cons.1 hid with rfl | hid
        · exact ⟨target, List.mem_cons_self⟩
        · obtain ⟨v, hv⟩ := hround.requests id hid
          exact ⟨v, List.mem_cons_of_mem _ hv⟩
      · intro v hv
        obtain ⟨req, hasked, hclosed, hreq, hterm, hgranted⟩ :=
          (ha.round role (Or.inl state)).voters v hv
        have hreq' : w'.Asks net a v req := by
          unfold World.Asks
          rw [hepochs]
          exact hgrows.sent hreq
        refine ⟨req, List.mem_cons_of_mem _ hasked, ?_, hreq', hterm, hgranted.mono hgrows⟩
        -- the id of a counted vote is an old one
        have hold : req.requestId < (w.cores a).nextRequestId :=
          hnumbered.ids _ hreq _ rfl rfl
        rw [List.mem_cons, not_or]
        exact ⟨hold.ne, hclosed⟩
  | forget requestId =>
      refine ⟨ha.member, hqueued, ?_, fun hrole hstate => (ha.leads hrole hstate).mono hgrows,
        hqueuedOut⟩
      intro hrole hstate
      exact ((ha.round hrole hstate).forget requestId).mono hgrows hepochs rfl rfl rfl
  | count address res internal role state first open_ granted member =>
      have hround := ha.round role (Or.inl state)
      obtain ⟨hmember, hsent⟩ :=
        ha.queued address res (by rw [first]; exact List.mem_cons_self)
      obtain ⟨b, hb, req, htarget, hreq, hid, hgranted⟩ := h.replies _ hsent res rfl granted
      obtain rfl := net.peerId_injective a admits.member b hb htarget
      refine ⟨ha.member, ?_, ?_, fun hleader => absurd (role.symm.trans hleader) nofun, hqueuedOut⟩
      · exact fun address' res' hmem => hqueued address' res' (htail first hmem)
      · intro _ _
        exact (hround.count hnumbered hmember hreq hid open_ hgranted).mono hgrows hepochs rfl
          rfl rfl
  | win role state enough =>
      refine ⟨fun _ => ha.member (Or.inr (Or.inl state)), hqueued, ?_,
        fun hleader => absurd (role.symm.trans hleader) nofun, hqueuedOut⟩
      intro _ _
      exact (ha.round role (Or.inl state)).mono hgrows hepochs rfl rfl rfl
  | lead role state enough =>
      refine ⟨ha.member, hqueued, nofun, ?_, nofun⟩
      intro _ _
      have hround := ha.round role (Or.inr state)
      refine hround.elected (ha.member (Or.inr (Or.inr state))) enough hgrows hvotes ?_
      refine ⟨⟨.lead (w.cores a).candidate.voters, (w.cores a).storage⟩, ?_, hround.vote, rfl⟩
      rw [hw', World.cores_act_self]
      exact List.mem_cons_self
  | task target replication stream messages role state found step =>
      refine ⟨ha.member, hqueued,
        fun hrole hstate => (ha.round hrole hstate).mono hgrows hepochs rfl rfl rfl,
        fun _ _ => (ha.leads role state).mono hgrows, ?_⟩
      intro address req hmem
      rcases List.mem_append.1 hmem with hold | hnew
      · exact hqueuedOut address req hold
      · rw [ReplicationStream.term_of_task step hnew]
        exact (ha.leads role state).mono hgrows
  | deliver address res internal replication first found =>
      exact hsame ⟨rfl, rfl, rfl, rfl, rfl, htail first, List.Subset.refl _⟩
  | popOut message replicationOut first =>
      exact hsame ⟨rfl, rfl, rfl, rfl, rfl, List.Subset.refl _, htailOut first⟩
  | matched address matchIndex replication replicationOut first found =>
      exact hsame ⟨rfl, rfl, rfl, rfl, rfl, List.Subset.refl _, htailOut first⟩
  | replicate address req replication replicationOut role state first found peerId known =>
      exact hsame ⟨rfl, rfl, rfl, rfl, rfl, List.Subset.refl _, htailOut first⟩
  | withhold address req replication replicationOut first found =>
      exact hsame ⟨rfl, rfl, rfl, rfl, rfl, List.Subset.refl _, htailOut first⟩
  | regroup replications authorities internal first =>
      exact hsame ⟨rfl, rfl, rfl, rfl, rfl, htail first, List.Subset.refl _⟩
  | follow address req receives start term =>
      refine hfollow ?_ (Core.follower_state _) rfl rfl
      intro hfollower
      by_contra hother
      rw [← haddress, ← (hpeered.nodes a).authorities] at hother
      simp [Core.follower, Core.note, Core.write, hother] at hfollower
  | newTerm term calm higher => exact hfollow (fun hfollower => ha.member (Or.inl hfollower)) calm rfl rfl
  | vote address req receives term none_ calm =>
      exact hfollow (fun hfollower => ha.member (Or.inl hfollower)) calm rfl rfl
  | refresh told start =>
      have hkept (hrole : (w.cores a).role = .leader ∨ (w.cores a).role = .candidate) :=
        Storage.refresh_vote (hvotes a).term (hvotes a).vote
          (by rw [start] at hrole ⊢; exact hsteady told hrole)
      refine ⟨ha.member, hqueued, ?_, ?_, hqueuedOut⟩
      · intro hrole hstate
        obtain ⟨hterm, hvote⟩ := hkept (Or.inr hrole)
        exact (ha.round hrole hstate).mono hgrows hepochs rfl hterm hvote
      · intro hrole hstate
        have hterm : (w.cores a).refresh.storage.currentTerm = (w.cores a).storage.currentTerm :=
          (hkept (Or.inl hrole)).1
        rw [hterm]
        exact (ha.leads hrole hstate).mono hgrows
  | restart told => exact absurd told admits.runs
  | _ => exact hsame ⟨rfl, rfl, rfl, rfl, rfl, List.Subset.refl _, List.Subset.refl _⟩

/-! ## Election safety -/

/-- The condition under which a term has one leader. -/
def Cluster.Electoral (C : Cluster) (a : Address) (_oracle : Oracle) (event : Event)
    (asked : Nat) : Prop :=
  C.Fresh a event asked ∧ (C.nodes a).CountsOn event ∧ (C.nodes a).Steady event

/-- A node that is started again is no candidate and no leader. -/
theorem Core.Seeks.restarted {net : Network} {w : World} {a : Address} {c : Core}
    (haddress : c.address = a) : (c.restarted net.support).Seeks net w a := by
  have hauthorities := net.getRaftAuthorities_eq c.refresh.storage.chain
    c.refresh.storage.chain.length
  have haddress : c.refresh.address = a := haddress
  refine ⟨?_, nofun, ?_, ?_, nofun⟩
  · unfold Core.restarted
    simp only [hauthorities, haddress]
    split
    · next hmember => exact fun _ => hmember
    · rintro (hnot | hnot | hnot) <;> exact nomatch hnot
  · unfold Core.restarted
    simp only
    split <;> exact nofun
  · unfold Core.restarted
    simp only
    split <;> exact nofun

/-- What is recorded of the run does not matter. -/
theorem Core.Seeks.forgetting {net : Network} {w : World} {a : Address} {c : Core}
    (h : c.Seeks net w a) (announcedBy : Option (Address × Nat))
    (compared : List ((Address × Nat) × Nat)) :
    Core.Seeks net w a { c with announcedBy, compared } :=
  h.mono ⟨List.Subset.refl _, fun _ => List.Subset.refl _⟩ rfl
    ⟨rfl, rfl, rfl, rfl, rfl, List.Subset.refl _, List.Subset.refl _⟩

theorem Core.Calms.refl (c : Core) : c.Calms c :=
  ⟨rfl, rfl, rfl, rfl, rfl, List.Subset.refl _, List.Subset.refl _⟩

namespace Network

variable {net : Network} {P : Guard} {Q : StopGuard} {w : World}

theorem Trail.elections (h : net.Trail P Q w)
    (hP : ∀ C a oracle event asked, P C a oracle event asked →
      C.Electoral a oracle event asked) (hbounded : w.Bounded net) : w.Elections net := by
  have hcounts : ∀ C a oracle event asked, P C a oracle event asked →
      (C.nodes a).CountsOn event :=
    fun C a oracle event asked hp => (hP C a oracle event asked hp).2.1
  induction h with
  | start =>
      refine ⟨?_, nofun, nofun⟩
      intro a ha
      have hcore : (Cluster.start net).world.cores a =
          (Stream.blank net.support (net.key a)).core.restarted net.support :=
        (Stream.spawn_spec _).1
      rw [hcore]
      exact .restarted (net.own a ha)
  | @act C w hC hw a oracle event asked admits hp within c hact ihC ih =>
      have hbounded' := hbounded.of_act hact
      have ih := ih hbounded'
      have hgrows : w.Grows (w.act a asked c) := World.grows_act hact
      obtain ⟨hfresh, -, hsteady⟩ := hP C a oracle event asked hp
      refine ⟨?_, ?_, ?_⟩
      · intro b hb
        by_cases hab : b = a
        · subst hab
          rw [World.cores_act_self]
          exact hact.seeks rfl admits within hfresh hsteady hC.peered hw.peered
            (hw.numbered hbounded') (hw.votes hcounts) ih
        · rw [World.cores_act_of_ne w hab]
          exact (ih.nodes b hb).mono hgrows rfl (.refl _)
      · intro p hp res hres hgranted
        rcases World.mem_sent_act hact hp with hold | ⟨hsource, hout, hepoch⟩
        · obtain ⟨b, hb, req, htarget, hreq, hid, hgrant⟩ := ih.replies p hold res hres hgranted
          exact ⟨b, hb, req, htarget, hgrows.sent hreq, hid, hgrant.mono hgrows⟩
        · rw [hres] at hout hepoch
          rcases hact.sent_cases hout with hchat | ⟨_, _, hother, -⟩ | ⟨_, _, hother, -⟩ |
            ⟨req, _, address, hreq, hevent, hpeer, hid, hgrant⟩ | ⟨_, _, _, hother, -⟩
          · exact hchat.elim
          · exact nomatch hother
          · exact nomatch hother
          · obtain rfl := RaftMessage.requestVoteRes.inj hreq
            obtain ⟨hmember, hsent⟩ := admits.receives hC.peered ⟨_, hevent, hpeer⟩
            obtain ⟨-, htarget⟩ := (hC.peered.nodes a).peers _ _ hpeer
            obtain ⟨r, hr, hgrant⟩ := hgrant hgranted
            refine ⟨address, hmember, req, htarget, ?_, hid.symm, ⟨r, ?_, hgrant⟩⟩
            · rw [hepoch, hsource]
              exact hgrows.sent (within.sent hsent)
            · rw [hsource]
              exact hgrows.traces a hr
          · exact nomatch hother
      · intro p hp req hreq
        rcases World.mem_sent_act hact hp with hold | ⟨hsource, hout, -⟩
        · exact (ih.leaders p hold req hreq).mono hgrows
        · rw [hreq] at hout
          rcases hact.sent_cases hout with hchat | ⟨_, _, hother, -⟩ | ⟨req', _, hsame, hmem, -⟩ |
            ⟨_, _, _, hother, -⟩ | ⟨_, _, _, hother, -⟩
          · exact hchat.elim
          · exact nomatch hother
          · obtain rfl := RaftMessage.appendEntriesReq.inj hsame
            rw [hsource]
            exact ((ih.nodes a admits.member).queuedOut _ req' hmem).mono hgrows
          · exact nomatch hother
          · exact nomatch hother
  | @crash C w hC hw a oracle event asked admits hp within d s hq halt chain db ihC ih =>
      have ih := ih (hbounded.of_restart halt rfl)
      have hgrows : w.Grows (w.restart a
          { d.restarted net.support with
            announcedBy := (C.nodes a).announcedBy
            compared := (C.nodes a).compared }) :=
        World.grows_restart halt rfl
      refine ⟨?_, ?_, ?_⟩
      · intro b hb
        by_cases hab : b = a
        · subst hab
          rw [World.cores_restart_self]
          have haddress : d.address = b :=
            halt.quieter.address.trans ((hw.peered.nodes b).address.trans (net.own b hb))
          exact Core.Seeks.forgetting (.restarted haddress) _ _
        · rw [World.cores_restart_of_ne w hab]
          exact (ih.nodes b hb).mono hgrows (Function.update_of_ne hab ..) (.refl _)
      · intro p hp res hres hgranted
        obtain ⟨b, hb, req, htarget, hreq, hid, hgrant⟩ := ih.replies p hp res hres hgranted
        exact ⟨b, hb, req, htarget, hreq, hid, hgrant.mono hgrows⟩
      · intro p hp req hreq
        exact (ih.leaders p hp req hreq).mono hgrows

end Network

/-- The term that the leader which sends the message carries. -/
def RaftMessage.leaderTerm? : RaftMessage → Option Nat
  | .appendEntriesReq req => some req.term
  | _ => none

/-- At most one node ever sends entries as the leader of a term. -/
def Cluster.OneLeader (C : Cluster) : Prop :=
  ∀ p ∈ C.sent, ∀ p' ∈ C.sent, p.message.leaderTerm?.isSome →
    p.message.leaderTerm? = p'.message.leaderTerm? → p.source = p'.source

instance (C : Cluster) : Decidable C.OneLeader :=
  inferInstanceAs (Decidable (∀ p ∈ C.sent, ∀ p' ∈ C.sent, _ → _ → p.source = p'.source))

theorem RaftMessage.eq_of_leaderTerm? {message : RaftMessage} {term : Nat}
    (h : message.leaderTerm? = some term) : ∃ req, message = .appendEntriesReq req ∧
      req.term = term := by
  cases message with
  | appendEntriesReq req => exact ⟨req, rfl, Option.some.inj h⟩
  | _ => exact nomatch h

/-- While replies come in the epoch of their requests, no candidate counts past
the last term, no leader or candidate is told of a block of a higher term, and
the request ids have not started again, every term has one leader. -/
theorem election_safety {net : Network} {C : Cluster}
    (h : net.Reach Cluster.Electoral (fun _ _ _ _ => True) C)
    (hbounded : ∀ a ∈ net.members, (C.nodes a).out.length < 2 ^ 64) : C.OneLeader := by
  have helections := h.trail.elections (fun _ _ _ _ _ hp => hp) hbounded
  have hvotes := h.trail.votes fun _ _ _ _ _ hp => hp.2.1
  intro p hp p' hp' hsome hsame
  obtain ⟨term, hterm⟩ := Option.isSome_iff_exists.1 hsome
  obtain ⟨req, hreq, rfl⟩ := RaftMessage.eq_of_leaderTerm? hterm
  obtain ⟨req', hreq', hterm'⟩ := RaftMessage.eq_of_leaderTerm? (hsame.symm.trans hterm)
  have helected := helections.leaders p hp req hreq
  have helected' := helections.leaders p' hp' req' hreq'
  rw [hterm'] at helected'
  exact helected.unique helected' hvotes

instance (C : Cluster) (a : Address) (event : Event) (asked : Nat) :
    Decidable (C.Fresh a event asked) :=
  match event with
  | .message _ (some message) =>
      decidable_of_iff (message.isReply = true → asked = C.epochs a)
        ⟨by rintro h _ _ ⟨⟩; exact h, fun h => h _ _ rfl⟩
  | .message _ none => isTrue nofun
  | .election => isTrue nofun
  | .schedule _ => isTrue nofun
  | .internal => isTrue nofun
  | .replicationOut => isTrue nofun
  | .replicate _ => isTrue nofun
  | .replicationIn _ => isTrue nofun
  | .open .. => isTrue nofun
  | .close _ => isTrue nofun
  | .blockCommitted => isTrue nofun
  | .generate => isTrue nofun
  | .shutdown => isTrue nofun
  | .restart => isTrue nofun
  | .sync _ => isTrue nofun

instance (s : Stream) (event : Event) : Decidable (s.Steady event) :=
  inferInstanceAs (Decidable (_ → _ → _))

instance (C : Cluster) (a : Address) (oracle : Oracle) (event : Event) (asked : Nat) :
    Decidable (C.Electoral a oracle event asked) :=
  inferInstanceAs (Decidable (_ ∧ _ ∧ _))

namespace Sample

/-- Node `0` is elected in term `1` by node `1`, which is elected in term `2` by
node `2`. -/
def twoElections : List Cluster.Move :=
  acquaint 0 1 0 0 ++ acquaint 1 2 1 0 ++
    [does 0 .election,
      deliver 0 1 (.requestVoteReq
        { requestId := 1, term := 1, lastLogIndex := 0, lastLogTerm := 0 }),
      deliver 1 0 (.requestVoteRes { requestId := 1, term := 0, voteGranted := true }),
      does 0 .internal,
      does 1 .election,
      deliver 1 2 (.requestVoteReq
        { requestId := 3, term := 2, lastLogIndex := 0, lastLogTerm := 0 }),
      deliver 2 1 (.requestVoteRes { requestId := 3, term := 0, voteGranted := true }),
      does 1 .internal]

def proposal5 : Proposal where
  blockHash := ⟨[1, 5]⟩
  number := 1
  timestamp := 5
  metaTxs := []
  payloadTxs := []
  executionNumber := 0

/-- The two entries of node `1`. -/
def entriesReq : RaftMessage :=
  .appendEntriesReq
    { requestId := 4
      term := 2
      prevLogIndex := 0
      prevLogTerm := 0
      commitLogIndex := 0
      entries :=
        [{ term := 2, index := 1, data := .blank },
          { term := 2, index := 2, data := .proposal ⟨[1, 5]⟩ }] }

/-- Node `1` replicates a proposal to node `2` and commits its block. -/
def commitment : List Cluster.Move :=
  [does 1 (.schedule 5), does 1 (.replicate ⟨[2]⟩), does 1 .replicationOut,
    deliver 1 2 entriesReq,
    deliver 2 1 (.requestProposalReq { requestId := 1 }),
    deliver 1 2 (.requestProposalRes { requestId := 1, proposal := some proposal5 }),
    deliver 1 2 entriesReq,
    deliver 2 1 (.appendEntriesRes
      { requestId := 4, success := true, term := 2, lastLogIndex := 2, lastLogTerm := 2 }),
    does 1 .internal, does 1 (.replicationIn ⟨[2]⟩), does 1 (.replicationIn ⟨[2]⟩),
    does 1 .replicationOut, does 1 .internal]

def block5 : ConfirmedBlock where
  blockHash := ⟨[1, 5]⟩
  header := { genesisHeader with number := 1, timestamp := 5, parentHash := ⟨[0, 0]⟩,
                                 payloadExecutionGap := 1 }
  proof := { logIndex := 2, logTerm := 2, publicKey := ⟨[1]⟩, signature := ⟨[1]⟩ }

/-- Node `0`, still the leader of term `1`, learns the block of term `2` and goes
on with its replication. -/
def syncedLeader : List Cluster.Move :=
  [does 0 (.sync block5), does 0 .blockCommitted, does 0 (.replicate ⟨[1]⟩),
    does 0 .replicationOut]

end Sample

theorem election_safety_commitment :
    (Sample.cluster (Sample.twoElections ++ Sample.commitment)).OneLeader := by
  refine election_safety (Sample.reach_cluster ?_) ?_
  · decide +kernel
  · decide +kernel

/-- Nodes `0` and `1` both send entries as the leader of term `2`. -/
theorem not_oneLeader_syncedLeader :
    Sample.network3.Reach (fun C a _ event asked => C.Fresh a event asked)
      (fun _ _ _ _ => True)
      (Sample.cluster (Sample.twoElections ++ Sample.commitment ++ Sample.syncedLeader)) ∧
    ¬ (Sample.cluster
      (Sample.twoElections ++ Sample.commitment ++ Sample.syncedLeader)).OneLeader := by
  refine ⟨Sample.reach_cluster ?_, ?_⟩
  · decide +kernel
  · decide +kernel

end Finastate.Raft
