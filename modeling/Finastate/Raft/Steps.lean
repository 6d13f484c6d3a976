import Finastate.Raft.Refinement

/-!
# Steps of a Raft node are sequences of acts

The handlers of the states, the loop that starts the next state, and with them
every event of a node.
-/

namespace Finastate.Raft

variable {support : Support} {oracle : Oracle} {event : Event} {o : Core}

/-- The node leads, and its loop is the one of the leader. -/
structure Stream.Leads (s : Stream) : Prop where
  role : s.role = .leader
  state : s.state = .leader

theorem Stream.Leads.keeps {s s' : Stream} (h : s.Leads) (h' : s'.Leads) : s.Keeps s' :=
  ⟨h'.role.trans h.role.symm, Or.inl (h'.state.trans h.state.symm)⟩

namespace LeaderState

open Finastate.Raft.Stream (Keeps Leads)

theorem onMaybeCommit_spec {s : Stream} (hleads : s.Leads) :
    Writes support event o s.core (onMaybeCommit s).core ∧ (onMaybeCommit s).Leads := by
  unfold onMaybeCommit
  simp only
  split
  · next hhigher =>
    refine ⟨Writes.trans ?_ (Stream.writes_queue _ trivial), hleads.role, hleads.state⟩
    exact .of_act (.raise _ hleads.role hleads.state rfl hhigher) rfl
  · exact ⟨.refl, hleads⟩

theorem appendEntry_spec {s : Stream} (hleads : s.Leads)
    (hlast : s.storage.lastLog = o.storage.lastLog) (data : EntryData) :
    Writes support event o s.core (appendEntry s data).core ∧ (appendEntry s data).Leads := by
  have happend : Act support event o s.core _ := .append data hleads.role hleads.state hlast
  unfold appendEntry
  simp only
  split
  · next hempty =>
    have hnil : s.leader.replications = [] := List.isEmpty_iff.1 hempty
    have hnone (address : Address) :
        AssocMap.get? s.leader.replications address = none := by
      rw [hnil]
      rfl
    unfold onUpdateMatchIndex
    simp only [Stream.setStorage, Stream.note, hnone]
    obtain ⟨hwrites, hleads'⟩ := @onMaybeCommit_spec support event o
      ((s.note (.append
        { term := s.storage.currentTerm, index := wrapAdd 64 s.storage.lastLog.1 1, data })).setStorage
        (s.storage.appendLogEntries
          [{ term := s.storage.currentTerm, index := wrapAdd 64 s.storage.lastLog.1 1, data }]))
      ⟨hleads.role, hleads.state⟩
    exact ⟨(Writes.of_act happend rfl).trans hwrites, hleads'⟩
  · exact ⟨.of_act happend rfl, hleads.role, hleads.state⟩

theorem work_spec {s : Stream} (hleads : s.Leads)
    (hlast : s.storage.lastLog = o.storage.lastLog) (timestamp : Nat) :
    Writes support event o s.core (work support oracle s timestamp).core ∧
      (work support oracle s timestamp).Leads := by
  unfold work
  split
  · exact ⟨.refl, hleads⟩
  · split
    · exact ⟨.refl, hleads⟩
    · split
      · exact ⟨.refl, hleads⟩
      · next params _ commitBlockParams _ =>
        have happend {s' : Stream} (hwrites : Writes support event o s.core s'.core)
            (hleads' : s'.Leads) (hlast' : s'.storage.lastLog = o.storage.lastLog)
            (data : EntryData) :
            Writes support event o s.core (appendEntry s' data).core ∧
              (appendEntry s' data).Leads :=
          ⟨hwrites.trans (appendEntry_spec hleads' hlast' data).1,
            (@appendEntry_spec support event o s' hleads' hlast' data).2⟩
        simp only
        refine happend ?_ ?_ ?_ _
        · exact .of_act (.proposal (some _)) rfl
        · exact ⟨hleads.role, hleads.state⟩
        · exact hlast

/-- A message that a replication task can put out. -/
def Sound : ReplicationOutMessage → Prop
  | .updateState state => state = .follower
  | _ => True

theorem onReplicationOutMessage_spec {s : Stream} (hleads : s.Leads)
    {message : ReplicationOutMessage} {replicationOut : List ReplicationOutMessage}
    (hfirst : s.leader.replicationOut = message :: replicationOut) (hsound : Sound message) :
    let s' := onReplicationOutMessage { s with leader.replicationOut := replicationOut } message
    Moves support event o s.core s'.core ∧ Keeps s s' := by
  have hpop : Writes support event o s.core
      { s with leader.replicationOut := replicationOut }.core :=
    .of_act (.popOut message replicationOut hfirst) rfl
  have hleads' : { s with leader.replicationOut := replicationOut }.Leads :=
    ⟨hleads.role, hleads.state⟩
  cases message with
  | appendEntriesReq address req =>
      simp only [onReplicationOutMessage]
      split
      · next replication hfound =>
        cases hknown : AssocMap.get? s.knownValidators address with
        | some peerId =>
            simp only [Stream.appendEntries, Stream.requestTo, hknown, sendReplicationIn,
              Stream.request, hfound]
            exact ⟨Sends.moves (.of_act (.replicate address req replication replicationOut
              hleads.role hleads.state hfirst hfound peerId hknown) rfl), rfl, Or.inl rfl⟩
        | none =>
            simp only [Stream.appendEntries, Stream.requestTo, hknown, sendReplicationIn, hfound]
            exact ⟨Sends.moves (.of_act (.withhold address req replication replicationOut
              hfirst hfound) rfl), rfl, Or.inl rfl⟩
      · exact ⟨hpop.moves, rfl, Or.inl rfl⟩
  | updateMatchIndex address matchIndex =>
      simp only [onReplicationOutMessage, onUpdateMatchIndex]
      split
      · next replication hfound =>
        have hmatched : Writes support event o s.core
            { s with
              leader :=
                { replications := AssocMap.insert s.leader.replications address
                    { replication with matchIndex }
                  replicationOut } }.core :=
          .of_act (.matched address matchIndex replication replicationOut hfirst hfound) rfl
        obtain ⟨hwrites, hleads''⟩ := @onMaybeCommit_spec support event o
          { s with
            leader :=
              { replications := AssocMap.insert s.leader.replications address
                  { replication with matchIndex }
                replicationOut } } ⟨hleads.role, hleads.state⟩
        exact ⟨(hmatched.trans hwrites).moves, hleads.keeps hleads''⟩
      · obtain ⟨hwrites, hleads''⟩ := @onMaybeCommit_spec support event o _ hleads'
        exact ⟨(hpop.trans hwrites).moves, hleads.keeps hleads''⟩
  | updateState state =>
      have hfollower : state = .follower := hsound
      subst hfollower
      exact ⟨(hpop.trans (Stream.writes_follower _)).moves, rfl,
        Or.inr (Stream.state_updateState_follower _)⟩

theorem onAppendEntriesRes_spec {s : Stream} {address : Address} {res : AppendEntriesRes}
    {internal : List InternalMessage}
    (hfirst : s.internal = .appendEntriesRes address res :: internal) :
    let s' := onAppendEntriesRes { s with internal } address res
    Writes support event o s.core s'.core ∧ Keeps s s' := by
  simp only [onAppendEntriesRes, sendReplicationIn]
  split
  · next replication hfound =>
    exact ⟨.of_act (.deliver address res internal replication hfirst hfound) rfl, rfl,
      Or.inl rfl⟩
  · exact ⟨.of_act (.pop _ internal hfirst) rfl, rfl, Or.inl rfl⟩

theorem onAuthoritiesUpdated_spec {s : Stream} {authorities : List Address}
    {internal : List InternalMessage}
    (hfirst : s.internal = .authoritiesUpdated authorities :: internal) :
    let s' := onAuthoritiesUpdated { s with internal } authorities
    Writes support event o s.core s'.core ∧ Keeps s s' := by
  simp only [onAuthoritiesUpdated]
  split
  · have hpop : Writes support event o s.core { s with internal }.core :=
      .of_act (.pop _ internal hfirst) rfl
    exact ⟨hpop.trans (Stream.writes_observer _), rfl, Or.inr ⟨nofun, nofun⟩⟩
  · exact ⟨.of_act (.regroup _ authorities internal hfirst) rfl, rfl, Or.inl rfl⟩

/-- The start of the leader. -/
theorem start_spec {s : Stream} (hrole : s.role = .candidate) (hstate : s.state = .leader)
    (henough : s.candidate.votesNeeded ≤ s.candidate.votesGranted)
    (hlast : s.storage.lastLog = o.storage.lastLog) :
    Writes support event o s.core (start s).core ∧ (start s).Leads := by
  have hlead : Writes support event o s.core
      { addReplications
          { s.note (.lead s.candidate.voters) with role := .leader, leader := LeaderState.new }
          s.authorities with
        lastHeartbeat := false, currentLeader := some s.address }.core :=
    .of_act (.lead hrole hstate henough) rfl
  obtain ⟨hwrites, hleads⟩ := @appendEntry_spec support event o
    { addReplications
        { s.note (.lead s.candidate.voters) with role := .leader, leader := LeaderState.new }
        s.authorities with
      lastHeartbeat := false, currentLeader := some s.address } ⟨rfl, hstate⟩ hlast .blank
  exact ⟨hlead.trans hwrites, hleads⟩

end LeaderState

theorem ReplicationStream.update_spec {s : Stream} (hleads : s.Leads) (target : Address)
    {f : ReplicationStream → ReplicationStream × List ReplicationOutMessage}
    (hstep : (event = .replicate target ∧ f = ReplicationStream.replicate s.storage target) ∨
      (event = .replicationIn target ∧ f = ReplicationStream.onInMessage s.storage target)) :
    Writes support event o s.core (ReplicationStream.update s target f).core ∧
      s.Keeps (ReplicationStream.update s target f) := by
  unfold ReplicationStream.update
  split
  · next replication hfound =>
    refine ⟨.of_act (.task target replication _ _ hleads.role hleads.state hfound ?_) rfl, rfl, Or.inl rfl⟩
    rcases hstep with ⟨hevent, rfl⟩ | ⟨hevent, rfl⟩
    · exact Or.inl ⟨hevent, rfl⟩
    · exact Or.inr ⟨hevent, rfl⟩
  · exact ⟨.refl, .refl s⟩

/-! ## The candidate -/

/-- The candidate has the votes to lead, and its log is as the event has found it. -/
structure Stream.Wins (o : Core) (s : Stream) : Prop where
  role : s.role = .candidate
  state : s.state = .leader
  enough : s.candidate.votesNeeded ≤ s.candidate.votesGranted
  last : s.storage.lastLog = o.storage.lastLog

namespace CandidateState

open Finastate.Raft.Stream (Keeps Wins)

theorem onMaybeBecomeLeader_spec {s : Stream} (hrole : s.role = .candidate)
    (hstate : s.state = .candidate) (hlast : s.storage.lastLog = o.storage.lastLog) :
    Writes support event o s.core (onMaybeBecomeLeader s).core ∧
      ((onMaybeBecomeLeader s).Wins o ∨ onMaybeBecomeLeader s = s) := by
  unfold onMaybeBecomeLeader
  split
  · next henough =>
    have hleader : (s.updateState .leader).state = .leader := by simp [Stream.updateState]
    refine ⟨?_, Or.inl ⟨hrole, hleader, henough, hlast⟩⟩
    have hcore : (s.updateState .leader).core = { s.core with state := .leader } := by
      unfold Stream.core
      rw [hleader]
      rfl
    rw [hcore]
    exact .of_act (.win hrole hstate henough) rfl
  · exact ⟨.refl, Or.inr rfl⟩

/-- The vote requests of a round. The targets still to come have not been asked yet. -/
theorem requestVoteFrom_foldl (targets : List Address) (s : Stream)
    (hrole : s.role = .candidate) (hstate : s.state = .candidate) (htimeout : event = .election)
    (hmember : ∀ target ∈ targets, target ∈ s.authorities ∧ target ≠ s.address)
    (hfresh : s.authorities.Nodup → targets.Nodup ∧
      ∀ target ∈ targets, target ∉ s.candidate.asked.map Prod.snd) :
    let s' := targets.foldl (requestVoteFrom s.storage.currentTerm s.storage.lastLog) s
    Sends support event o s.core s'.core ∧ s'.role = .candidate ∧ s'.state = .candidate := by
  induction targets generalizing s with
  | nil => exact ⟨.refl, hrole, hstate⟩
  | cons target targets ih =>
      obtain ⟨htarget, hother⟩ := hmember target List.mem_cons_self
      have hrest : ∀ t ∈ targets, t ∈ s.authorities ∧ t ≠ s.address :=
        fun t ht => hmember t (List.mem_cons_of_mem _ ht)
      simp only [List.foldl_cons]
      cases hknown : AssocMap.get? s.knownValidators target with
      | none =>
          have hsame : requestVoteFrom s.storage.currentTerm s.storage.lastLog s target = s := by
            simp only [requestVoteFrom, Stream.requestVote, Stream.requestTo, hknown]
          rw [hsame]
          refine ih s hrole hstate hrest fun hnodup => ?_
          obtain ⟨htargets, hasked⟩ := hfresh hnodup
          exact ⟨(List.nodup_cons.1 htargets).2,
            fun t ht => hasked t (List.mem_cons_of_mem _ ht)⟩
      | some peerId =>
          have hask : Sends support event o s.core
              (requestVoteFrom s.storage.currentTerm s.storage.lastLog s target).core := by
            simp only [requestVoteFrom, Stream.requestVote, Stream.requestTo, hknown,
              Stream.request]
            exact .of_act (.ask target peerId hrole htimeout hstate htarget hother
              (fun hnodup => (hfresh hnodup).2 target List.mem_cons_self) hknown) rfl
          have hsame : (requestVoteFrom s.storage.currentTerm s.storage.lastLog s target).storage =
                s.storage ∧
              (requestVoteFrom s.storage.currentTerm s.storage.lastLog s target).role = s.role ∧
              (requestVoteFrom s.storage.currentTerm s.storage.lastLog s target).state = s.state ∧
              (requestVoteFrom s.storage.currentTerm s.storage.lastLog s target).authorities =
                s.authorities ∧
              (requestVoteFrom s.storage.currentTerm s.storage.lastLog s target).address =
                s.address ∧
              (requestVoteFrom s.storage.currentTerm s.storage.lastLog s target).candidate.asked =
                (s.nextRequestId, target) :: s.candidate.asked := by
            simp only [requestVoteFrom, Stream.requestVote, Stream.requestTo, hknown,
              Stream.request, and_self]
          generalize requestVoteFrom s.storage.currentTerm s.storage.lastLog s target = s'
            at hask hsame
          obtain ⟨hstorage, hrole', hstate', hauthorities, haddress, hasked'⟩ := hsame
          rw [← hstorage]
          obtain ⟨hsends, hend⟩ := ih s' (hrole'.trans hrole) (hstate'.trans hstate)
            (by rwa [hauthorities, haddress]) (by
              rw [hauthorities, hasked']
              intro hnodup
              obtain ⟨htargets, hasked⟩ := hfresh hnodup
              refine ⟨(List.nodup_cons.1 htargets).2, fun t ht => ?_⟩
              simp only [List.map_cons, List.mem_cons, not_or]
              refine ⟨?_, hasked t (List.mem_cons_of_mem _ ht)⟩
              rintro rfl
              exact (List.nodup_cons.1 htargets).1 ht)
          exact ⟨hask.trans hsends, hend⟩

theorem requestVote_spec {s : Stream} (htimeout : event = .election)
    (hrole : s.role = .candidate) (hstate : s.state = .candidate)
    (hasked : s.candidate.asked = []) (hlast : s.storage.lastLog = o.storage.lastLog) :
    (Writes support event o s.core (requestVote s).core ∧ (requestVote s).Wins o) ∨
      (Moves support event o s.core (requestVote s).core ∧ (requestVote s).role = .candidate ∧
        (requestVote s).state = .candidate) := by
  unfold requestVote
  simp only
  split
  · obtain ⟨hwrites, hwins | hsame⟩ := @onMaybeBecomeLeader_spec support event o s hrole hstate hlast
    · exact Or.inl ⟨hwrites, hwins⟩
    · rw [hsame]
      exact Or.inr ⟨Writes.refl.moves, hrole, hstate⟩
  · obtain ⟨hsends, hend⟩ := @requestVoteFrom_foldl support event o
      (s.authorities.filter fun address => address ≠ s.address) s hrole hstate htimeout
      (by simp) (fun hnodup => ⟨hnodup.filter _, by simp [hasked]⟩)
    exact Or.inr ⟨hsends.moves, hend⟩

/-- A round of the candidate: it asks the others, or wins alone. -/
theorem start_spec {s : Stream} (htimeout : event = .election)
    (hbefore : o.role = .follower ∨ o.role = .candidate) (hstorage : s.storage = o.storage)
    (htrace : s.trace = o.trace) (hstate : s.state = .candidate) :
    (Writes support event o s.core (start s).core ∧ (start s).Wins o) ∨
      (Moves support event o s.core (start s).core ∧ (start s).role = .candidate ∧
        (start s).state = .candidate) := by
  have hround {v : Stream} (hcampaign : Writes support event o s.core v.core)
      (hrole : v.role = .candidate) (hstate : v.state = .candidate)
      (hasked : v.candidate.asked = []) (hlast : v.storage.lastLog = o.storage.lastLog)
      (hvoted : v.storage.currentVotedFor = some v.address) :
      let s' := requestVote (v.note (.grant v.address v.storage.lastLog))
      (Writes support event o s.core s'.core ∧ s'.Wins o) ∨
        (Moves support event o s.core s'.core ∧ s'.role = .candidate ∧
          s'.state = .candidate) := by
    have hgrant : Writes support event o s.core
        (v.note (.grant v.address v.storage.lastLog)).core :=
      hcampaign.trans (.of_act (.grant v.address v.storage.lastLog hvoted ⟨le_rfl, le_rfl⟩
        (Or.inl ⟨htimeout, rfl, rfl⟩)) rfl)
    rcases @requestVote_spec support event o (v.note (.grant v.address v.storage.lastLog))
      htimeout hrole hstate hasked hlast with ⟨hwrites, hwins⟩ | ⟨hmoves, hend⟩
    · exact Or.inl ⟨hgrant.trans hwrites, hwins⟩
    · exact Or.inr ⟨Moves.after hgrant hmoves, hend⟩
  unfold start
  simp only
  refine hround ?_ ?_ ?_ ?_ ?_ ?_
  · exact .of_act (.campaign htimeout hbefore hstorage htrace hstate) rfl
  · rfl
  · exact hstate
  · rfl
  · have hlast : s.storage.lastLog = o.storage.lastLog := congrArg Storage.lastLog hstorage
    exact hlast
  · rfl

/-- The reply of a node that was asked for its vote. -/
theorem onResRequestVote_spec {s : Stream} {address : Address} {res : RequestVoteRes}
    {internal : List InternalMessage} (hrole : s.role = .candidate)
    (hstate : s.state = .candidate) (hfirst : s.internal = .requestVoteRes address res :: internal)
    (hlast : s.storage.lastLog = o.storage.lastLog) :
    let s' := onResRequestVote { s with internal } address res
    Writes support event o s.core s'.core ∧ (s'.Wins o ∨ s.Keeps s') := by
  have hpop : Writes support event o s.core { s with internal }.core :=
    .of_act (.pop _ internal hfirst) rfl
  have hforget : Writes support event o s.core
      { s with
        internal
        candidate.requests :=
          s.candidate.requests.filter fun id => id ≠ res.requestId }.core :=
    hpop.trans (.of_act (.forget res.requestId) rfl)
  have hmaybe {s' : Stream} (hwrites : Writes support event o s.core s'.core)
      (hrole' : s'.role = .candidate) (hstate' : s'.state = s.state)
      (hlast' : s'.storage.lastLog = o.storage.lastLog) :
      Writes support event o s.core (onMaybeBecomeLeader s').core ∧
        ((onMaybeBecomeLeader s').Wins o ∨ s.Keeps (onMaybeBecomeLeader s')) := by
    obtain ⟨hmore, hwins | hsame⟩ := @onMaybeBecomeLeader_spec support event o s' hrole'
      (hstate'.trans hstate) hlast'
    · exact ⟨hwrites.trans hmore, Or.inl hwins⟩
    · refine ⟨hwrites.trans hmore, Or.inr ?_⟩
      rw [hsame]
      exact ⟨hrole'.trans hrole.symm, Or.inl hstate'⟩
  simp only [onResRequestVote]
  split
  · exact ⟨hpop, Or.inr ⟨rfl, Or.inl rfl⟩⟩
  · next hopen =>
    split
    · next hhigher =>
      refine ⟨?_, Or.inr ⟨rfl, Or.inr (Stream.state_updateState_follower _)⟩⟩
      refine (hforget.trans (Stream.writes_follower _)).trans ?_
      exact .of_act (.newTerm res.term (Stream.state_updateState_follower _) hhigher) rfl
    · split
      · next hgranted =>
        split
        · next hmember =>
          refine hmaybe ?_ hrole rfl hlast
          exact .of_act (.count address res internal hrole hstate hfirst (not_not.1 hopen) hgranted
            hmember) rfl
        · exact hmaybe hforget hrole rfl hlast
      · exact ⟨hforget, Or.inr ⟨rfl, Or.inl rfl⟩⟩

end CandidateState

/-! ## The loop -/

namespace Stream

/-- What an event leaves for the start of the next state: nothing to start but a
state that neither leads nor campaigns, a won election, or a candidacy. -/
def Settles (support : Support) (event : Event) (o : Core) (s : Stream) (c : Core) : Prop :=
  (Moves support event o c s.core ∧
      (s.state = s.role ∨ (s.state ≠ .leader ∧ s.state ≠ .candidate))) ∨
    (Writes support event o c s.core ∧ s.Wins o) ∨
    (Writes support event o c s.core ∧ event = .election ∧
      (o.role = .follower ∨ o.role = .candidate) ∧ s.storage = o.storage ∧
      s.trace = o.trace ∧ s.state = .candidate)

theorem Keeps.settles {s s' : Stream} {c : Core} (hkeeps : s.Keeps s')
    (hstable : s.state = s.role) (hmoves : Moves support event o c s'.core) :
    s'.Settles support event o c := by
  refine Or.inl ⟨hmoves, hkeeps.state.imp ?_ id⟩
  intro hstate
  rw [hstate, hkeeps.role, hstable]

theorem enter_of_calm {s : Stream} (h : s.state ≠ .leader ∧ s.state ≠ .candidate) :
    Sends support event o s.core s.enter.core ∧ s.enter.state = s.enter.role := by
  unfold enter
  split
  · next hstable => exact ⟨.refl, hstable⟩
  · have hrest : Sends support event o s.core { s with role := s.state }.core :=
      .of_act (.rest h) rfl
    cases hstate : s.state with
    | leader => exact absurd hstate h.1
    | candidate => exact absurd hstate h.2
    | follower =>
        rw [hstate] at hrest
        exact ⟨hrest, rfl⟩
    | observer =>
        rw [hstate] at hrest
        exact ⟨hrest, rfl⟩
    | shutdown =>
        rw [hstate] at hrest
        exact ⟨hrest, rfl⟩

theorem Wins.start {s : Stream} {c : Core} (hwins : s.Wins o)
    (hwrites : Writes support event o c s.core) :
    Moves support event o c (LeaderState.start s).core ∧
      (LeaderState.start s).state = (LeaderState.start s).role := by
  obtain ⟨hstart, hleads⟩ :=
    @LeaderState.start_spec support event o s hwins.role hwins.state hwins.enough
      hwins.last
  exact ⟨(hwrites.trans hstart).moves, hleads.state.trans hleads.role.symm⟩

theorem Settles.enter {s : Stream} {c : Core} (h : s.Settles support event o c) :
    Moves support event o c s.enter.core ∧ s.enter.state = s.enter.role := by
  rcases h with ⟨hmoves, hstable | hcalm⟩ | ⟨hwrites, hwins⟩ |
    ⟨hwrites, htimeout, hbefore, hstorage, htrace, hstate⟩
  · unfold Stream.enter
    rw [if_pos hstable]
    exact ⟨hmoves, hstable⟩
  · obtain ⟨hsends, hstable⟩ := @enter_of_calm support event o s hcalm
    exact ⟨hmoves.sends hsends, hstable⟩
  · have hchanged : s.state ≠ s.role := by
      rw [hwins.state, hwins.role]
      exact nofun
    unfold Stream.enter
    rw [if_neg hchanged, hwins.state]
    exact hwins.start hwrites
  · unfold Stream.enter
    split
    · next hstable => exact ⟨hwrites.moves, hstable⟩
    · rw [hstate]
      simp only
      rcases @CandidateState.start_spec support event o s htimeout hbefore hstorage htrace
        hstate with
        ⟨hround, hwins⟩ | ⟨hround, hrole, hstate'⟩
      · rw [if_pos hwins.state]
        exact hwins.start (hwrites.trans hround)
      · have hnot : (CandidateState.start s).state ≠ .leader := by
          rw [hstate']
          exact nofun
        rw [if_neg hnot]
        exact ⟨Moves.after hwrites hround, hstate'.trans hrole.symm⟩

theorem onInternalMessage_spec (s : Stream) (message : InternalMessage)
    (hstart : s.storage = o.storage) :
    Writes support event o s.core (s.onInternalMessage support message).core ∧
      s.Keeps (s.onInternalMessage support message) := by
  cases message with
  | logUpdated => exact onLogUpdated_spec s hstart
  | requestVoteRes address res => exact ⟨.refl, .refl s⟩
  | appendEntriesRes address res => exact ⟨.refl, .refl s⟩
  | generate => exact ⟨.refl, .refl s⟩
  | authoritiesUpdated authorities => exact ⟨.refl, .refl s⟩

theorem handleInternal_spec {s : Stream} (hstable : s.state = s.role) {message : InternalMessage}
    {internal : List InternalMessage} (hfirst : s.internal = message :: internal) :
    ({ s with internal }.handleInternal support oracle message).Settles support event s.core
      s.core := by
  have hpop : Writes support event s.core s.core { s with internal }.core :=
    .of_act (.pop _ internal hfirst) rfl
  have hstep {s' : Stream} (hwrites : Writes support event s.core { s with internal }.core s'.core)
      (hkeeps : s.Keeps s') : s'.Settles support event s.core s.core :=
    hkeeps.settles hstable (hpop.trans hwrites).moves
  have hrest : Settles support event s.core
      ({ s with internal }.onInternalMessage support message) s.core := by
    obtain ⟨hwrites, hkeeps⟩ :=
      @onInternalMessage_spec support event s.core { s with internal } message rfl
    exact hstep hwrites ⟨hkeeps.role, hkeeps.state⟩
  unfold handleInternal
  split
  · obtain ⟨hwrites, hkeeps⟩ :=
      @LeaderState.onAppendEntriesRes_spec support event s.core s _ _ internal hfirst
    exact hkeeps.settles hstable hwrites.moves
  · next hrole =>
    have hleads : { s with internal }.Leads := ⟨hrole, hstable.trans hrole⟩
    obtain ⟨hwrites, hleads'⟩ :=
      @LeaderState.work_spec support oracle event s.core _ hleads rfl oracle.now
    exact hstep hwrites ⟨hleads'.role.trans hrole.symm,
      Or.inl (hleads'.state.trans hleads.state.symm)⟩
  · obtain ⟨hwrites, hkeeps⟩ :=
      @LeaderState.onAuthoritiesUpdated_spec support event s.core s _ internal hfirst
    exact hkeeps.settles hstable hwrites.moves
  · next hrole =>
    obtain ⟨hwrites, hwins | hkeeps⟩ :=
      @CandidateState.onResRequestVote_spec support event s.core s _ _ internal hrole
        (hstable.trans hrole) hfirst rfl
    · exact Or.inr (Or.inl ⟨hwrites, hwins⟩)
    · exact hkeeps.settles hstable hwrites.moves
  · unfold FollowerState.onAuthoritiesUpdated
    split
    · exact hstep (writes_observer _) ⟨rfl, Or.inr ⟨nofun, nofun⟩⟩
    · exact hstep .refl ⟨rfl, Or.inl rfl⟩
  · unfold FollowerState.onAuthoritiesUpdated
    split
    · exact hstep (writes_observer _) ⟨rfl, Or.inr ⟨nofun, nofun⟩⟩
    · exact hstep .refl ⟨rfl, Or.inl rfl⟩
  · unfold ObserverState.onAuthoritiesUpdated
    split
    · exact hstep (writes_follower _) ⟨rfl, Or.inr (state_updateState_follower _)⟩
    · exact hstep .refl ⟨rfl, Or.inl rfl⟩
  · exact hrest

theorem handle_spec {s : Stream} (hstable : s.state = s.role)
    (hsound : ∀ message ∈ s.leader.replicationOut, LeaderState.Sound message) (event : Event) :
    (s.handle support oracle event).Settles support event s.core s.core := by
  have hkept {s' : Stream} (hmoves : Moves support event s.core s.core s'.core)
      (hkeeps : s.Keeps s') : s'.Settles support event s.core s.core :=
    hkeeps.settles hstable hmoves
  have hsame : s.Settles support event s.core s.core := hkept Writes.refl.moves (.refl s)
  have hleads (hrole : s.role = .leader) : s.Leads := ⟨hrole, hstable.trans hrole⟩
  cases event with
  | election =>
      simp only [handle]
      split
      · next hrole =>
        exact Or.inr (Or.inr ⟨writes_candidate s (hstable.trans hrole) hrole, rfl, Or.inl hrole,
          rfl, rfl, by simp [updateState]⟩)
      · next hrole =>
        rcases @CandidateState.start_spec support .election s.core s rfl (Or.inr hrole) rfl rfl
          (hstable.trans hrole) with ⟨hwrites, hwins⟩ | ⟨hmoves, hrole', hstate'⟩
        · exact Or.inr (Or.inl ⟨hwrites, hwins⟩)
        · exact Or.inl ⟨hmoves, Or.inl (hstate'.trans hrole'.symm)⟩
      · exact hsame
  | schedule timestamp =>
      simp only [handle]
      split
      · next hrole =>
        obtain ⟨hwrites, hleads'⟩ := @LeaderState.work_spec support oracle (.schedule timestamp)
          s.core s (hleads hrole) rfl timestamp
        exact hkept hwrites.moves ((hleads hrole).keeps hleads')
      · exact hsame
  | internal =>
      simp only [handle]
      split
      · exact hsame
      · next hfirst => exact handleInternal_spec hstable hfirst
  | replicationOut =>
      simp only [handle]
      split
      · next message replicationOut hrole hfirst =>
        have hmessage : LeaderState.Sound message := by
          refine hsound message ?_
          rw [hfirst]
          exact List.mem_cons_self
        obtain ⟨hmoves, hkeeps⟩ := @LeaderState.onReplicationOutMessage_spec support
          .replicationOut s.core s (hleads hrole) message replicationOut hfirst hmessage
        exact hkept hmoves hkeeps
      · exact hsame
  | replicate target =>
      simp only [handle]
      split
      · next hrole =>
        obtain ⟨hwrites, hkeeps⟩ := @ReplicationStream.update_spec support (.replicate target)
          s.core s (hleads hrole) target _ (Or.inl ⟨rfl, rfl⟩)
        exact hkept hwrites.moves hkeeps
      · exact hsame
  | replicationIn target =>
      simp only [handle]
      split
      · next hrole =>
        obtain ⟨hwrites, hkeeps⟩ := @ReplicationStream.update_spec support (.replicationIn target)
          s.core s (hleads hrole) target _ (Or.inr ⟨rfl, rfl⟩)
        exact hkept hwrites.moves hkeeps
      · exact hsame
  | «open» peerId localNonce remoteNonce =>
      obtain ⟨hmoves, hkeeps⟩ := @onNetworkProtocolOpen_spec support
        (.open peerId localNonce remoteNonce) s.core s peerId localNonce remoteNonce
      exact hkept hmoves hkeeps
  | close peerId =>
      obtain ⟨hwrites, hkeeps⟩ :=
        @onNetworkProtocolClose_spec support (.close peerId) s.core s peerId
      exact hkept hwrites.moves hkeeps
  | message peerId message =>
      cases message with
      | none => exact hsame
      | some message =>
          obtain ⟨hmoves, hkeeps⟩ := @onNetworkMessage_spec support oracle
            (.message peerId (some message)) s peerId message rfl
          exact hkept hmoves hkeeps
  | blockCommitted =>
      simp only [handle]
      split
      · exact hsame
      · obtain ⟨hwrites, hkeeps⟩ := @onBlockCommitted_spec support .blockCommitted
          { s with notices := s.notices - 1 } rfl
        exact hkept hwrites.moves ⟨hkeeps.role, hkeeps.state⟩
  | generate =>
      have hqueue : s.core.Queues s.core .generate .generate := trivial
      exact hkept (writes_queue s hqueue).moves ⟨rfl, Or.inl rfl⟩
  | shutdown =>
      exact hkept (writes_shutdown s).moves ⟨rfl, Or.inr ⟨by rintro ⟨⟩, by rintro ⟨⟩⟩⟩
  | restart => exact hsame
  | sync block => exact hsame

theorem spawn_spec (s : Stream) :
    (s.spawn support).core = s.core.restarted support ∧
      (s.spawn support).state = (s.spawn support).role := by
  by_cases hmember : s.address ∈ support.getRaftAuthorities s.storage.chain s.storage.chain.length
  · simp [spawn, updateState, enter, core, Core.restarted, Core.refresh, refresh, Storage.refresh,
      hmember]
  · simp [spawn, updateState, enter, core, Core.restarted, Core.refresh, refresh, Storage.refresh,
      hmember]

theorem syncBlock_spec {block : ConfirmedBlock} (s : Stream) :
    Writes support (.sync block) s.core s.core (s.syncBlock support block).core ∧
      (s.syncBlock support block).state = s.state ∧
      (s.syncBlock support block).role = s.role := by
  unfold syncBlock
  split
  · split
    · next chain hcommit =>
      obtain ⟨-, rfl⟩ := number_of_commitBlock hcommit
      exact ⟨.of_act (.sync block rfl rfl _) rfl, rfl, rfl⟩
    · exact ⟨.refl, rfl, rfl⟩
  · exact ⟨.refl, rfl, rfl⟩

/-- Whatever event a node handles, its core moves by acts. -/
theorem step_spec {s : Stream} (hstable : s.state = s.role)
    (hsound : ∀ message ∈ s.leader.replicationOut, LeaderState.Sound message) (event : Event) :
    Moves support event s.core s.core (s.step support oracle event).core ∧
      (s.step support oracle event).state = (s.step support oracle event).role := by
  have hloop : Moves support event s.core s.core
      (if s.halted then s else (s.handle support oracle event).enter).core ∧
      (if s.halted then s else (s.handle support oracle event).enter).state =
        (if s.halted then s else (s.handle support oracle event).enter).role := by
    split
    · exact ⟨Writes.refl.moves, hstable⟩
    · exact (handle_spec hstable hsound event).enter
  unfold step
  split
  · obtain ⟨hcore, hstable'⟩ := @spawn_spec support s
    rw [hcore]
    exact ⟨Writes.moves (.of_act (.restart rfl) rfl), hstable'⟩
  · obtain ⟨hwrites, hstate, hrole⟩ := @syncBlock_spec support _ s
    exact ⟨hwrites.moves, by rw [hstate, hrole, hstable]⟩
  · exact hloop

end Stream

/-! ## The messages of the replication tasks -/

theorem ReplicationStream.sound_onInMessage (storage : Storage) (target : Address)
    (r : ReplicationStream) :
    ∀ message ∈ (r.onInMessage storage target).2, LeaderState.Sound message := by
  intro message hmem
  unfold onInMessage at hmem
  split at hmem
  · exact nomatch hmem
  · next first inbox _ =>
    cases first with
    | appendEntriesReqResult requestId =>
        cases requestId with
        | none => exact nomatch hmem
        | some requestId => exact nomatch hmem
    | appendEntriesRes res =>
        simp only [onAppendEntriesRes] at hmem
        split at hmem
        · exact nomatch hmem
        · split at hmem
          · rw [List.mem_singleton.1 hmem]
            rfl
          · split at hmem
            · rw [List.mem_singleton.1 hmem]
              trivial
            · exact nomatch hmem

theorem ReplicationStream.sound_replicate (storage : Storage) (target : Address)
    (r : ReplicationStream) :
    ∀ message ∈ (r.replicate storage target).2, LeaderState.Sound message := by
  intro message hmem
  rw [List.mem_singleton.1 hmem]
  trivial

def Core.Sound (c : Core) : Prop :=
  ∀ message ∈ c.leader.replicationOut, LeaderState.Sound message

theorem Act.sound {c c' : Core} (h : Act support event o c c') (hc : c.Sound) : c'.Sound := by
  have htail {message : ReplicationOutMessage} {replicationOut : List ReplicationOutMessage}
      (hfirst : c.leader.replicationOut = message :: replicationOut) :
      ∀ message ∈ replicationOut, LeaderState.Sound message := by
    intro message hmem
    refine hc message ?_
    rw [hfirst]
    exact List.mem_cons_of_mem _ hmem
  cases h with
  | task target replication stream messages role state found step =>
      intro message hmem
      rcases List.mem_append.1 hmem with hmem | hmem
      · exact hc message hmem
      · rcases step with ⟨-, hstep⟩ | ⟨-, hstep⟩
        · rw [(Prod.mk.inj hstep).2] at hmem
          exact ReplicationStream.sound_replicate _ _ _ message hmem
        · rw [(Prod.mk.inj hstep).2] at hmem
          exact ReplicationStream.sound_onInMessage _ _ _ message hmem
  | popOut message replicationOut first => exact htail first
  | matched address matchIndex replication replicationOut first found => exact htail first
  | replicate address req replication replicationOut role state first found peerId known =>
      exact htail first
  | withhold address req replication replicationOut first found => exact htail first
  | lead role state enough => exact nofun
  | restart told => exact nofun
  | _ => exact hc

theorem Acts.sound {c c' : Core} (h : Acts support event o c c') (hc : c.Sound) :
    c'.Sound := by
  induction h with
  | refl => exact hc
  | tail _ hact ih => exact hact.sound ih

end Finastate.Raft
