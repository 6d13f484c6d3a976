import Finastate.Raft.Run

/-!
# Terms and votes of a Raft node

The term on disk never decreases and a node votes once in a term, also when
the process stops between the write of a term and the write of the vote. The
only exception is the last term of 64 bits: a candidate counts on to `0`.
-/

namespace Finastate.Raft

/-- The term on disk. -/
def Db.term (db : Db) : Nat := db.currentTerm.getD 0

/-- The vote on disk. -/
def Db.vote (db : Db) : Option Address := db.currentVotedFor.getD none

/-- The term on disk never decreases. -/
def Stream.TermsSorted (s : Stream) : Prop :=
  s.history.Pairwise fun new old => old.db.term ≤ new.db.term

/-- The votes in one term are for one candidate. -/
def Stream.VotesOnce (s : Stream) : Prop :=
  ∀ r ∈ s.trace, ∀ r' ∈ s.trace, ∀ candidate lastLog candidate' lastLog',
    r.action = .grant candidate lastLog → r'.action = .grant candidate' lastLog' →
      r.storage.currentTerm = r'.storage.currentTerm → candidate = candidate'

/-- A new round of elections does not count past the last term. -/
def Stream.CountsOn (s : Stream) (event : Event) : Prop :=
  event = .election → s.role = .follower ∨ s.role = .candidate →
    s.storage.currentTerm + 1 < 2 ^ 64

/-- The term and the vote on disk cover all the votes of the past. -/
structure Voting (trace : List Record) (history : List Snapshot) (db : Db) : Prop where
  past : ∀ r ∈ trace, r.storage.currentTerm ≤ db.term
  voted : ∀ r ∈ trace, ∀ candidate, r.storage.currentVotedFor = some candidate →
    r.storage.currentTerm = db.term → db.vote = some candidate
  once : ∀ r ∈ trace, ∀ r' ∈ trace, ∀ candidate candidate',
    r.storage.currentVotedFor = some candidate → r'.storage.currentVotedFor = some candidate' →
      r.storage.currentTerm = r'.storage.currentTerm → candidate = candidate'
  grants : ∀ r ∈ trace, ∀ candidate lastLog, r.action = .grant candidate lastLog →
    r.storage.currentVotedFor = some candidate
  bound : ∀ snapshot ∈ history, snapshot.db.term ≤ db.term
  sorted : history.Pairwise fun new old => old.db.term ≤ new.db.term

namespace Voting

variable {trace : List Record} {history : List Snapshot} {db db' : Db}

/-- A write of a term that is not lower, with the vote of the past in it. -/
theorem write (h : Voting trace history db) {chain : Chain} {trace' : List Record}
    (hterm : db.term ≤ db'.term)
    (hvote : ∀ r ∈ trace, ∀ candidate, r.storage.currentVotedFor = some candidate →
      r.storage.currentTerm = db'.term → db'.vote = some candidate) :
    Voting trace ({ chain, db := db', trace := trace' } :: history) db' where
  past r hr := (h.past r hr).trans hterm
  voted := hvote
  once := h.once
  grants := h.grants
  bound := by
    intro old hold
    rcases List.mem_cons.1 hold with rfl | hold
    · exact le_rfl
    · exact (h.bound old hold).trans hterm
  sorted := List.pairwise_cons.2 ⟨fun old hold => (h.bound old hold).trans hterm, h.sorted⟩

theorem keep (h : Voting trace history db) {chain : Chain} {trace' : List Record}
    (hsame : db'.term = db.term ∧ db'.vote = db.vote) :
    Voting trace ({ chain, db := db', trace := trace' } :: history) db' := by
  refine h.write hsame.1.ge ?_
  rw [hsame.1, hsame.2]
  exact h.voted

/-- In a new term there are no votes yet. -/
theorem raise (h : Voting trace history db) {chain : Chain} {trace' : List Record}
    (hhigher : db.term < db'.term) :
    Voting trace ({ chain, db := db', trace := trace' } :: history) db' := by
  refine h.write hhigher.le fun r hr candidate _ hnow => ?_
  have hpast : r.storage.currentTerm ≤ db.term := h.past r hr
  omega

/-- An action is noted with the term and the vote on disk. -/
theorem note (h : Voting trace history db) {r : Record} (hterm : r.storage.currentTerm = db.term)
    (hvote : r.storage.currentVotedFor = db.vote)
    (hgrant : ∀ candidate lastLog, r.action = .grant candidate lastLog →
      r.storage.currentVotedFor = some candidate) : Voting (r :: trace) history db where
  past := by
    intro r' hr'
    rcases List.mem_cons.1 hr' with rfl | hr'
    · exact hterm.le
    · exact h.past r' hr'
  voted := by
    intro r' hr' candidate hcandidate hnow
    rcases List.mem_cons.1 hr' with rfl | hr'
    · exact hvote.symm.trans hcandidate
    · exact h.voted r' hr' candidate hcandidate hnow
  once := by
    -- a vote of the past in the same term is the one on disk
    have hpast : ∀ r' ∈ trace, ∀ candidate candidate', r.storage.currentVotedFor = some candidate →
        r'.storage.currentVotedFor = some candidate' →
          r'.storage.currentTerm = r.storage.currentTerm → candidate = candidate' := by
      intro r' hr' candidate candidate' hcandidate hcandidate' hsame
      have hvoted := h.voted r' hr' candidate' hcandidate' (hsame.trans hterm)
      rw [← hvote, hcandidate] at hvoted
      exact Option.some.inj hvoted
    intro r₁ hr₁ r₂ hr₂ candidate₁ candidate₂ hvote₁ hvote₂ hsame
    rcases List.mem_cons.1 hr₁ with rfl | hold₁
    · rcases List.mem_cons.1 hr₂ with rfl | hold₂
      · rw [hvote₁] at hvote₂
        exact Option.some.inj hvote₂
      · exact hpast r₂ hold₂ _ _ hvote₁ hvote₂ hsame.symm
    · rcases List.mem_cons.1 hr₂ with rfl | hold₂
      · exact (hpast r₁ hold₁ _ _ hvote₂ hvote₁ hsame).symm
      · exact h.once r₁ hold₁ r₂ hold₂ _ _ hvote₁ hvote₂ hsame
  grants := by
    intro r' hr' candidate lastLog haction
    rcases List.mem_cons.1 hr' with rfl | hr'
    · exact hgrant candidate lastLog haction
    · exact h.grants r' hr' candidate lastLog haction
  bound := h.bound
  sorted := h.sorted

end Voting

/-! ## Refreshing -/

namespace Storage

theorem term_fixCurrentTerm (db : Db) (baseLogTerm : Nat) :
    db.term < (fixCurrentTerm db baseLogTerm).term ∨ fixCurrentTerm db baseLogTerm = db := by
  unfold fixCurrentTerm
  split
  · next hlow => exact Or.inl hlow
  · exact Or.inr rfl

theorem term_fixCommitLogIndex (db : Db) (baseLogIndex : Nat) :
    (fixCommitLogIndex db baseLogIndex).term = db.term ∧
      (fixCommitLogIndex db baseLogIndex).vote = db.vote := by
  unfold fixCommitLogIndex
  split <;> exact ⟨rfl, rfl⟩

theorem term_fixLogs (db : Db) (baseLogIndex : Nat) :
    (fixLogs db baseLogIndex).term = db.term ∧ (fixLogs db baseLogIndex).vote = db.vote := by
  unfold fixLogs
  split <;> exact ⟨rfl, rfl⟩

theorem term_fixProposal (db : Db) :
    (fixProposal db).term = db.term ∧ (fixProposal db).vote = db.vote := by
  unfold fixProposal
  split <;> exact ⟨rfl, rfl⟩

end Storage

/-- Any number of the writes of `refresh`. -/
theorem Voting.refreshing {trace : List Record} {history : List Snapshot} {db db' : Db}
    (h : Voting trace history db) {chain : Chain} {before dbs : List Db}
    (hsome : Storage.refreshDbs chain db = before ++ db' :: dbs) :
    Voting trace ((db' :: dbs).map (fun db => ({ chain, db, trace } : Snapshot)) ++ history)
      db' := by
  have h₁ : Voting trace
      ({ chain, db := Storage.fixCurrentTerm db (Storage.basePosition chain).2, trace } ::
        history) (Storage.fixCurrentTerm db (Storage.basePosition chain).2) := by
    rcases Storage.term_fixCurrentTerm db (Storage.basePosition chain).2 with hhigher | hsame
    · exact h.raise hhigher
    · rw [hsame]
      exact h.keep ⟨rfl, rfl⟩
  have h₂ := @keep trace _ _ _ h₁ chain trace
    (Storage.term_fixCommitLogIndex _ (Storage.basePosition chain).1)
  have h₃ := @keep trace _ _ _ h₂ chain trace
    (Storage.term_fixLogs _ (Storage.basePosition chain).1)
  have h₄ := @keep trace _ _ _ h₃ chain trace (Storage.term_fixProposal _)
  unfold Storage.refreshDbs at hsome
  match before, hsome with
  | [], hsome =>
      obtain ⟨rfl, rfl⟩ := List.cons.inj hsome
      exact h₄
  | [_], hsome =>
      obtain ⟨rfl, rfl⟩ := List.cons.inj (List.cons.inj hsome).2
      exact h₃
  | [_, _], hsome =>
      obtain ⟨rfl, rfl⟩ := List.cons.inj (List.cons.inj (List.cons.inj hsome).2).2
      exact h₂
  | [_, _, _], hsome =>
      obtain ⟨rfl, rfl⟩ :=
        List.cons.inj (List.cons.inj (List.cons.inj (List.cons.inj hsome).2).2).2
      exact h₁
  | _ :: _ :: _ :: _ :: _, hsome => simp at hsome

/-! ## The invariant of a run -/

/-- The node works with the term and the vote on disk. -/
structure Core.Votes (c : Core) : Prop where
  term : c.storage.currentTerm = c.storage.db.term
  vote : c.storage.currentVotedFor = c.storage.db.vote
  voting : Voting c.trace c.history c.storage.db

namespace Core.Votes

variable {c : Core}

/-- A write of something else. -/
theorem write (h : c.Votes) {storage : Storage} (hterm : storage.currentTerm = c.storage.currentTerm)
    (hvote : storage.currentVotedFor = c.storage.currentVotedFor)
    (hdb : storage.db.term = c.storage.db.term ∧ storage.db.vote = c.storage.db.vote) :
    (c.write storage).Votes where
  term := hterm.trans (h.term.trans hdb.1.symm)
  vote := hvote.trans (h.vote.trans hdb.2.symm)
  voting := h.voting.keep hdb

theorem note (h : c.Votes) {action : Action}
    (hvote : ∀ candidate lastLog, action = .grant candidate lastLog →
      c.storage.currentVotedFor = some candidate) : (c.note action).Votes where
  term := h.term
  vote := h.vote
  voting := h.voting.note h.term h.vote hvote

theorem halfTerm (h : c.Votes) {term : Nat} (hhigher : c.storage.currentTerm < term) :
    Voting c.trace (c.writeTerm term).history (c.writeTerm term).storage.db := by
  have hhigher' : c.storage.db.term < term := h.term ▸ hhigher
  exact h.voting.raise hhigher'

theorem writeTermVote (h : c.Votes) {term : Nat} (vote : Option Address)
    (hhigher : c.storage.currentTerm < term) : (c.writeTermVote term vote).Votes where
  term := rfl
  vote := rfl
  voting := by
    refine (h.halfTerm hhigher).write le_rfl fun r hr candidate _ hnow => ?_
    have hpast : r.storage.currentTerm ≤ c.storage.db.term := h.voting.past r hr
    have hnow : r.storage.currentTerm = term := hnow
    rw [← h.term] at hpast
    omega

/-- The vote is written when there was none in the term. -/
theorem writeVote (h : c.Votes) (candidate : Address) (hnone : c.storage.currentVotedFor = none) :
    (c.write (c.storage.updateCurrentVotedFor (some candidate))).Votes where
  term := h.term
  vote := rfl
  voting := by
    refine h.voting.write le_rfl fun r hr candidate' hcandidate hnow => ?_
    have hvoted := h.voting.voted r hr candidate' hcandidate hnow
    rw [← h.vote, hnone] at hvoted
    exact nomatch hvoted

end Core.Votes

theorem Core.Raises.higher {c o : Core} {s : Stream} {event : Event} {term : Nat}
    (h : c.Raises o event term) (ho : o = s.core) (hcounts : s.CountsOn event) :
    c.storage.currentTerm < term := by
  rcases h with hhigher | ⟨htimeout, hbefore, hstorage, rfl⟩
  · exact hhigher
  · subst ho
    have hbound : c.storage.currentTerm + 1 < 2 ^ 64 := by
      rw [hstorage]
      exact hcounts htimeout hbefore
    rw [wrapAdd_of_lt hbound]
    omega

/-- A restart, from a database that covers the votes of the past. -/
theorem Core.votes_refresh {c : Core} (h : Voting c.trace c.history c.storage.db) :
    c.refresh.Votes where
  term := rfl
  vote := rfl
  voting := @Voting.refreshing _ _ _ _ h c.storage.chain [] _ rfl

theorem Core.votes_restarted {support : Support} {c : Core}
    (h : Voting c.trace c.history c.storage.db) : (c.restarted support).Votes := by
  obtain ⟨hterm, hvote, hvoting⟩ := Core.votes_refresh h
  exact ⟨hterm, hvote, hvoting⟩

variable {support : Support} {secretKey : SecretKey} {event : Event} {s : Stream} {c c' : Core}

theorem Act.votes (h : Act support event s.core c c') (hcounts : s.CountsOn event)
    (hc : c.Votes) : c'.Votes := by
  have hsame {c' : Core} (hstorage : c'.storage = c.storage) (htrace : c'.trace = c.trace)
      (hhistory : c'.history = c.history) : c'.Votes := by
    refine ⟨?_, ?_, ?_⟩
    · rw [hstorage, hc.term]
    · rw [hstorage, hc.vote]
    · rw [hstorage, htrace, hhistory]
      exact hc.voting
  cases h with
  | campaign timeout before storage trace state =>
      have hhigher : c.storage.currentTerm < wrapAdd 64 c.storage.currentTerm 1 :=
        Core.Raises.higher (Or.inr ⟨timeout, before, storage, rfl⟩) rfl hcounts
      refine Core.Votes.writeTermVote ?_ _ hhigher
      exact ⟨hc.term, hc.vote, hc.voting⟩
  | newTerm term calm higher => exact hc.writeTermVote none higher
  | vote address req receives term none_ calm => exact hc.writeVote address none_
  | grant candidate lastLog voted uptodate asked =>
      refine hc.note fun candidate' lastLog' hgrant => ?_
      obtain ⟨rfl, -⟩ := Action.grant.inj hgrant
      exact voted
  | lead role state enough =>
      have hnote : (c.note (.lead c.candidate.voters)).Votes := hc.note nofun
      exact ⟨hnote.term, hnote.vote, hnote.voting⟩
  | append data role state last =>
      refine Core.Votes.write (hc.note ?_) rfl rfl ⟨rfl, rfl⟩
      exact nofun
  | raise commitLogIndex role state majority higher =>
      have hnote : (c.note (.raise commitLogIndex)).Votes := hc.note nofun
      have hwrite : ((c.note (.raise commitLogIndex)).write
          (c.storage.updateCommitLogIndex commitLogIndex)).Votes := hnote.write rfl rfl ⟨rfl, rfl⟩
      exact ⟨hwrite.term, hwrite.vote, hwrite.voting⟩
  | follow address req receives start term =>
      have hnote : (c.note (.follow address req)).Votes := hc.note nofun
      have hwrite : ((c.note (.follow address req)).write
          (c.storage.updateCommitLogIndex req.commitLogIndex)).Votes :=
        hnote.write rfl rfl ⟨rfl, rfl⟩
      exact ⟨hwrite.term, hwrite.vote, hwrite.voting⟩
  | truncate address req follows logs exists_ next => exact hc.write rfl rfl ⟨rfl, rfl⟩
  | extend address req follows next logs => exact hc.write rfl rfl ⟨rfl, rfl⟩
  | proposal proposal => exact hc.write rfl rfl ⟨rfl, rfl⟩
  | report lastLog position => exact hc.note nofun
  | commit block start number found position =>
      refine Core.Votes.write (hc.note ?_) rfl rfl ⟨rfl, rfl⟩
      exact nofun
  | sync block learnt start blockHash => exact hc.write rfl rfl ⟨rfl, rfl⟩
  | refresh told start => exact Core.votes_refresh hc.voting
  | restart told => exact Core.votes_restarted hc.voting
  | _ => exact hsame rfl rfl rfl

theorem Halt.voting {d : Core} (h : Halt event s.core c d) (hcounts : s.CountsOn event)
    (hc : c.Votes) : Voting d.trace d.history d.storage.db := by
  cases h with
  | done => exact hc.voting
  | half term raises => exact hc.halfTerm (raises.higher rfl hcounts)
  | refreshing db dbs before some_ => exact hc.voting.refreshing some_

theorem CrashRun.votes {P : Oracle → Stream → Event → Prop} (h : CrashRun support secretKey P s)
    (hcounts : ∀ oracle s event, P oracle s event → s.CountsOn event) : s.core.Votes := by
  refine h.core_induction ?_ ?_ ?_ ?_
  · have hblank : Voting [] [] Db.empty :=
      ⟨by simp, by simp, by simp, by simp, by simp, .nil⟩
    exact @Core.votes_restarted support (Stream.blank support secretKey).core hblank
  · intro oracle s event hp _ c c' hact hc
    exact hact.votes (hcounts oracle s event hp) hc
  · intro oracle s event hp c d hhalt hc
    exact Core.votes_restarted (hhalt.voting (hcounts oracle s event hp) hc)
  · intro c _ _ hc
    exact ⟨hc.term, hc.vote, hc.voting⟩

/-- While no candidate counts past the last term, the term on disk never
decreases and the node votes once in a term, wherever the process stops. -/
theorem votes_across_crashes
    (h : CrashRun support secretKey (fun _ s event => s.CountsOn event) s) :
    s.TermsSorted ∧ s.VotesOnce := by
  have hvoting := (h.votes fun _ _ _ hcounts => hcounts).voting
  refine ⟨hvoting.sorted, ?_⟩
  intro r hr r' hr' candidate lastLog candidate' lastLog' hgrant hgrant' hsame
  exact hvoting.once r hr r' hr' candidate candidate' (hvoting.grants r hr _ _ hgrant)
    (hvoting.grants r' hr' _ _ hgrant') hsame

instance (s : Stream) (event : Event) : Decidable (s.CountsOn event) :=
  inferInstanceAs (Decidable (_ → _))

/-- Validators `1` and `2` ask for a vote in term `5`. -/
def Sample.twoCandidates : List Event :=
  register 1 ++ register 2 ++ [askVote 1 5 0 0, askVote 2 5 0 0]

/-- The process stops after the term of the first request is written, before the
vote; the vote in that term is free after the restart. -/
def Sample.stoppedVoter : Stream :=
  ((node 4 (register 1)).crash (Sample.support 4) oracle (askVote 1 5 0 0) 2).steps
    (Sample.support 4) oracle twoCandidates

theorem votes_across_crashes_stoppedVoter :
    (Sample.stoppedVoter.TermsSorted ∧ Sample.stoppedVoter.VotesOnce) ∧
      Sample.stoppedVoter.storage.currentTerm = 5 ∧
      Sample.stoppedVoter.storage.currentVotedFor = some ⟨[1]⟩ := by
  have hnode : Run (Sample.support 4) ⟨[0]⟩ (fun _ s event => s.CountsOn event)
      (Sample.node 4 (Sample.register 1)) :=
    Sample.run_validator (by decide +kernel)
  have hcrash := hnode.crashRun.crash Sample.oracle (Sample.askVote 1 5 0 0) (by decide +kernel) 2
  have hrun : CrashRun (Sample.support 4) ⟨[0]⟩ (fun _ s event => s.CountsOn event)
      Sample.stoppedVoter :=
    hcrash.steps (by decide +kernel)
  exact ⟨votes_across_crashes hrun, by decide +kernel⟩

/-- A request of the last term, after which the node starts a round of its own. -/
def Sample.lastTerm : List Event :=
  register 1 ++ [askVote 1 (2 ^ 64 - 1) 0 0, .election]

/-- The term on disk falls to `0`. -/
theorem not_termsSorted_lastTerm :
    CrashRun (Sample.support 4) ⟨[0]⟩ (fun _ _ _ => True) (Sample.node 4 Sample.lastTerm) ∧
      ¬ (Sample.node 4 Sample.lastTerm).TermsSorted := by
  refine ⟨(Sample.run_validator (by decide +kernel)).crashRun, ?_⟩
  unfold Stream.TermsSorted
  decide +kernel

end Finastate.Raft
