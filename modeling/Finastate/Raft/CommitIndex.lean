import Finastate.Raft.Logs

/-!
# The commit index of a Raft node

A follower takes the commit index of a request over before it looks at the log.
The commit index does not fall, and the entries up to it have been compared
with the log of the leader that it comes from, when every request is one that
the log check accepts, or announces only what earlier requests of the leader
were compared up to.
-/

namespace Finastate.Raft

/-- The commit index on disk. -/
def Db.commit (db : Db) : Nat := db.commitLogIndex.getD 0

/-- The commit index on disk never decreases. -/
def Stream.CommitsSorted (s : Stream) : Prop :=
  s.history.Pairwise fun new old => old.db.commit ≤ new.db.commit

/-- The entries of a log up to an index have been compared with the log of a leader. -/
def ComparedUpTo (compared : List ((Address × Nat) × Nat)) (leader : Address × Nat)
    (logs : List (Nat × Entry)) (index : Nat) : Prop :=
  ∀ p ∈ logs, p.1 ≤ index → ∃ mark ∈ compared, mark.1 = leader ∧ p.1 ≤ mark.2

instance (compared : List ((Address × Nat) × Nat)) (leader : Address × Nat)
    (logs : List (Nat × Entry)) (index : Nat) :
    Decidable (ComparedUpTo compared leader logs index) :=
  inferInstanceAs (Decidable (∀ p ∈ logs, _ → _))

/-- The entries up to the commit index have been compared with the log of the
leader that announced it. -/
def Core.Checked (c : Core) : Prop :=
  ∀ leader, c.announcedBy = some leader →
    ComparedUpTo c.compared leader c.storage.logs c.storage.commitLogIndex

/-- The log check accepts the request. -/
def Storage.Accepts (storage : Storage) (req : AppendEntriesReq) : Prop :=
  req.entries.head?.map Entry.index = some (wrapAdd 64 req.prevLogIndex 1) ∧
    ((req.prevLogIndex, req.prevLogTerm) = storage.lastLog ∨
      Stream.prevLogExists storage req = true)

instance (storage : Storage) (req : AppendEntriesReq) : Decidable (storage.Accepts req) :=
  inferInstanceAs (Decidable (_ ∧ _))

/-- The request of a leader in an event. -/
def Event.appendEntriesReq? : Event → Option (PeerId × AppendEntriesReq)
  | .message peerId (some (.appendEntriesReq req)) => some (peerId, req)
  | _ => none

/-- A request of a leader whose term is not over announces a commit index that is
not lower, and it is accepted or announces nothing that was not compared before. -/
def Stream.Announces (s : Stream) (event : Event) : Prop :=
  ∀ p ∈ event.appendEntriesReq?, s.storage.currentTerm ≤ p.2.term →
    ∀ address ∈ s.getPeerAddress p.1,
      s.storage.commitLogIndex ≤ p.2.commitLogIndex ∧
        (s.storage.Accepts p.2 ∨
          ComparedUpTo s.compared (address, p.2.term) s.storage.logs p.2.commitLogIndex)

instance (s : Stream) (event : Event) : Decidable (s.Announces event) :=
  inferInstanceAs (Decidable (∀ p ∈ event.appendEntriesReq?, _))

/-- The entry that an action appends. -/
def Action.append? : Action → Option Entry
  | .append entry => some entry
  | _ => none

/-- A leader appends above its commit index. -/
def Record.AppendsAbove (r : Record) : Prop :=
  ∀ entry ∈ r.action.append?, r.storage.commitLogIndex < entry.index

instance (r : Record) : Decidable r.AppendsAbove :=
  inferInstanceAs (Decidable (∀ entry ∈ r.action.append?, _))

/-! ## The commit index does not fall -/

/-- The commit index on disk is not below any of the past. -/
structure Committing (history : List Snapshot) (db : Db) : Prop where
  bound : ∀ snapshot ∈ history, snapshot.db.commit ≤ db.commit
  sorted : history.Pairwise fun new old => old.db.commit ≤ new.db.commit

theorem Committing.write {history : List Snapshot} {db db' : Db} (h : Committing history db)
    {chain : Chain} {trace : List Record} (hcommit : db.commit ≤ db'.commit) :
    Committing ({ chain, db := db', trace } :: history) db' where
  bound := by
    intro old hold
    rcases List.mem_cons.1 hold with rfl | hold
    · exact le_rfl
    · exact (h.bound old hold).trans hcommit
  sorted := List.pairwise_cons.2 ⟨fun old hold => (h.bound old hold).trans hcommit, h.sorted⟩

/-- A term and a vote are written beside the commit index. -/
theorem Committing.writeTermVote {c : Core} (h : Committing c.history c.storage.db) (term : Nat)
    (vote : Option Address) :
    Committing (c.writeTermVote term vote).history (c.writeTermVote term vote).storage.db := by
  have hterm : Committing (c.writeTerm term).history (c.writeTerm term).storage.db :=
    h.write le_rfl
  exact hterm.write le_rfl

namespace Storage

theorem commit_fixCurrentTerm (db : Db) (baseLogTerm : Nat) :
    (fixCurrentTerm db baseLogTerm).commit = db.commit := by
  unfold fixCurrentTerm
  split <;> rfl

theorem commit_fixProposal (db : Db) : (fixProposal db).commit = db.commit := by
  unfold fixProposal
  split <;> rfl

theorem commitLogIndex_refresh (chain : Chain) (db : Db) :
    (refresh chain db).commitLogIndex = max db.commit (basePosition chain).1 := by
  have hcommit : (fixProposal (fixLogs (fixCommitLogIndex
      (fixCurrentTerm db (basePosition chain).2) (basePosition chain).1)
      (basePosition chain).1)).commit = max db.commit (basePosition chain).1 := by
    rw [commit_fixProposal, Db.commit, commitLogIndex_fixLogs, commitLogIndex_fixCommitLogIndex]
    exact congrArg (max · _) (commit_fixCurrentTerm db _)
  exact hcommit

end Storage

theorem Committing.refresh {c : Core} (h : Committing c.history c.storage.db) :
    Committing c.refresh.history c.refresh.storage.db := by
  have h₁ := @Committing.write _ _ _ h c.storage.chain c.trace
    (Storage.commit_fixCurrentTerm c.storage.db (Storage.basePosition c.storage.chain).2).ge
  have h₂ := @Committing.write _ _ _ h₁ c.storage.chain c.trace
    (le_of_le_of_eq (le_max_left _ _) (Storage.commitLogIndex_fixCommitLogIndex _
      (Storage.basePosition c.storage.chain).1).symm)
  have h₃ := @Committing.write _ _ _ h₂ c.storage.chain c.trace
    (congrArg (Option.getD · 0) (Storage.commitLogIndex_fixLogs _
      (Storage.basePosition c.storage.chain).1)).ge
  exact @Committing.write _ _ _ h₃ c.storage.chain c.trace (Storage.commit_fixProposal _).ge

variable {support : Support} {secretKey : SecretKey} {oracle : Oracle} {event : Event}
  {s : Stream} {c c' : Core}

theorem Act.committing (h : Act support event s.core c c') (hannounces : s.Announces event)
    (hfiled : c.storage.Filed) (hc : Committing c.history c.storage.db) :
    Committing c'.history c'.storage.db := by
  have hcommit : c.storage.commitLogIndex = c.storage.db.commit := hfiled.commitLogIndex
  cases h with
  | campaign timeout before storage trace state => exact Committing.writeTermVote hc _ _
  | newTerm term calm higher => exact Committing.writeTermVote hc _ _
  | vote address req receives term none_ calm => exact hc.write le_rfl
  | append data role state last => exact hc.write le_rfl
  | raise commitLogIndex role state majority higher =>
      refine hc.write ?_
      rw [← hcommit]
      change _ ≤ commitLogIndex
      rw [majority]
      exact le_max_right _ _
  | follow address req receives start term =>
      obtain ⟨peerId, rfl, hpeer⟩ := receives
      subst start
      have hannounced := (hannounces _ rfl term address hpeer).1
      refine hc.write ?_
      rw [← hcommit]
      exact hannounced
  | truncate address req follows logs exists_ next => exact hc.write le_rfl
  | extend address req follows next logs => exact hc.write le_rfl
  | proposal proposal => exact hc.write le_rfl
  | commit block start number found position => exact hc.write le_rfl
  | sync block learnt start blockHash => exact hc.write le_rfl
  | refresh told start => exact hc.refresh
  | restart told => exact hc.refresh
  | _ => exact hc

/-! ## The entries up to the commit index have been compared -/

/-- All entries have been compared with the log of the leader that announced the
commit index. -/
def Stream.Covered (s : Stream) (leader : Address × Nat) : Prop :=
  s.announcedBy = some leader ∧
    ∀ p ∈ s.storage.logs, ∃ mark ∈ s.compared, mark.1 = leader ∧ p.1 ≤ mark.2

theorem Stream.Covered.checked {leader : Address × Nat} (h : s.Covered leader) :
    s.core.Checked := by
  intro leader' hleader p hp _
  have hsame : some leader = some leader' := h.1.symm.trans hleader
  rw [← Option.some.inj hsame]
  exact h.2 p hp

theorem Stream.SameLog.covered {s' : Stream} {leader : Address × Nat} (hsame : SameLog s s')
    (h : s.Covered leader) : s'.Covered leader := by
  unfold Covered
  rw [hsame.announcedBy, hsame.logs, hsame.compared]
  exact h

/-- The keys of a log are the indices of its entries, in their order. -/
structure Keyed (logs : List (Nat × Entry)) : Prop where
  sorted : SortedMap.Sorted logs
  keys : ∀ p ∈ logs, p.1 = p.2.index

theorem Keyed.filter {logs : List (Nat × Entry)} (h : Keyed logs) (p : Nat × Entry → Bool) :
    Keyed (logs.filter p) :=
  ⟨h.sorted.filter _, fun q hq => h.keys q (List.mem_filter.1 hq).1⟩

theorem Keyed.extend {logs : List (Nat × Entry)} (h : Keyed logs) (entries : List Entry) :
    Keyed (SortedMap.extend logs (entries.map fun e => (e.index, e))) := by
  refine ⟨h.sorted.extend _, fun p hp => ?_⟩
  rcases SortedMap.mem_extend hp with hp | hp
  · exact h.keys p hp
  · obtain ⟨e, _, rfl⟩ := List.mem_map.1 hp
    rfl

/-- No entry is above the last one. -/
theorem Keyed.le_lastLog {storage : Storage} (h : Keyed storage.logs) {p : Nat × Entry}
    (hp : p ∈ storage.logs) : p.1 ≤ storage.lastLog.1 := by
  unfold Storage.lastLog
  cases hlast : storage.logs.getLast? with
  | none =>
      rw [List.getLast?_eq_none_iff.1 hlast] at hp
      exact nomatch hp
  | some q =>
      obtain ⟨front, hfront⟩ := List.getLast?_eq_some_iff.1 hlast
      have hsorted := h.sorted
      change p.1 ≤ q.2.index
      rw [← h.keys q (List.mem_of_getLast? hlast)]
      rw [hfront] at hp hsorted
      rcases List.mem_append.1 hp with hp | hp
      · exact ((List.pairwise_append.1 hsorted).2.2 p hp q List.mem_cons_self).le
      · rw [List.mem_singleton.1 hp]

namespace Stream

theorem covered_compare {address : Address} {req : AppendEntriesReq} {index : Nat}
    (hannounced : s.announcedBy = some (address, req.term))
    (hbound : ∀ p ∈ s.storage.logs, p.1 ≤ index) :
    (s.compare (address, req.term) index).Covered (address, req.term) :=
  ⟨hannounced, fun p hp => ⟨_, List.mem_cons_self, rfl, hbound p hp⟩⟩

theorem covered_storeEntries {address : Address} {req : AppendEntriesReq}
    (hannounced : s.announcedBy = some (address, req.term)) (hkeyed : Keyed s.storage.logs) :
    (s.storeEntries address req).1.Covered (address, req.term) := by
  have hstored : Keyed (s.storage.appendLogEntries req.entries).logs := hkeyed.extend req.entries
  have hbound : ∀ p ∈ (s.storage.appendLogEntries req.entries).logs,
      p.1 ≤ (s.storage.appendLogEntries req.entries).lastLog.1 := fun p hp => hstored.le_lastLog hp
  exact @covered_compare
    ((s.setStorage (s.storage.appendLogEntries req.entries)).forgetFrom req.entries) address req _
    hannounced hbound

theorem sameLog_awaitProposal {address : Address} {req : AppendEntriesReq} :
    SameLog s (s.awaitProposal oracle address req).1 := by
  have hsame : SameLog s (s.requestProposal address { requestId := 0 }).1 :=
    sameLog_requestTo _
  unfold awaitProposal
  simp only
  split
  · exact { hsame with }
  · exact { SameLog.refl s with }

theorem covered_performAppendEntries {address : Address} {req : AppendEntriesReq}
    (hcovered : s.Covered (address, req.term)) (hkeyed : Keyed s.storage.logs) :
    (s.performAppendEntries support oracle address req).1.Covered (address, req.term) := by
  unfold performAppendEntries
  split
  · exact covered_storeEntries hcovered.1 hkeyed
  · next blockHash _ =>
    have hsame : SameLog s ((s.clearDiscordant blockHash).verifyPending support oracle).1 :=
      (sameLog_clearDiscordant s blockHash).trans (sameLog_verifyPending _)
    rcases hpending : (s.clearDiscordant blockHash).verifyPending support oracle with ⟨s', r⟩
    rw [hpending] at hsame
    have hcovered' : s'.Covered (address, req.term) := hsame.covered hcovered
    have hlogs : s'.storage.logs = s.storage.logs := hsame.logs
    cases r with
    | error e => exact hcovered'
    | ok u =>
        simp only
        split
        · exact covered_storeEntries hcovered'.1 (hlogs ▸ hkeyed)
        · exact sameLog_awaitProposal.covered hcovered'

/-- What following a leader leaves of the log. -/
theorem followLeader_log (s : Stream) (address : Address) (req : AppendEntriesReq) :
    let s' := s.followLeader address req
    s'.storage.logs = s.storage.logs ∧ s'.storage.baseLogIndex = s.storage.baseLogIndex ∧
      s'.storage.baseLogTerm = s.storage.baseLogTerm ∧
      s'.storage.commitLogIndex = req.commitLogIndex ∧
      s'.announcedBy = some (address, req.term) ∧ s'.compared = s.compared := by
  unfold followLeader
  simp only
  split <;> exact ⟨rfl, rfl, rfl, rfl, rfl, rfl⟩

theorem checked_onReqAppendEntries {address : Address} {req : AppendEntriesReq}
    (hannounced : s.storage.currentTerm ≤ req.term → s.storage.Accepts req ∨
      ComparedUpTo s.compared (address, req.term) s.storage.logs req.commitLogIndex)
    (hkeyed : Keyed s.storage.logs) (hs : s.core.Checked) :
    (s.onReqAppendEntries support oracle address req).1.core.Checked := by
  unfold onReqAppendEntries
  simp only
  split
  · exact hs
  · next hterm =>
    obtain ⟨hlogs, hindex, hbase, hcommit, hleader, hcompared⟩ := followLeader_log s address req
    generalize s.followLeader address req = s' at hlogs hindex hbase hcommit hleader hcompared
    have hlast : s'.storage.lastLog = s.storage.lastLog := by
      unfold Storage.lastLog
      rw [hlogs, hindex, hbase]
    have hexists : prevLogExists s'.storage req = prevLogExists s.storage req := by
      unfold prevLogExists Storage.getLogEntries
      rw [hlogs, hindex, hbase]
    have hkeyed' : Keyed s'.storage.logs := hlogs ▸ hkeyed
    -- a request that is not accepted announces what was compared before
    have hrejected (hnot : ¬ s.storage.Accepts req) : s'.core.Checked := by
      intro leader hleader'
      have hsame : some (address, req.term) = some leader := hleader.symm.trans hleader'
      have hupTo := (hannounced (not_lt.1 hterm)).resolve_left hnot
      rw [← Option.some.inj hsame]
      change ComparedUpTo s'.compared _ s'.storage.logs s'.storage.commitLogIndex
      rw [hlogs, hcommit, hcompared]
      exact hupTo
    split
    · next hnil => exact hrejected fun haccepts => by simp [Storage.Accepts, hnil] at haccepts
    · next entry entries hentries =>
      split
      · next hother =>
        refine hrejected fun haccepts => hother ?_
        have hfirst := haccepts.1
        rw [hentries] at hfirst
        exact Option.some.inj hfirst
      · split
        · next hprev =>
          have hbound : ∀ p ∈ s'.storage.logs, p.1 ≤ req.prevLogIndex := by
            have hend : req.prevLogIndex = s'.storage.lastLog.1 := congrArg Prod.fst hprev
            rw [hend]
            exact fun p hp => hkeyed'.le_lastLog hp
          exact (covered_performAppendEntries (covered_compare hleader hbound) hkeyed').checked
        · next hprev =>
          split
          · next hmissing =>
            refine hrejected fun haccepts => ?_
            rw [hexists] at hmissing
            rw [hlast] at hprev
            rcases haccepts.2 with hsame | hthere
            · exact hprev hsame
            · simp [hthere] at hmissing
          · -- the log is cut after the previous entry
            have hroom : ∀ p ∈ (s'.storage.deleteLogEntries
                (wrapAdd 64 req.prevLogIndex 1)).logs, p.1 ≤ req.prevLogIndex := by
              intro p hp
              have hcut : p.1 < wrapAdd 64 req.prevLogIndex 1 := by
                simpa using (List.mem_filter.1 hp).2
              have hwrap : wrapAdd 64 req.prevLogIndex 1 ≤ req.prevLogIndex + 1 :=
                Nat.mod_le _ _
              omega
            have hcut : Keyed (s'.storage.deleteLogEntries
                (wrapAdd 64 req.prevLogIndex 1)).logs := hkeyed'.filter _
            have hcovered : ((s'.setStorage (s'.storage.deleteLogEntries
                (wrapAdd 64 req.prevLogIndex 1))).compare (address, req.term)
                  req.prevLogIndex).Covered (address, req.term) :=
              covered_compare hleader hroom
            exact (covered_performAppendEntries hcovered hcut).checked

/-- The start of a state that neither leads nor campaigns does not touch the log. -/
theorem checked_enter (h : s.state = s.role ∨ (s.state ≠ .leader ∧ s.state ≠ .candidate))
    (hs : s.core.Checked) : s.enter.core.Checked := by
  unfold enter
  split
  · exact hs
  · next hchanged =>
    obtain ⟨hleader, hcandidate⟩ := h.resolve_left hchanged
    split
    · next hstate => exact absurd hstate hleader
    · next hstate => exact absurd hstate hcandidate
    · exact hs
    · exact hs
    · exact hs

/-- A request of a leader keeps the entries up to the commit index compared. -/
theorem checked_step_appendEntriesReq {peerId : PeerId} {req : AppendEntriesReq}
    {address : Address} (hstable : s.state = s.role)
    (hpeer : s.getPeerAddress peerId = some address)
    (hannounces : s.Announces (.message peerId (some (.appendEntriesReq req))))
    (hkeyed : Keyed s.storage.logs) (hs : s.core.Checked) :
    (s.step support oracle (.message peerId (some (.appendEntriesReq req)))).core.Checked := by
  have hhandled := @checked_onReqAppendEntries support oracle s address req
    (fun hterm => (hannounces _ rfl hterm address hpeer).2) hkeyed hs
  obtain ⟨-, -, -, hkeeps⟩ := @onReqAppendEntries_spec support oracle
    (.message peerId (some (.appendEntriesReq req))) s address req ⟨peerId, rfl, hpeer⟩
  simp only [step, handle, onNetworkMessage, hpeer]
  split
  · exact hs
  · rcases hresult : s.onReqAppendEntries support oracle address req with ⟨s', r⟩
    rw [hresult] at hhandled hkeeps
    have hnext : s'.state = s'.role ∨ (s'.state ≠ .leader ∧ s'.state ≠ .candidate) := by
      refine hkeeps.state.imp (fun hstate => ?_) id
      rw [hstate, hkeeps.role, hstable]
    cases r with
    | error e => exact checked_enter hnext hhandled
    | ok res => exact checked_enter (s := (s'.sendInternal .logUpdated).response peerId _) hnext hhandled

end Stream

/-- Events other than the request of a leader. -/
theorem Act.checked {o : Core} (h : Act support event o c c')
    (hother : ∀ address req, ¬ o.Receives event address (.appendEntriesReq req))
    (happends : ∀ r ∈ c'.trace, r.AppendsAbove) (hfiled : c.storage.Filed) (hc : c.Checked) :
    c'.Checked := by
  have hrefresh : ∀ leader, c.announcedBy = some leader →
      ComparedUpTo c.compared leader (Storage.refresh c.storage.chain c.storage.db).logs
        (Storage.refresh c.storage.chain c.storage.db).commitLogIndex := by
    intro leader hleader p hp hcommit
    rw [(Storage.refresh_fields c.storage.chain c.storage.db).1, ← hfiled.logs] at hp
    obtain ⟨hp, habove⟩ := List.mem_filter.1 hp
    rw [Storage.commitLogIndex_refresh] at hcommit
    have habove : (Storage.basePosition c.storage.chain).1 < p.1 := by simpa using habove
    refine hc leader hleader p hp ?_
    rw [hfiled.commitLogIndex]
    exact (le_sup_iff.1 hcommit).resolve_right (not_le.2 habove)
  cases h with
  | append data role state last =>
      intro leader hleader p hp hcommit
      rcases SortedMap.mem_extend hp with hp | hp
      · exact hc leader hleader p hp hcommit
      · have habove : c.storage.commitLogIndex < wrapAdd 64 c.storage.lastLog.1 1 :=
          happends _ List.mem_cons_self _ rfl
        have hp : p = _ := List.mem_singleton.1 hp
        rw [hp] at hcommit
        exact absurd hcommit (not_le.2 habove)
  | raise commitLogIndex role state majority higher => exact nofun
  | follow address req receives start term => exact absurd receives (hother address req)
  | truncate address req follows logs exists_ next => exact absurd follows.1 (hother address req)
  | compare address req index kept follows => exact absurd follows.1 (hother address req)
  | extend address req follows next logs => exact absurd follows.1 (hother address req)
  | refresh told start => exact hrefresh
  | restart told => exact hrefresh
  | _ => exact hc

theorem Acts.checked {o : Core} (h : Acts support event o c c')
    (hother : ∀ address req, ¬ o.Receives event address (.appendEntriesReq req))
    (happends : ∀ r ∈ c'.trace, r.AppendsAbove) (hfiled : c.storage.Filed) (hc : c.Checked) :
    c'.Checked := by
  -- the log stays filed along the acts, and the trace only grows
  have hboth : c'.storage.Filed ∧ c'.Checked := by
    induction h with
    | refl => exact ⟨hfiled, hc⟩
    | tail _ hact ih =>
        obtain ⟨hfiled', hchecked⟩ := ih fun r hr => happends r (hact.trace_subset hr)
        exact ⟨hact.filed hfiled', hact.checked hother happends hfiled' hchecked⟩
  exact hboth.2

theorem Run.checked (h : Run support secretKey (fun _ s event => s.Announces event) s)
    (happends : ∀ r ∈ s.trace, r.AppendsAbove) : s.core.Checked := by
  induction h with
  | start =>
      rw [(Stream.spawn_spec _).1]
      exact nofun
  | @step s hrun oracle event hp ih =>
      have hfiled := hrun.crashRun.filed
      obtain ⟨hmoves, -⟩ :=
        @Stream.step_spec support oracle s hrun.stable.state hrun.stable.sound event
      have hbefore : ∀ r ∈ s.trace, r.AppendsAbove :=
        fun r hr => happends r (hmoves.acts.trace_subset hr)
      by_cases hreceives : ∃ address req, s.core.Receives event address (.appendEntriesReq req)
      · obtain ⟨address, req, peerId, rfl, hpeer⟩ := hreceives
        exact Stream.checked_step_appendEntriesReq hrun.stable.state hpeer hp
          ⟨hfiled.sorted, hfiled.keys⟩ (ih hbefore)
      · refine hmoves.acts.checked (fun address req h => hreceives ⟨address, req, h⟩) happends
          hfiled (ih hbefore)

/-- In a run whose requests announce what is compared, and whose leader appends
above its commit index, the commit index never decreases and the entries up to
it have been compared with the log of the leader that announced it. -/
theorem commit_index_checked
    (h : Run support secretKey (fun _ s event => s.Announces event) s)
    (happends : ∀ r ∈ s.trace, r.AppendsAbove) : s.CommitsSorted ∧ s.core.Checked := by
  have hcommitting : s.core.storage.Filed ∧ Committing s.core.history s.core.storage.db := by
    refine @Run.core_induction support secretKey _
      (fun c => c.storage.Filed ∧ Committing c.history c.storage.db) s h ?_ ?_
    · have hblank : Committing [] Db.empty := ⟨by simp, .nil⟩
      exact ⟨(filed_blank support secretKey).refresh,
        @Committing.refresh (Stream.blank support secretKey).core hblank⟩
    · intro _ s event hannounces _ c c' hact ⟨hfiled, hc⟩
      exact ⟨hact.filed hfiled, hact.committing hannounces hfiled hc⟩
  exact ⟨hcommitting.2.sorted, h.checked happends⟩

instance (c : Core) : Decidable c.Checked :=
  inferInstanceAs (Decidable (∀ leader, c.announcedBy = some leader → _))

/-- A request of validator `key` as the leader of a term, with an entry of that
term at index `1` if there is one. -/
def Sample.lead (key : UInt8) (term commitLogIndex : Nat) (entry : Bool) : Event :=
  .message [key] (some (.appendEntriesReq
    { requestId := 0, term, prevLogIndex := 0, prevLogTerm := 0, commitLogIndex
      entries := if entry then [{ term, index := 1, data := .blank }] else [] }))

/-- Validator `1` sends an entry and then commits it. -/
def Sample.announced : List Event := register 1 ++ [lead 1 1 0 true, lead 1 1 1 false]

theorem commit_index_checked_announced :
    ((Sample.node 4 Sample.announced).CommitsSorted ∧
        (Sample.node 4 Sample.announced).core.Checked) ∧
      (Sample.node 4 Sample.announced).storage.commitLogIndex = 1 ∧
      (Sample.node 4 Sample.announced).storage.logs.length = 1 := by
  have hrun : Run (Sample.support 4) ⟨[0]⟩ (fun _ s event => s.Announces event)
      (Sample.node 4 Sample.announced) :=
    Sample.run_validator (by decide +kernel)
  exact ⟨commit_index_checked hrun (by decide +kernel), by decide +kernel⟩

/-- The entry of validator `1` is never compared with the log of validator `2`,
whose requests announce the commit index `1`. -/
def Sample.unchecked : List Event :=
  register 1 ++ register 2 ++ [lead 1 1 0 true, lead 2 2 1 false]

/-- Then validator `2` announces the commit index `0`. -/
def Sample.fallen : List Event := unchecked ++ [lead 2 2 0 false]

theorem not_checked_unchecked :
    (Run (Sample.support 4) ⟨[0]⟩ (fun _ _ _ => True) (Sample.node 4 Sample.unchecked) ∧
        (Sample.node 4 Sample.unchecked).role = .follower ∧
        ¬ (Sample.node 4 Sample.unchecked).core.Checked) ∧
      Run (Sample.support 4) ⟨[0]⟩ (fun _ _ _ => True) (Sample.node 4 Sample.fallen) ∧
        ¬ (Sample.node 4 Sample.fallen).CommitsSorted := by
  refine ⟨⟨Sample.run_validator (by decide +kernel), by decide +kernel⟩,
    Sample.run_validator (by decide +kernel), ?_⟩
  unfold Stream.CommitsSorted
  decide +kernel

end Finastate.Raft
