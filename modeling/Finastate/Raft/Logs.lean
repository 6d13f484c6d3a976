import Finastate.Raft.Votes

/-!
# The log of a Raft node

What is on disk is what the node works with: refreshing the storage, or opening
it again, moves it to the base of the newest block and drops a proposal that no
entry is for, and changes nothing else. The keys of the log are the indices of
its entries. The log has no gaps above the base and its terms rise up to the
current term, as long as what comes from other nodes fits: the batches of a
leader are not checked beyond the first index, and the base comes from the
proof of a block that may be another node's.
-/

namespace Finastate.Raft

namespace Storage

/-! ## Refreshing -/

theorem sorted_collectLogs (db : Db) : SortedMap.Sorted (collectLogs db) :=
  SortedMap.Sorted.extend .nil _

theorem collectLogs_of_sorted {db : Db} {logs : List (Nat × Entry)}
    (hlogs : db.logs = some logs) (h : SortedMap.Sorted logs) : collectLogs db = logs := by
  unfold collectLogs
  rw [hlogs, Option.getD_some, SortedMap.extend_nil_of_sorted h]

theorem collectLogs_fixLogs (db : Db) (baseLogIndex : Nat) :
    collectLogs (fixLogs db baseLogIndex) =
      (collectLogs db).filter fun p => baseLogIndex < p.1 := by
  unfold fixLogs
  split
  · exact collectLogs_of_sorted rfl ((sorted_collectLogs db).filter _)
  · next hnone =>
    simp only [List.any_eq_true, decide_eq_true_eq, not_exists, not_and, not_le] at hnone
    exact (List.filter_eq_self.2 fun p hp => by simpa using hnone p hp).symm

/-- The repairs of `refresh` that are done. -/
structure Repaired (db : Db) (base : Nat × Nat) : Prop where
  term : base.2 ≤ db.term
  commit : base.1 ≤ db.commitLogIndex.getD 0
  logs : ∀ p ∈ collectLogs db, base.1 < p.1

theorem fixCurrentTerm_of_le {db : Db} {baseLogTerm : Nat} (h : baseLogTerm ≤ db.term) :
    fixCurrentTerm db baseLogTerm = db :=
  if_neg (not_lt.2 h)

theorem le_term_fixCurrentTerm (db : Db) (baseLogTerm : Nat) :
    baseLogTerm ≤ (fixCurrentTerm db baseLogTerm).term := by
  unfold fixCurrentTerm
  split
  · exact le_rfl
  · next hhigh => exact not_lt.1 hhigh

theorem fixCommitLogIndex_of_le {db : Db} {baseLogIndex : Nat}
    (h : baseLogIndex ≤ db.commitLogIndex.getD 0) : fixCommitLogIndex db baseLogIndex = db :=
  if_neg (not_lt.2 h)

theorem commitLogIndex_fixCommitLogIndex (db : Db) (baseLogIndex : Nat) :
    (fixCommitLogIndex db baseLogIndex).commitLogIndex.getD 0 =
      max (db.commitLogIndex.getD 0) baseLogIndex := by
  unfold fixCommitLogIndex
  split
  · next hlow => exact (max_eq_right hlow.le).symm
  · next hhigh => exact (max_eq_left (not_lt.1 hhigh)).symm

theorem commitLogIndex_fixLogs (db : Db) (baseLogIndex : Nat) :
    (fixLogs db baseLogIndex).commitLogIndex = db.commitLogIndex := by
  unfold fixLogs
  split <;> rfl

theorem fixLogs_of_forall {db : Db} {baseLogIndex : Nat}
    (h : ∀ p ∈ collectLogs db, baseLogIndex < p.1) : fixLogs db baseLogIndex = db := by
  refine if_neg ?_
  simp only [List.any_eq_true, decide_eq_true_eq, not_exists, not_and, not_le]
  exact h

theorem repaired_fixLogs (db : Db) (base : Nat × Nat) :
    Repaired (fixLogs (fixCommitLogIndex (fixCurrentTerm db base.2) base.1) base.1) base where
  term := by
    rw [(term_fixLogs _ _).1, (term_fixCommitLogIndex _ _).1]
    exact le_term_fixCurrentTerm db base.2
  commit := by
    rw [commitLogIndex_fixLogs, commitLogIndex_fixCommitLogIndex]
    exact le_max_right _ _
  logs := by
    intro p hp
    rw [collectLogs_fixLogs] at hp
    simpa using (List.mem_filter.1 hp).2

theorem Repaired.fixProposal {db : Db} {base : Nat × Nat} (h : Repaired db base) :
    Repaired (fixProposal db) base := by
  unfold Storage.fixProposal
  split
  · exact h
  · exact ⟨h.term, h.commit, h.logs⟩

/-- Of a repaired database only the proposal is looked at. -/
theorem Repaired.headD_refreshDbs {db : Db} {chain : Chain} (h : Repaired db (basePosition chain)) :
    (refreshDbs chain db).headD db = Storage.fixProposal db := by
  have hall : Storage.fixProposal (fixLogs (fixCommitLogIndex
      (fixCurrentTerm db (basePosition chain).2) (basePosition chain).1) (basePosition chain).1) =
      Storage.fixProposal db := by
    rw [fixCurrentTerm_of_le h.term, fixCommitLogIndex_of_le h.commit, fixLogs_of_forall h.logs]
  exact hall

theorem fixProposal_fixProposal (db : Db) : fixProposal (fixProposal db) = fixProposal db := by
  by_cases hcontained : containedInLogs (collectLogs db) (db.proposal.getD none) = true
  · have hsame : fixProposal db = db := if_pos hcontained
    rw [hsame, hsame]
  · have hnone : fixProposal db = { db with proposal := some none } := if_neg hcontained
    have hlogs : collectLogs { db with proposal := some none } = collectLogs db := rfl
    rw [hnone]
    refine if_neg ?_
    rw [hlogs]
    simp only [containedInLogs, List.any_eq_true, not_exists, not_and]
    intro p _
    cases p.2.proposed? with
    | none => simp
    | some blockHash => simp

/-- The database that `refresh` leaves. -/
theorem headD_refreshDbs (chain : Chain) (db : Db) :
    (refreshDbs chain db).headD db =
      fixProposal (fixLogs (fixCommitLogIndex (fixCurrentTerm db (basePosition chain).2)
        (basePosition chain).1) (basePosition chain).1) := rfl

/-- Refreshing goes on from where it has stopped. -/
theorem refresh_of_mem {chain : Chain} {db db' : Db} (h : db' ∈ refreshDbs chain db) :
    refresh chain db' = refresh chain db := by
  have hhead : (refreshDbs chain db').headD db' = (refreshDbs chain db).headD db := by
    have hrepaired := repaired_fixLogs db (basePosition chain)
    have hterm := le_term_fixCurrentTerm db (basePosition chain).2
    have hcommit : (basePosition chain).1 ≤
        (fixCommitLogIndex (fixCurrentTerm db (basePosition chain).2)
          (basePosition chain).1).commitLogIndex.getD 0 := by
      rw [commitLogIndex_fixCommitLogIndex]
      exact le_max_right _ _
    have hmem : db' = fixProposal (fixLogs (fixCommitLogIndex
          (fixCurrentTerm db (basePosition chain).2) (basePosition chain).1)
          (basePosition chain).1) ∨
        db' = fixLogs (fixCommitLogIndex (fixCurrentTerm db (basePosition chain).2)
          (basePosition chain).1) (basePosition chain).1 ∨
        db' = fixCommitLogIndex (fixCurrentTerm db (basePosition chain).2)
          (basePosition chain).1 ∨
        db' = fixCurrentTerm db (basePosition chain).2 := by
      simpa [refreshDbs] using h
    rcases hmem with rfl | rfl | rfl | rfl
    · rw [hrepaired.fixProposal.headD_refreshDbs, fixProposal_fixProposal]
      rfl
    · rw [hrepaired.headD_refreshDbs]
      rfl
    · rw [headD_refreshDbs, headD_refreshDbs,
        fixCurrentTerm_of_le (hterm.trans (term_fixCommitLogIndex _ _).1.ge),
        fixCommitLogIndex_of_le hcommit]
    · rw [headD_refreshDbs, headD_refreshDbs, fixCurrentTerm_of_le hterm]
  unfold refresh
  simp only [hhead]

theorem collectLogs_fixCurrentTerm (db : Db) (baseLogTerm : Nat) :
    collectLogs (fixCurrentTerm db baseLogTerm) = collectLogs db := by
  unfold fixCurrentTerm
  split <;> rfl

theorem collectLogs_fixCommitLogIndex (db : Db) (baseLogIndex : Nat) :
    collectLogs (fixCommitLogIndex db baseLogIndex) = collectLogs db := by
  unfold fixCommitLogIndex
  split <;> rfl

theorem collectLogs_fixProposal (db : Db) : collectLogs (fixProposal db) = collectLogs db := by
  unfold fixProposal
  split <;> rfl

/-- The log and the term of a refreshed storage. -/
theorem refresh_fields (chain : Chain) (db : Db) :
    (refresh chain db).logs =
        ((collectLogs db).filter fun p => (basePosition chain).1 < p.1) ∧
      db.term ≤ (refresh chain db).currentTerm := by
  constructor
  · change collectLogs ((refreshDbs chain db).headD db) = _
    rw [headD_refreshDbs, collectLogs_fixProposal, collectLogs_fixLogs,
      collectLogs_fixCommitLogIndex, collectLogs_fixCurrentTerm]
  · change db.term ≤ ((refreshDbs chain db).headD db).term
    rw [headD_refreshDbs, (term_fixProposal _).1, (term_fixLogs _ _).1,
      (term_fixCommitLogIndex _ _).1]
    rcases term_fixCurrentTerm db (basePosition chain).2 with hhigher | hsame
    · exact hhigher.le
    · rw [hsame]

/-! ## Consistency -/

/-- The log has no gaps, and its terms rise up to the current term. -/
structure Orderly (storage : Storage) : Prop where
  contiguous : SortedMap.Contiguous storage.baseLogIndex storage.logs
  keys : ∀ p ∈ storage.logs, p.1 = p.2.index
  terms : storage.logs.Pairwise fun p q => p.2.term ≤ q.2.term
  bounded : ∀ p ∈ storage.logs, p.2.term ≤ storage.currentTerm

/-- The storage without a proposal that no entry is for. -/
def withoutStray (storage : Storage) : Storage :=
  if containedInLogs storage.logs storage.proposal then storage
  else storage.updateProposal none

/-- The storage moved to the base of the newest block: the term and the commit
index are not behind it, the entries up to it are dropped, and so is a stray
proposal. -/
def rebased (storage : Storage) : Storage :=
  let (baseLogIndex, baseLogTerm) := basePosition storage.chain
  let storage := { storage with baseLogIndex, baseLogTerm }
  let storage :=
    if storage.currentTerm < baseLogTerm then
      (storage.updateCurrentTerm baseLogTerm).updateCurrentVotedFor none
    else storage
  let storage :=
    if storage.commitLogIndex < baseLogIndex then storage.updateCommitLogIndex baseLogIndex
    else storage
  let storage :=
    if storage.logs.any fun p => p.1 ≤ baseLogIndex then
      storage.setLogs (storage.logs.filter fun p => baseLogIndex < p.1)
    else storage
  storage.withoutStray

/-- Opened again, the storage is the same but for a stray proposal. The base is
the one of the newest block once the node has been told of it. -/
def Reopens (storage : Storage) : Prop :=
  basePosition storage.chain = (storage.baseLogIndex, storage.baseLogTerm) →
    refresh storage.chain storage.db = storage.withoutStray

/-- The node works with what is on disk. -/
structure Mirrored (storage : Storage) : Prop where
  currentTerm : storage.currentTerm = storage.db.currentTerm.getD 0
  currentVotedFor : storage.currentVotedFor = storage.db.currentVotedFor.getD none
  commitLogIndex : storage.commitLogIndex = storage.db.commitLogIndex.getD 0
  logs : storage.logs = collectLogs storage.db
  proposal : storage.proposal = storage.db.proposal.getD none

/-- The values that are read from a database. -/
def read (chain : Chain) (base : Nat × Nat) (db : Db) : Storage where
  chain
  db
  baseLogIndex := base.1
  baseLogTerm := base.2
  currentTerm := db.currentTerm.getD 0
  currentVotedFor := db.currentVotedFor.getD none
  commitLogIndex := db.commitLogIndex.getD 0
  logs := collectLogs db
  proposal := db.proposal.getD none

theorem Mirrored.eq_read {storage : Storage} (h : storage.Mirrored) :
    storage = read storage.chain (storage.baseLogIndex, storage.baseLogTerm) storage.db := by
  unfold read
  rw [← h.currentTerm, ← h.currentVotedFor, ← h.commitLogIndex, ← h.logs, ← h.proposal]

section

variable (chain : Chain) (base : Nat × Nat) (db : Db)

theorem read_fixCurrentTerm :
    read chain base (fixCurrentTerm db base.2) =
      if (read chain base db).currentTerm < base.2 then
        ((read chain base db).updateCurrentTerm base.2).updateCurrentVotedFor none
      else read chain base db := by
  unfold fixCurrentTerm
  split
  · next hlow => exact (if_pos hlow).symm
  · next hhigh => exact (if_neg hhigh).symm

theorem read_fixCommitLogIndex :
    read chain base (fixCommitLogIndex db base.1) =
      if (read chain base db).commitLogIndex < base.1 then
        (read chain base db).updateCommitLogIndex base.1
      else read chain base db := by
  unfold fixCommitLogIndex
  split
  · next hlow => exact (if_pos hlow).symm
  · next hhigh => exact (if_neg hhigh).symm

theorem read_fixLogs :
    read chain base (fixLogs db base.1) =
      if (read chain base db).logs.any fun p => p.1 ≤ base.1 then
        (read chain base db).setLogs ((read chain base db).logs.filter fun p => base.1 < p.1)
      else read chain base db := by
  have hlogs := collectLogs_fixLogs db base.1
  unfold fixLogs at hlogs ⊢
  split
  · next hsome =>
    rw [if_pos hsome] at hlogs
    have hread : (read chain base db).logs.any (fun p => p.1 ≤ base.1) = true := hsome
    rw [if_pos hread]
    unfold read setLogs
    rw [hlogs]
  · next hnone => exact (if_neg hnone).symm

theorem read_fixProposal :
    read chain base (fixProposal db) = (read chain base db).withoutStray := by
  unfold fixProposal withoutStray
  split
  · next hcontained => exact (if_pos hcontained).symm
  · next hstray => exact (if_neg hstray).symm

end

/-- Refreshing moves the storage to the base of the newest block. -/
theorem Mirrored.refresh_eq {storage : Storage} (h : storage.Mirrored) :
    refresh storage.chain storage.db = storage.rebased := by
  have hread : refresh storage.chain storage.db =
      read storage.chain (basePosition storage.chain)
        ((refreshDbs storage.chain storage.db).headD storage.db) := rfl
  have hmoved : ({ storage with
      baseLogIndex := (basePosition storage.chain).1
      baseLogTerm := (basePosition storage.chain).2 } : Storage) =
      read storage.chain (basePosition storage.chain) storage.db := by
    rw [h.eq_read]
    rfl
  rw [hread, headD_refreshDbs, read_fixProposal, read_fixLogs, read_fixCommitLogIndex,
    read_fixCurrentTerm, ← hmoved]
  rfl

/-- The log is filed under the indices of its entries, on disk too. -/
structure Filed (storage : Storage) : Prop extends Mirrored storage where
  sorted : SortedMap.Sorted storage.logs
  keys : ∀ p ∈ storage.logs, p.1 = p.2.index

theorem Filed.setLogs {storage : Storage} (h : storage.Filed) {logs : List (Nat × Entry)}
    (hsorted : SortedMap.Sorted logs) (hkeys : ∀ p ∈ logs, p.1 = p.2.index) :
    (storage.setLogs logs).Filed :=
  { h with
    logs := (collectLogs_of_sorted rfl hsorted).symm
    sorted := hsorted
    keys := hkeys }

theorem Filed.refresh {storage : Storage} (h : storage.Filed) :
    (Storage.refresh storage.chain storage.db).Filed := by
  have hlogs := (refresh_fields storage.chain storage.db).1
  rw [← h.logs] at hlogs
  refine ⟨⟨rfl, rfl, rfl, rfl, rfl⟩, ?_, fun p hp => ?_⟩
  · rw [hlogs]
    exact h.sorted.filter _
  · rw [hlogs] at hp
    exact h.keys p (List.mem_filter.1 hp).1

theorem Filed.appendLogEntries {storage : Storage} (h : storage.Filed) (entries : List Entry) :
    (storage.appendLogEntries entries).Filed := by
  refine h.setLogs (h.sorted.extend _) fun p hp => ?_
  rcases SortedMap.mem_extend hp with hp | hp
  · exact h.keys p hp
  · obtain ⟨e, _, rfl⟩ := List.mem_map.1 hp
    rfl

/-- The invariant behind consistency. -/
structure Kept (storage : Storage) : Prop extends Orderly storage, Mirrored storage where
  baseTerm : storage.baseLogTerm ≤ storage.currentTerm
  baseCommit : storage.baseLogIndex ≤ storage.commitLogIndex
  baseChain : storage.baseLogIndex ≤ (basePosition storage.chain).1

theorem Kept.reopens {storage : Storage} (h : storage.Kept) : storage.Reopens := by
  intro hbase
  have hrepaired : Repaired storage.db (basePosition storage.chain) := by
    rw [hbase]
    refine ⟨?_, ?_, fun p hp => ?_⟩
    · exact h.baseTerm.trans h.currentTerm.le
    · exact h.baseCommit.trans h.commitLogIndex.le
    · rw [← h.logs] at hp
      exact (h.contiguous.mem hp).1
  unfold refresh withoutStray
  simp only [hrepaired.headD_refreshDbs]
  rw [hbase]
  by_cases hcontained : containedInLogs storage.logs storage.proposal = true
  · have hsame : fixProposal storage.db = storage.db := by
      refine if_pos ?_
      rw [← h.logs, ← h.proposal]
      exact hcontained
    rw [if_pos hcontained, hsame, ← h.logs, ← h.proposal, ← h.currentTerm, ← h.currentVotedFor,
      ← h.commitLogIndex]
  · have hnone : fixProposal storage.db = { storage.db with proposal := some none } := by
      refine if_neg ?_
      rw [← h.logs, ← h.proposal]
      exact hcontained
    have hlogs : collectLogs { storage.db with proposal := some none } = storage.logs :=
      h.logs.symm
    rw [if_neg hcontained, hnone, hlogs]
    simp only [← h.currentTerm, ← h.currentVotedFor, ← h.commitLogIndex, updateProposal,
      Option.getD_some]

/-- Refreshing keeps the invariant. -/
theorem Kept.refresh {storage : Storage} (h : storage.Kept) :
    (Storage.refresh storage.chain storage.db).Kept := by
  obtain ⟨hlogs, hterm⟩ := refresh_fields storage.chain storage.db
  have hrepaired :=
    (repaired_fixLogs storage.db (basePosition storage.chain)).fixProposal
  have hkept : (Storage.refresh storage.chain storage.db).logs =
      storage.logs.filter fun p => (basePosition storage.chain).1 < p.1 := by
    rw [hlogs, ← h.logs]
  refine ⟨⟨?_, ?_, ?_, ?_⟩, ⟨rfl, rfl, rfl, rfl, rfl⟩, ?_, ?_, ?_⟩
  · rw [hkept]
    exact h.contiguous.above h.baseChain
  · intro p hp
    rw [hkept] at hp
    exact h.keys p (List.mem_filter.1 hp).1
  · rw [hkept]
    exact h.terms.filter _
  · intro p hp
    rw [hkept] at hp
    exact (h.bounded p (List.mem_filter.1 hp).1).trans (h.currentTerm.le.trans hterm)
  · exact hrepaired.term
  · exact hrepaired.commit
  · exact le_rfl

/-! ## Writes -/

section

variable {storage : Storage} (h : storage.Kept)

include h

theorem Kept.updateCurrentTerm {currentTerm : Nat} (hterm : storage.currentTerm ≤ currentTerm) :
    (storage.updateCurrentTerm currentTerm).Kept :=
  { h with
    bounded := fun p hp => (h.bounded p hp).trans hterm
    currentTerm := rfl
    baseTerm := h.baseTerm.trans hterm }

theorem Kept.updateCurrentVotedFor (currentVotedFor : Option Address) :
    (storage.updateCurrentVotedFor currentVotedFor).Kept :=
  { h with currentVotedFor := rfl }

theorem Kept.updateCommitLogIndex {commitLogIndex : Nat}
    (hbase : storage.baseLogIndex ≤ commitLogIndex) :
    (storage.updateCommitLogIndex commitLogIndex).Kept :=
  { h with
    commitLogIndex := rfl
    baseCommit := hbase }

theorem Kept.updateProposal (proposal : Option Proposal) :
    (storage.updateProposal proposal).Kept :=
  { h with proposal := rfl }

theorem Kept.setChain {chain : Chain} (hbase : storage.baseLogIndex ≤ (basePosition chain).1) :
    ({ storage with chain } : Storage).Kept :=
  { h with baseChain := hbase }

/-- Where the log ends. -/
theorem Kept.lastLog : storage.lastLog.1 = storage.baseLogIndex + storage.logs.length ∧
    ∀ p ∈ storage.logs, p.2.term ≤ storage.lastLog.2 := by
  unfold Storage.lastLog
  cases hlast : storage.logs.getLast? with
  | none =>
      have hnil : storage.logs = [] := List.getLast?_eq_none_iff.1 hlast
      simp [hnil]
  | some p =>
      obtain ⟨front, hfront⟩ := List.getLast?_eq_some_iff.1 hlast
      have hp : p ∈ storage.logs := List.mem_of_getLast? hlast
      have hterms := h.terms
      refine ⟨(h.keys p hp).symm.trans (h.contiguous.last hlast), fun q hq => ?_⟩
      rw [hfront] at hq hterms
      rcases List.mem_append.1 hq with hq | hq
      · exact (List.pairwise_append.1 hterms).2.2 q hq p List.mem_cons_self
      · rw [List.mem_singleton.1 hq]

/-- The log without its end. -/
theorem Kept.deleteLogEntries (start : Nat) : (storage.deleteLogEntries start).Kept := by
  have hcontiguous : SortedMap.Contiguous storage.baseLogIndex
      (storage.logs.filter fun p => p.1 < start) := by
    rw [h.contiguous.filter_lt]
    exact h.contiguous.take _
  exact
    { h with
      contiguous := hcontiguous
      keys := fun p hp => h.keys p (List.mem_filter.1 hp).1
      terms := h.terms.filter _
      bounded := fun p hp => h.bounded p (List.mem_filter.1 hp).1
      logs := (collectLogs_of_sorted rfl hcontiguous.sorted).symm }

/-- Entries that go on where the log ends. -/
theorem Kept.appendLogEntries {entries : List Entry} {prevLogIndex prevLogTerm : Nat}
    (hend : storage.baseLogIndex + storage.logs.length = prevLogIndex)
    (hterms : ∀ p ∈ storage.logs, p.2.term ≤ prevLogTerm)
    (hindices : entries.map Entry.index = List.range' (prevLogIndex + 1) entries.length)
    (hrising : entries.Pairwise fun e e' => e.term ≤ e'.term)
    (hbounds : ∀ e ∈ entries, prevLogTerm ≤ e.term ∧ e.term ≤ storage.currentTerm) :
    (storage.appendLogEntries entries).Kept := by
  have hitems : SortedMap.Contiguous (storage.baseLogIndex + storage.logs.length)
      (entries.map fun e => (e.index, e)) := by
    have hkeys : ((entries.map fun e => (e.index, e)).map Prod.fst) = entries.map Entry.index := by
      simp
    unfold SortedMap.Contiguous
    rw [hkeys, hindices, hend, List.length_map]
  have hcontiguous := h.contiguous.append hitems
  have hextend : SortedMap.extend storage.logs (entries.map fun e => (e.index, e)) =
      storage.logs ++ entries.map fun e => (e.index, e) :=
    SortedMap.extend_of_sorted_append hcontiguous.sorted
  unfold Storage.appendLogEntries setLogs
  rw [hextend]
  refine
    { h with
      contiguous := hcontiguous
      keys := fun p hp => ?_
      terms := ?_
      bounded := fun p hp => ?_
      logs := (collectLogs_of_sorted rfl hcontiguous.sorted).symm }
  · rcases List.mem_append.1 hp with hp | hp
    · exact h.keys p hp
    · obtain ⟨e, _, rfl⟩ := List.mem_map.1 hp
      rfl
  · refine List.pairwise_append.2 ⟨h.terms, List.pairwise_map.2 hrising, fun p hp q hq => ?_⟩
    obtain ⟨e, he, rfl⟩ := List.mem_map.1 hq
    exact (hterms p hp).trans (hbounds e he).1
  · rcases List.mem_append.1 hp with hp | hp
    · exact h.bounded p hp
    · obtain ⟨e, he, rfl⟩ := List.mem_map.1 hp
      exact (hbounds e he).2

end

end Storage

/-! ## The invariant of a run -/

/-- The entries of a request go on after its previous entry, with rising terms
that the leader has reached. -/
structure AppendEntriesReq.Orderly (req : AppendEntriesReq) : Prop where
  indices : req.entries.map Entry.index =
    List.range' (req.prevLogIndex + 1) req.entries.length
  rising : req.entries.Pairwise fun e e' => e.term ≤ e'.term
  bounds : ∀ e ∈ req.entries, req.prevLogTerm ≤ e.term ∧ e.term ≤ req.term

instance (req : AppendEntriesReq) : Decidable req.Orderly :=
  decidable_of_iff
    (req.entries.map Entry.index = List.range' (req.prevLogIndex + 1) req.entries.length ∧
      (req.entries.Pairwise fun e e' => e.term ≤ e'.term) ∧
      ∀ e ∈ req.entries, req.prevLogTerm ≤ e.term ∧ e.term ≤ req.term)
    ⟨fun ⟨hindices, hrising, hbounds⟩ => ⟨hindices, hrising, hbounds⟩,
      fun h => ⟨h.indices, h.rising, h.bounds⟩⟩

/-- What comes from another node fits the storage: the entries that a request
adds are orderly, and neither the commit index of a leader nor a synced block
falls behind the base. -/
def Event.Fits (storage : Storage) : Event → Prop
  | .message _ (some (.appendEntriesReq req)) =>
      storage.currentTerm ≤ req.term →
        storage.baseLogIndex ≤ req.commitLogIndex ∧
          ((req.prevLogIndex, req.prevLogTerm) = storage.lastLog ∨
            Stream.prevLogExists storage req = true → req.Orderly)
  | .sync block => storage.baseLogIndex ≤ block.proof.logIndex
  | _ => True

instance (storage : Storage) : DecidablePred (Event.Fits storage)
  | .message _ (some (.appendEntriesReq req)) =>
      inferInstanceAs (Decidable (storage.currentTerm ≤ req.term →
        storage.baseLogIndex ≤ req.commitLogIndex ∧
          ((req.prevLogIndex, req.prevLogTerm) = storage.lastLog ∨
            Stream.prevLogExists storage req = true → req.Orderly)))
  | .sync block => inferInstanceAs (Decidable (storage.baseLogIndex ≤ block.proof.logIndex))
  | .message _ (some (.registerValidatorReq _)) => isTrue trivial
  | .message _ (some (.registerValidatorRes _)) => isTrue trivial
  | .message _ (some (.appendEntriesRes _)) => isTrue trivial
  | .message _ (some (.requestVoteReq _)) => isTrue trivial
  | .message _ (some (.requestVoteRes _)) => isTrue trivial
  | .message _ (some (.requestProposalReq _)) => isTrue trivial
  | .message _ (some (.requestProposalRes _)) => isTrue trivial
  | .message _ none => isTrue trivial
  | .election => isTrue trivial
  | .schedule _ => isTrue trivial
  | .internal => isTrue trivial
  | .replicationOut => isTrue trivial
  | .replicate _ => isTrue trivial
  | .replicationIn _ => isTrue trivial
  | .open _ _ _ => isTrue trivial
  | .close _ => isTrue trivial
  | .blockCommitted => isTrue trivial
  | .generate => isTrue trivial
  | .shutdown => isTrue trivial
  | .restart => isTrue trivial

/-- The event fits the storage, and terms and indices stay within 64 bits. -/
def Stream.Tidy (s : Stream) (event : Event) : Prop :=
  s.CountsOn event ∧ s.storage.lastLog.1 + 1 < 2 ^ 64 ∧ event.Fits s.storage

instance (s : Stream) (event : Event) : Decidable (s.Tidy event) :=
  inferInstanceAs (Decidable (_ ∧ _))

theorem AppendEntriesReq.Orderly.wrapAdd_eq {req : AppendEntriesReq} (h : req.Orderly)
    (hnext : req.entries.head?.map Entry.index = some (wrapAdd 64 req.prevLogIndex 1)) :
    wrapAdd 64 req.prevLogIndex 1 = req.prevLogIndex + 1 := by
  have hindices := h.indices
  cases hentries : req.entries with
  | nil =>
      rw [hentries] at hnext
      exact nomatch hnext
  | cons e entries =>
      rw [hentries, List.map_cons, List.length_cons, List.range'_succ] at hindices
      rw [hentries] at hnext
      have hfirst : e.index = req.prevLogIndex + 1 := (List.cons.inj hindices).1
      rw [← hfirst]
      exact (Option.some.inj hnext).symm

/-- The entries of an orderly request, put after its previous entry. -/
theorem Storage.Kept.extend {storage : Storage} (h : storage.Kept) {req : AppendEntriesReq}
    (hreq : req.Orderly) (hterm : storage.currentTerm = req.term)
    (hend : storage.baseLogIndex + storage.logs.length = req.prevLogIndex)
    (hterms : ∀ p ∈ storage.logs, p.2.term ≤ req.prevLogTerm) :
    (storage.appendLogEntries req.entries).Kept := by
  refine h.appendLogEntries hend hterms hreq.indices hreq.rising fun e he => ?_
  rw [hterm]
  exact hreq.bounds e he

/-- The log up to a previous entry that exists. -/
theorem Storage.Kept.upTo {storage : Storage} (h : storage.Kept) {req : AppendEntriesReq}
    (hexists : Stream.prevLogExists storage req = true) :
    storage.baseLogIndex +
        (storage.logs.filter fun p => p.1 < req.prevLogIndex + 1).length = req.prevLogIndex ∧
      ∀ p ∈ storage.logs.filter fun p => p.1 < req.prevLogIndex + 1,
        p.2.term ≤ req.prevLogTerm := by
  rw [h.contiguous.filter_lt, Nat.add_sub_add_right, List.length_take]
  simp only [Stream.prevLogExists, Storage.getLogEntries, Bool.or_eq_true, List.any_eq_true,
    List.mem_map, List.mem_filter, decide_eq_true_eq, Prod.mk.injEq] at hexists
  rcases hexists with ⟨e, ⟨p, ⟨hp, hkey⟩, rfl⟩, hterm⟩ | ⟨hindex, -⟩
  · -- the previous entry is in the log, and the terms rise up to its term
    obtain ⟨hlow, hhigh⟩ := h.contiguous.mem hp
    refine ⟨by omega, fun q hq => ?_⟩
    have hq' : q ∈ storage.logs := List.mem_of_mem_take hq
    have hbelow := (h.contiguous.take _).mem hq
    rw [List.length_take] at hbelow
    rw [← hterm]
    by_cases hsame : q.1 = p.1
    · have hentry : q.2 = p.2 :=
        h.contiguous.sorted.eq_of_mem (hsame ▸ hq') hp
      rw [hentry]
    · exact h.contiguous.sorted.rel_of_lt h.terms hq' hp (by omega)
  · rw [hindex, Nat.sub_self]
    simp

variable {support : Support} {secretKey : SecretKey} {event : Event} {s : Stream} {c c' : Core}

theorem Act.kept (h : Act support event s.core c c') (htidy : s.Tidy event)
    (hs : s.storage.Kept) (hc : c.storage.Kept) : c'.storage.Kept := by
  cases h with
  | campaign timeout before storage trace state =>
      have hhigher : c.storage.currentTerm < wrapAdd 64 c.storage.currentTerm 1 :=
        Core.Raises.higher (Or.inr ⟨timeout, before, storage, rfl⟩) rfl htidy.1
      exact (hc.updateCurrentTerm hhigher.le).updateCurrentVotedFor _
  | newTerm term calm higher => exact (hc.updateCurrentTerm higher.le).updateCurrentVotedFor _
  | vote address req receives term none_ calm => exact hc.updateCurrentVotedFor _
  | append data role state last =>
      have hroom : c.storage.lastLog.1 + 1 < 2 ^ 64 := by
        rw [last]
        exact htidy.2.1
      refine hc.appendLogEntries hc.lastLog.1.symm hc.bounded ?_ (List.pairwise_singleton _ _) ?_
      · simp [wrapAdd_of_lt hroom]
      · simp
  | raise commitLogIndex role state majority higher =>
      refine hc.updateCommitLogIndex (hc.baseCommit.trans ?_)
      rw [majority]
      exact le_max_right _ _
  | follow address req receives start term =>
      obtain ⟨peerId, hevent, -⟩ := receives
      subst start
      subst hevent
      exact hc.updateCommitLogIndex (htidy.2.2 term).1
  | truncate address req follows logs exists_ next => exact hc.deleteLogEntries _
  | extend address req follows next logs =>
      obtain ⟨⟨peerId, rfl, -⟩, hterm, hnow, hbase, hbaseTerm⟩ := follows
      rcases logs with ⟨hsame, hlast⟩ | ⟨hexists, hcut⟩
      · have hreq : req.Orderly := by
          refine (htidy.2.2 hterm).2 (Or.inl ?_)
          rw [hlast]
          unfold Storage.lastLog
          rw [hsame, hbase, hbaseTerm]
          rfl
        have hend := hc.lastLog
        rw [← hlast] at hend
        exact hc.extend hreq hnow hend.1.symm hend.2
      · have hreq : req.Orderly := (htidy.2.2 hterm).2 (Or.inr hexists)
        rw [hreq.wrapAdd_eq next] at hcut
        have hend := hs.upTo hexists
        have hbase : c.storage.baseLogIndex = s.storage.baseLogIndex := hbase
        have hcut : c.storage.logs =
            s.storage.logs.filter fun p => p.1 < req.prevLogIndex + 1 := hcut
        rw [← hcut, ← hbase] at hend
        exact hc.extend hreq hnow hend.1 hend.2
  | proposal proposal => exact hc.updateProposal _
  | commit block start number found position =>
      refine hc.setChain ?_
      have hindex : block.proof.logIndex = c.storage.lastLog.1 := congrArg Prod.fst position
      change _ ≤ block.proof.logIndex
      rw [hindex, hc.lastLog.1]
      exact Nat.le_add_right _ _
  | sync block learnt start blockHash =>
      subst start
      subst learnt
      exact hc.setChain htidy.2.2
  | refresh told start => exact hc.refresh
  | restart told => exact hc.refresh
  | _ => exact hc

theorem Halt.kept {d : Core} (h : Halt event s.core c d) (htidy : s.Tidy event)
    (hc : c.storage.Kept) : (d.restarted support).storage.Kept := by
  cases h with
  | done => exact hc.refresh
  | half term raises =>
      have hhigher := raises.higher rfl htidy.1
      exact (hc.updateCurrentTerm hhigher.le).refresh
  | refreshing db dbs before some_ =>
      have hmem : db ∈ Storage.refreshDbs c.storage.chain c.storage.db := by
        rw [some_]
        simp
      have hrefresh := Storage.refresh_of_mem hmem
      change (Storage.refresh c.storage.chain db).Kept
      rw [hrefresh]
      exact hc.refresh

theorem kept_blank (support : Support) (secretKey : SecretKey) :
    (Stream.blank support secretKey).storage.Kept where
  contiguous := .nil
  keys := by simp [Stream.blank]
  terms := .nil
  bounded := by simp [Stream.blank]
  currentTerm := rfl
  currentVotedFor := rfl
  commitLogIndex := rfl
  logs := rfl
  proposal := rfl
  baseTerm := le_rfl
  baseCommit := le_rfl
  baseChain := le_rfl

theorem CrashRun.kept (h : CrashRun support secretKey (fun _ s event => s.Tidy event) s) :
    s.storage.Kept := by
  refine @CrashRun.core_induction support secretKey _ (fun c => c.storage.Kept) s h ?_ ?_ ?_ ?_
  · exact (kept_blank support secretKey).refresh
  · intro _ s event htidy hs c c' hact hc
    exact hact.kept htidy hs hc
  · intro _ s event htidy c d hhalt hc
    exact hhalt.kept htidy hc
  · intro c _ _ hc
    exact hc

/-- The filing of the log needs no condition. -/
theorem Act.filed {o : Core} (h : Act support event o c c') (hc : c.storage.Filed) :
    c'.storage.Filed := by
  cases h with
  | campaign timeout before storage trace state =>
      exact { hc with currentTerm := rfl, currentVotedFor := rfl }
  | newTerm term calm higher => exact { hc with currentTerm := rfl, currentVotedFor := rfl }
  | vote address req receives term none_ calm => exact { hc with currentVotedFor := rfl }
  | append data role state last => exact hc.appendLogEntries _
  | raise commitLogIndex role state majority higher => exact { hc with commitLogIndex := rfl }
  | follow address req receives start term => exact { hc with commitLogIndex := rfl }
  | truncate address req follows logs exists_ next =>
      exact hc.setLogs (hc.sorted.filter _) fun p hp => hc.keys p (List.mem_filter.1 hp).1
  | extend address req follows next logs => exact hc.appendLogEntries _
  | proposal proposal => exact { hc with proposal := rfl }
  | commit block start number found position => exact { hc with }
  | sync block learnt start blockHash => exact { hc with }
  | refresh told start => exact hc.refresh
  | restart told => exact hc.refresh
  | _ => exact hc

theorem Halt.filed {d : Core} (h : Halt event s.core c d) (hc : c.storage.Filed) :
    (d.restarted support).storage.Filed := by
  cases h with
  | done => exact hc.refresh
  | half term raises =>
      have hhalf : (c.storage.updateCurrentTerm term).Filed := { hc with currentTerm := rfl }
      exact hhalf.refresh
  | refreshing db dbs before some_ =>
      have hmem : db ∈ Storage.refreshDbs c.storage.chain c.storage.db := by
        rw [some_]
        simp
      change (Storage.refresh c.storage.chain db).Filed
      rw [Storage.refresh_of_mem hmem]
      exact hc.refresh

theorem filed_blank (support : Support) (secretKey : SecretKey) :
    (Stream.blank support secretKey).storage.Filed :=
  have hblank := kept_blank support secretKey
  ⟨hblank.toMirrored, .nil, hblank.keys⟩

theorem CrashRun.filed {P : Oracle → Stream → Event → Prop}
    (h : CrashRun support secretKey P s) : s.storage.Filed := by
  refine @CrashRun.core_induction support secretKey _ (fun c => c.storage.Filed) s h ?_ ?_ ?_ ?_
  · exact (filed_blank support secretKey).refresh
  · intro _ s event _ _ c c' hact hc
    exact hact.filed hc
  · intro _ s event _ c d hhalt hc
    exact hhalt.filed hc
  · intro c _ _ hc
    exact hc

/-- In every run the log is filed under the indices of its entries, and the
storage that is opened again is the one moved to the base of the newest block.
In a run of tidy events the log is also orderly, and the storage that is opened
again at its base is the same but for a proposal that no entry is for. -/
theorem storage_consistency (support : Support) (secretKey : SecretKey) :
    (∀ s, CrashRun support secretKey (fun _ _ _ => True) s →
      SortedMap.Sorted s.storage.logs ∧ (∀ p ∈ s.storage.logs, p.1 = p.2.index) ∧
        Storage.refresh s.storage.chain s.storage.db = s.storage.rebased) ∧
      ∀ s, CrashRun support secretKey (fun _ s event => s.Tidy event) s →
        s.storage.Orderly ∧ s.storage.Reopens := by
  constructor
  · intro s h
    have hfiled := h.filed
    exact ⟨hfiled.sorted, hfiled.keys, hfiled.refresh_eq⟩
  · intro s h
    have hkept := h.kept
    exact ⟨hkept.toOrderly, hkept.reopens⟩

/-- Validator `1` sends entries, and the node restarts. -/
def Sample.twoEntries : List Event :=
  register 1 ++
    [.message [1] (some (.appendEntriesReq
      { requestId := 0, term := 1, prevLogIndex := 0, prevLogTerm := 0, commitLogIndex := 1
        entries := [{ term := 1, index := 1, data := .blank },
          { term := 1, index := 2, data := .blank }] })),
    .restart]

theorem storage_consistency_twoEntries :
    ((Sample.node 4 Sample.twoEntries).storage.Orderly ∧
        (Sample.node 4 Sample.twoEntries).storage.Reopens) ∧
      (Sample.node 4 Sample.twoEntries).storage.logs.map Prod.fst = [1, 2] := by
  have hrun : Run (Sample.support 4) ⟨[0]⟩ (fun _ s event => s.Tidy event)
      (Sample.node 4 Sample.twoEntries) :=
    Sample.run_validator (by decide +kernel)
  refine ⟨(storage_consistency (Sample.support 4) ⟨[0]⟩).2 _ hrun.crashRun, ?_⟩
  decide +kernel

/-- Validator `1` sends the proposal of the first block, without an entry for it. -/
def Sample.earlyProposal : List Event :=
  register 1 ++
    [.message [1] (some (.requestProposalRes
      { requestId := 0
        proposal := some
          { blockHash := ⟨[1, 5]⟩, number := 1, timestamp := 5, metaTxs := [], payloadTxs := []
            executionNumber := 0 } }))]

/-- A proposal that is stored before its entry is gone when the storage is
opened again. -/
theorem refresh_ne_earlyProposal :
    CrashRun (Sample.support 4) ⟨[0]⟩ (fun _ _ _ => True) (Sample.node 4 Sample.earlyProposal) ∧
      Storage.refresh (Sample.node 4 Sample.earlyProposal).storage.chain
          (Sample.node 4 Sample.earlyProposal).storage.db ≠
        (Sample.node 4 Sample.earlyProposal).storage := by
  refine ⟨(Sample.run_validator (by decide +kernel)).crashRun, ?_⟩
  decide +kernel

end Finastate.Raft
