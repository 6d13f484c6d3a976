import Finastate.Library.Reached
import Finastate.Raft.State

/-!
# The index that a majority has

The commit index of a leader goes up to the entry in the middle of the match
indices, in descending order. That is the greatest index that more than half of
them reach, whatever their number; a lower one is never stored.
-/

namespace Finastate.Raft

namespace LeaderState

open Reached

variable {indices : List Nat}

/-- The entry that `get_new_commit_log_index` takes. -/
theorem isGreatest_middle (h : indices ≠ []) :
    IsGreatest {i | ByMajority indices i}
      ((indices.insertionSort (· ≥ ·)).getD
        ((indices.insertionSort (· ≥ ·)).length / 2) 0) := by
  have hperm := List.perm_insertionSort (· ≥ ·) indices
  have hsame : {i | ByMajority indices i} =
      {i | ByMajority (indices.insertionSort (· ≥ ·)) i} := by
    ext i
    exact byMajority_perm hperm.symm
  have hhalf : (indices.insertionSort (· ≥ ·)).length / 2 <
      (indices.insertionSort (· ≥ ·)).length := by
    apply Nat.div_lt_self _ Nat.one_lt_two
    rw [hperm.length_eq]
    exact List.length_pos_of_ne_nil h
  rw [hsame, List.getD_eq_getElem?_getD, List.getElem?_eq_getElem hhalf, Option.getD_some]
  exact isGreatest_getElem_half List.sortedGE_insertionSort hhalf

/-- The new commit index is the greatest index that more than half of the match
indices reach, or the old one if that is greater. -/
theorem getNewCommitLogIndex_eq_max (h : indices ≠ []) (oldCommitLogIndex : Nat) :
    ∃ i, IsGreatest {i | ByMajority indices i} i ∧
      getNewCommitLogIndex indices oldCommitLogIndex = max oldCommitLogIndex i :=
  ⟨_, isGreatest_middle h, max_comm _ _⟩

/-- Four entries, where a majority is three. -/
theorem getNewCommitLogIndex_four :
    (∃ i, IsGreatest {i | ByMajority [1, 3, 2, 3] i} i ∧
      getNewCommitLogIndex [1, 3, 2, 3] 1 = max 1 i) ∧
      getNewCommitLogIndex [1, 3, 2, 3] 1 = 2 :=
  ⟨getNewCommitLogIndex_eq_max (List.cons_ne_nil 1 [3, 2, 3]) 1, by decide⟩

/-- What `on_maybe_commit` counts: the replications and the log of the leader. -/
def matchIndices (s : Stream) : List Nat :=
  (s.leader.replications.map fun p => p.2.matchIndex) ++ [s.storage.lastLog.1]

/-- After `on_maybe_commit` an index is committed if it was before, or more than
half of the nodes, the leader among them, are taken to have it. -/
theorem le_commitLogIndex_onMaybeCommit_iff (s : Stream) (i : Nat) :
    i ≤ (onMaybeCommit s).storage.commitLogIndex ↔
      i ≤ s.storage.commitLogIndex ∨ ByMajority (matchIndices s) i := by
  have hne : matchIndices s ≠ [] := List.append_ne_nil_of_right_ne_nil _ (List.cons_ne_nil _ _)
  have hnew : (onMaybeCommit s).storage.commitLogIndex =
      getNewCommitLogIndex (matchIndices s) s.storage.commitLogIndex := by
    simp only [onMaybeCommit]
    split
    · rfl
    · next hsame => exact (not_not.1 hsame).symm
  obtain ⟨hreached, hgreatest⟩ := isGreatest_middle hne
  rw [hnew, getNewCommitLogIndex, le_sup_iff, or_comm]
  exact or_congr_right ⟨fun hi => ByMajority.of_le hreached hi, fun hi => hgreatest hi⟩

end LeaderState

end Finastate.Raft
