import Finastate.Library.Runs
import Finastate.Sync.ChainSync
import Mathlib.Data.Nat.ModEq

/-!
# The groups of seen blocks

`makeSeenGroups` cuts the pending blocks that are seen into groups, and a group
is a first number and a size. It counts the blocks and does not look at their
numbers, so the groups have the right numbers if and only if every jump in the
numbers falls between two groups.
-/

namespace Finastate.Sync

/-! ## The runs under the groups -/

/-- The numbers of the seen blocks, cut where `makeSeenGroups` cuts them; `run`
are the numbers of the group that is being built. -/
def seenRuns (maxGroupSize : Nat) :
    List (BlockNumber × PendingBlockState) → List BlockNumber → List (List BlockNumber)
  | [], run => if run = [] then [] else [run]
  | (number, state) :: pendingBlocks, run =>
      if state = .seen then
        if maxGroupSize ≤ run.length + 1 then
          (run ++ [number]) :: seenRuns maxGroupSize pendingBlocks []
        else seenRuns maxGroupSize pendingBlocks (run ++ [number])
      else (if run = [] then [] else [run]) ++ seenRuns maxGroupSize pendingBlocks []

/-- The numbers of the seen blocks. -/
def seenNumbers (pendingBlocks : List (BlockNumber × PendingBlockState)) : List BlockNumber :=
  (pendingBlocks.filter fun p => p.2 = .seen).map Prod.fst

/-- The group of a run, which may not have begun. -/
def groupOf (run : List BlockNumber) : Option (BlockNumber × Nat) :=
  if run = [] then none else some (Runs.toRange run)

section Runs

variable {maxGroupSize : Nat} {pendingBlocks : List (BlockNumber × PendingBlockState)}
  {run : List BlockNumber} {number : BlockNumber} {state : PendingBlockState}

@[simp] theorem groupOf_nil : groupOf [] = none := rfl

theorem groupOf_concat (run : List BlockNumber) (number : BlockNumber) :
    groupOf (run ++ [number]) =
      some (((groupOf run).map fun v => (v.1, v.2 + 1)).getD (number, 1)) := by
  cases run with
  | nil => rfl
  | cons first run => simp [groupOf, Runs.toRange]

theorem toList_groupOf (run : List BlockNumber) :
    (groupOf run).toList = (if run = [] then [] else [run]).map Runs.toRange := by
  by_cases hrun : run = []
  · simp [hrun]
  · simp [groupOf, hrun]

theorem length_of_groupOf (run : List BlockNumber) (number : BlockNumber) :
    (((groupOf run).map fun v => (v.1, v.2 + 1)).getD (number, 1)).2 = run.length + 1 := by
  cases run with
  | nil => rfl
  | cons first run => simp [groupOf, Runs.toRange]

theorem mem_seenNumbers : number ∈ seenNumbers pendingBlocks ↔ (number, .seen) ∈ pendingBlocks := by
  simp [seenNumbers]

theorem seenNumbers_sorted (hsorted : SortedMap.Sorted pendingBlocks) :
    (seenNumbers pendingBlocks).Pairwise (· < ·) :=
  List.pairwise_map.2 (hsorted.filter _)

/-- The groups are the ranges of the runs. -/
theorem makeSeenGroups_eq (maxGroupSize : Nat)
    (pendingBlocks : List (BlockNumber × PendingBlockState)) (run : List BlockNumber) :
    makeSeenGroups maxGroupSize pendingBlocks (groupOf run) =
      (seenRuns maxGroupSize pendingBlocks run).map Runs.toRange := by
  induction pendingBlocks generalizing run with
  | nil => exact toList_groupOf run
  | cons p pendingBlocks ih =>
      obtain ⟨number, state⟩ := p
      cases state with
      | seen =>
          have hgroup := groupOf_concat run number
          have hrange : Runs.toRange (run ++ [number]) =
              ((groupOf run).map fun v => (v.1, v.2 + 1)).getD (number, 1) := by
            rw [groupOf, if_neg (List.append_ne_nil_of_right_ne_nil _ (List.cons_ne_nil _ _))] at hgroup
            exact Option.some.inj hgroup
          simp only [makeSeenGroups, seenRuns, if_true, length_of_groupOf]
          split
          · rw [List.map_cons, hrange, ← ih [], groupOf_nil]
          · rw [← ih, hgroup]
      | downloading source requestId =>
          have hne : PendingBlockState.downloading source requestId ≠ .seen := nofun
          rw [makeSeenGroups, seenRuns, if_neg hne, List.map_append, ← ih [], toList_groupOf,
            groupOf_nil]
          exact nofun
      | downloaded source blockData =>
          have hne : PendingBlockState.downloaded source blockData ≠ .seen := nofun
          rw [makeSeenGroups, seenRuns, if_neg hne, List.map_append, ← ih [], toList_groupOf,
            groupOf_nil]
          exact nofun

/-- The runs have the numbers of the seen blocks, in their order. -/
theorem flatten_seenRuns (maxGroupSize : Nat)
    (pendingBlocks : List (BlockNumber × PendingBlockState)) (run : List BlockNumber) :
    (seenRuns maxGroupSize pendingBlocks run).flatten = run ++ seenNumbers pendingBlocks := by
  induction pendingBlocks generalizing run with
  | nil =>
      by_cases hrun : run = []
      · simp [seenRuns, seenNumbers, hrun]
      · simp [seenRuns, seenNumbers, hrun]
  | cons p pendingBlocks ih =>
      obtain ⟨number, state⟩ := p
      rw [seenRuns]
      by_cases hstate : state = .seen
      · rw [if_pos hstate]
        have hnumbers : seenNumbers ((number, state) :: pendingBlocks) =
            number :: seenNumbers pendingBlocks := by simp [seenNumbers, hstate]
        split
        · rw [List.flatten_cons, ih, hnumbers, List.nil_append, List.append_assoc,
            List.singleton_append]
        · rw [ih, hnumbers, List.append_assoc, List.singleton_append]
      · rw [if_neg hstate, List.flatten_append, ih]
        have hnumbers : seenNumbers ((number, state) :: pendingBlocks) =
            seenNumbers pendingBlocks := by simp [seenNumbers, hstate]
        rw [hnumbers, List.nil_append]
        by_cases hrun : run = []
        · simp [hrun]
        · simp [hrun]

/-- No run is empty, and none is longer than a group may be. -/
theorem length_of_mem_seenRuns (hrun : run.length < maxGroupSize) {run' : List BlockNumber}
    (hmem : run' ∈ seenRuns maxGroupSize pendingBlocks run) :
    run' ≠ [] ∧ run'.length ≤ maxGroupSize := by
  have hlast : ∀ {run : List BlockNumber}, run.length < maxGroupSize →
      run' ∈ (if run = [] then [] else [run]) → run' ≠ [] ∧ run'.length ≤ maxGroupSize := by
    intro run hrun hmem
    split at hmem
    · cases hmem
    · next hne =>
      rw [List.mem_singleton] at hmem
      exact ⟨hmem ▸ hne, hmem ▸ hrun.le⟩
  induction pendingBlocks generalizing run with
  | nil => exact hlast hrun hmem
  | cons p pendingBlocks ih =>
      obtain ⟨number, state⟩ := p
      have hpos : ([] : List BlockNumber).length < maxGroupSize := (Nat.zero_le _).trans_lt hrun
      rw [seenRuns] at hmem
      split at hmem
      · split at hmem
        · rcases List.mem_cons.1 hmem with rfl | hmem
          · exact ⟨by simp, by simpa using Nat.succ_le_of_lt hrun⟩
          · exact ih hpos hmem
        · next hlt =>
          refine ih ?_ hmem
          rw [List.length_append, List.length_singleton]
          exact Nat.lt_of_not_le hlt
      · rcases List.mem_append.1 hmem with hmem | hmem
        · exact hlast hrun hmem
        · exact ih hpos hmem

end Runs


/-! ## Where the numbers jump -/

/-- How many blocks at the end are seen with no other block after them, where
`count` seen blocks stand in front. -/
def seenRow (count : Nat) (pendingBlocks : List (BlockNumber × PendingBlockState)) : Nat :=
  pendingBlocks.foldl (fun count p => if p.2 = .seen then count + 1 else 0) count

/-- Where the number jumps from a seen block to the seen block after it, the
seen blocks in a row up to the jump fill whole groups. -/
def JumpsAtGroups (maxGroupSize count : Nat)
    (pendingBlocks : List (BlockNumber × PendingBlockState)) : Prop :=
  ∀ before number next after,
    pendingBlocks = before ++ (number, .seen) :: (next, .seen) :: after →
      next = number + 1 ∨ maxGroupSize ∣ seenRow count before + 1

section Jumps

variable {maxGroupSize count : Nat} {pendingBlocks : List (BlockNumber × PendingBlockState)}
  {number : BlockNumber} {state : PendingBlockState}

theorem jumpsAtGroups_nil : JumpsAtGroups maxGroupSize count [] := by
  intro before number next after heq
  simp at heq

theorem jumpsAtGroups_cons :
    JumpsAtGroups maxGroupSize count ((number, state) :: pendingBlocks) ↔
      (state = .seen → ∀ next, pendingBlocks.head? = some (next, .seen) →
        next = number + 1 ∨ maxGroupSize ∣ count + 1) ∧
      JumpsAtGroups maxGroupSize (if state = .seen then count + 1 else 0) pendingBlocks := by
  constructor
  · intro h
    refine ⟨fun hstate next hnext => ?_, fun before number' next after heq => ?_⟩
    · obtain ⟨after, rfl⟩ := List.head?_eq_some_iff.1 hnext
      exact h [] number next after (by rw [hstate, List.nil_append])
    · exact h ((number, state) :: before) number' next after (by rw [heq, List.cons_append])
  · rintro ⟨hhead, htail⟩ before number' next after heq
    cases before with
    | nil =>
        obtain ⟨hp, rfl⟩ := List.cons.inj heq
        obtain ⟨rfl, hstate⟩ := Prod.mk.inj hp
        exact hhead hstate next rfl
    | cons p before =>
        obtain ⟨rfl, hrest⟩ := List.cons.inj heq
        exact htail before number' next after hrest

/-- Whole groups in front do not matter. -/
theorem seenRow_modEq {count' : Nat} (h : count ≡ count' [MOD maxGroupSize])
    (pendingBlocks : List (BlockNumber × PendingBlockState)) :
    seenRow count pendingBlocks ≡ seenRow count' pendingBlocks [MOD maxGroupSize] := by
  induction pendingBlocks generalizing count count' with
  | nil => exact h
  | cons p pendingBlocks ih =>
      refine ih ?_
      by_cases hp : p.2 = .seen
      · simpa only [hp, if_true] using h.add_right 1
      · simp only [hp, if_false]
        exact Nat.ModEq.rfl

theorem JumpsAtGroups.of_modEq {count' : Nat} (h : count ≡ count' [MOD maxGroupSize])
    (hjumps : JumpsAtGroups maxGroupSize count pendingBlocks) :
    JumpsAtGroups maxGroupSize count' pendingBlocks := by
  intro before number next after heq
  refine (hjumps before number next after heq).imp_right fun hdvd => ?_
  exact (((seenRow_modEq h before).add_right 1).dvd_iff (dvd_refl _)).1 hdvd

theorem jumpsAtGroups_full :
    JumpsAtGroups maxGroupSize maxGroupSize pendingBlocks ↔
      JumpsAtGroups maxGroupSize 0 pendingBlocks := by
  have h : maxGroupSize ≡ 0 [MOD maxGroupSize] := by simp [Nat.ModEq]
  exact ⟨JumpsAtGroups.of_modEq h, JumpsAtGroups.of_modEq h.symm⟩

/-- The runs have no gap if and only if the group that is being built has none,
goes on with the next number, and all later jumps fall between two groups. -/
theorem consecutive_seenRuns_iff {run : List BlockNumber} (hrun : run.length < maxGroupSize) :
    (∀ run' ∈ seenRuns maxGroupSize pendingBlocks run, Runs.Consecutive run') ↔
      Runs.Consecutive run ∧
      (∀ number ∈ run.getLast?, ∀ next, pendingBlocks.head? = some (next, .seen) →
        next = number + 1) ∧
      JumpsAtGroups maxGroupSize run.length pendingBlocks := by
  have hpos : ([] : List BlockNumber).length < maxGroupSize := (Nat.zero_le _).trans_lt hrun
  have hlast : ∀ run : List BlockNumber,
      (∀ run' ∈ (if run = [] then [] else [run]), Runs.Consecutive run') ↔ Runs.Consecutive run := by
    intro run
    by_cases hrun : run = []
    · simp [hrun, Runs.consecutive_nil]
    · simp [hrun]
  induction pendingBlocks generalizing run with
  | nil =>
      rw [seenRuns, hlast]
      simp [jumpsAtGroups_nil]
  | cons p pendingBlocks ih =>
      obtain ⟨number, state⟩ := p
      rw [seenRuns, jumpsAtGroups_cons]
      by_cases hstate : state = .seen
      · rw [if_pos hstate, if_pos hstate]
        by_cases hfull : maxGroupSize ≤ run.length + 1
        · -- the group is full, and the next one begins with the block after this one
          have hlength : run.length + 1 = maxGroupSize := le_antisymm hrun hfull
          have hrest := ih hpos
          rw [if_pos hfull, List.forall_mem_cons, and_congr_right' hrest, Runs.consecutive_concat]
          simp [hstate, hlength, jumpsAtGroups_full, Runs.consecutive_nil, and_assoc]
        · have hlt : run.length + 1 < maxGroupSize := Nat.lt_of_not_le hfull
          have hndvd : ¬ maxGroupSize ∣ run.length + 1 :=
            Nat.not_dvd_of_pos_of_lt (Nat.succ_pos _) hlt
          have hrest := @ih (run ++ [number]) (by simpa using hlt)
          rw [if_neg hfull]
          refine hrest.trans ?_
          rw [Runs.consecutive_concat]
          simp [hstate, hndvd, and_assoc]
      · have hrest := ih hpos
        rw [if_neg hstate, if_neg hstate, List.forall_mem_append, hlast, and_congr_right' hrest]
        simp [hstate, Runs.consecutive_nil]

end Jumps

/-! ## Requests -/

/-- A peer that has been asked for a group of blocks. -/
structure Asked where
  peerId : PeerId
  requestId : RequestId
  group : BlockNumber × Nat

namespace Asked

variable (asked : Asked)

def message : Out :=
  .blockRequest asked.peerId
    { requestId := asked.requestId
      fields := fieldsHeader + fieldsBody + fieldsProof
      blockId := .number asked.group.1
      count := asked.group.2
      direction := .asc }

/-- The blocks of the group are downloading. -/
def mark (number : BlockNumber) (state : PendingBlockState) : PendingBlockState :=
  if Runs.Covers asked.group number then .downloading asked.peerId asked.requestId else state

/-- Of the requests at most one is about a block, and the block is downloading
under it. -/
theorem foldl_mark {requests : List Asked}
    (h : (requests.map Asked.group).Pairwise Runs.Before) (number : BlockNumber)
    (state : PendingBlockState) :
    requests.foldl (fun state asked => asked.mark number state) state =
      ((requests.find? fun asked => Runs.Covers asked.group number).map fun asked =>
        PendingBlockState.downloading asked.peerId asked.requestId).getD state := by
  induction requests generalizing state with
  | nil => rfl
  | cons asked requests ih =>
      obtain ⟨hbefore, hrest⟩ := List.pairwise_cons.1 h
      rw [List.foldl_cons, ih hrest, List.find?_cons]
      by_cases hcovers : Runs.Covers asked.group number
      · have hnone : (requests.find? fun asked => Runs.Covers asked.group number) = none := by
          refine List.find?_eq_none.2 fun asked' hasked' => ?_
          have hnot := (hbefore _ (List.mem_map_of_mem hasked')).not_covers hcovers
          simpa using hnot
        simp [hnone, mark, hcovers]
      · simp [mark, hcovers]

end Asked

/-- The new requests are about blocks that were seen, no two of them about the
same block, and what is downloading now and was not before are these blocks. -/
def RequestsSeen (sync sync' : ChainSync) : Prop :=
  ∃ requests : List Asked,
    sync'.out = sync.out ++ requests.map Asked.message ∧
    (requests.map Asked.group).Pairwise Runs.Before ∧
    (∀ asked ∈ requests, ∀ number, Runs.Covers asked.group number →
      (number, .seen) ∈ sync.pendingBlocks) ∧
    sync'.pendingBlocks = AssocMap.mapValues (fun number state =>
      ((requests.find? fun asked => Runs.Covers asked.group number).map fun asked =>
        PendingBlockState.downloading asked.peerId asked.requestId).getD state) sync.pendingBlocks

/-- A group is asked for, or no peer has it. -/
theorem request_cases (sync : ChainSync) (group : BlockNumber × Nat) :
    sync.request group = sync ∨
      ∃ asked : Asked, asked.group = group ∧
        (sync.request group).out = sync.out ++ [asked.message] ∧
        (sync.request group).pendingBlocks = AssocMap.mapValues asked.mark sync.pendingBlocks := by
  rw [ChainSync.request]
  cases sync.choosePeer group.1 group.2 with
  | none => exact Or.inl rfl
  | some peerId => exact Or.inr ⟨⟨peerId, sync.nextRequestId, group⟩, rfl, rfl, rfl⟩

/-- Of a list of groups some are asked for, one after the other. -/
theorem requests_of_foldl (groups : List (BlockNumber × Nat)) (sync : ChainSync) :
    ∃ requests : List Asked, (requests.map Asked.group).Sublist groups ∧
      (groups.foldl ChainSync.request sync).out = sync.out ++ requests.map Asked.message ∧
      (groups.foldl ChainSync.request sync).pendingBlocks = AssocMap.mapValues (fun number state =>
        requests.foldl (fun state asked => asked.mark number state) state) sync.pendingBlocks := by
  induction groups generalizing sync with
  | nil => exact ⟨[], List.Sublist.refl _, by simp, by simp [AssocMap.mapValues]⟩
  | cons group groups ih =>
      obtain ⟨requests, hsub, hout, hpending⟩ := ih (sync.request group)
      rcases request_cases sync group with hsame | ⟨asked, rfl, hout', hpending'⟩
      · rw [hsame] at hout hpending
        exact ⟨requests, hsub.cons _, by rw [List.foldl_cons, hsame, hout],
          by rw [List.foldl_cons, hsame, hpending]⟩
      · refine ⟨asked :: requests, hsub.cons_cons _, ?_, ?_⟩
        · rw [List.foldl_cons, hout, hout', List.map_cons, List.append_assoc, List.singleton_append]
        · rw [List.foldl_cons, hpending, hpending']
          simp [AssocMap.mapValues]

/-- The groups are in their order and apart, none is empty or too large, and
together they are the blocks that are seen. -/
structure ExactGroups (maxGroupSize : Nat) (pendingBlocks : List (BlockNumber × PendingBlockState))
    (groups : List (BlockNumber × Nat)) : Prop where
  before : groups.Pairwise Runs.Before
  size : ∀ group ∈ groups, 1 ≤ group.2 ∧ group.2 ≤ maxGroupSize
  covers : ∀ number, (∃ group ∈ groups, Runs.Covers group number) ↔ (number, .seen) ∈ pendingBlocks

theorem ExactGroups.requestsSeen {sync : ChainSync}
    (h : ExactGroups peerRequestBlockSize sync.pendingBlocks
      (makeSeenGroups peerRequestBlockSize sync.pendingBlocks none)) :
    RequestsSeen sync sync.maintainSeen := by
  obtain ⟨requests, hsub, hout, hpending⟩ :=
    requests_of_foldl (makeSeenGroups peerRequestBlockSize sync.pendingBlocks none) sync
  have hbefore := h.before.sublist hsub
  refine ⟨requests, hout, hbefore, fun asked hasked number hcovers => ?_, ?_⟩
  · exact (h.covers number).1 ⟨asked.group, hsub.subset (List.mem_map_of_mem hasked), hcovers⟩
  · rw [ChainSync.maintainSeen, hpending]
    simp only [Asked.foldl_mark hbefore]

/-! ## Exact groups -/

section Exact

variable {maxGroupSize : Nat} {pendingBlocks : List (BlockNumber × PendingBlockState)}

theorem makeSeenGroups_none (maxGroupSize : Nat)
    (pendingBlocks : List (BlockNumber × PendingBlockState)) :
    makeSeenGroups maxGroupSize pendingBlocks none =
      (seenRuns maxGroupSize pendingBlocks []).map Runs.toRange :=
  makeSeenGroups_eq maxGroupSize pendingBlocks []

theorem nil_notMem_seenRuns (hmax : 1 ≤ maxGroupSize)
    (pendingBlocks : List (BlockNumber × PendingBlockState)) :
    [] ∉ seenRuns maxGroupSize pendingBlocks [] :=
  fun h => (@length_of_mem_seenRuns _ _ [] hmax _ h).1 rfl

/-- The groups are apart and of the right sizes whatever the numbers are, and
they cover the seen blocks if and only if no run has a gap. -/
theorem exactGroups_iff (hsorted : SortedMap.Sorted pendingBlocks) (hmax : 1 ≤ maxGroupSize) :
    ExactGroups maxGroupSize pendingBlocks (makeSeenGroups maxGroupSize pendingBlocks none) ↔
      JumpsAtGroups maxGroupSize 0 pendingBlocks := by
  have hne := nil_notMem_seenRuns hmax pendingBlocks
  have hflatten := flatten_seenRuns maxGroupSize pendingBlocks []
  have hflat : (seenRuns maxGroupSize pendingBlocks []).flatten.Pairwise (· < ·) := by
    rw [hflatten]
    exact seenNumbers_sorted hsorted
  have hmem : ∀ number, number ∈ (seenRuns maxGroupSize pendingBlocks []).flatten ↔
      (number, .seen) ∈ pendingBlocks := fun number => by
    rw [hflatten]
    exact mem_seenNumbers
  have hjumps : JumpsAtGroups maxGroupSize 0 pendingBlocks ↔
      Runs.Exact (seenRuns maxGroupSize pendingBlocks []) := by
    refine Iff.trans ?_ (Runs.exact_iff hne hflat).symm
    refine Iff.trans ?_ (@consecutive_seenRuns_iff _ pendingBlocks [] hmax).symm
    simp [Runs.consecutive_nil]
  rw [makeSeenGroups_none, hjumps]
  constructor
  · intro h number
    exact (h.covers number).trans (hmem number).symm
  · intro h
    constructor
    case before => exact Runs.pairwise_before hne hflat
    case size =>
      intro group hgroup
      obtain ⟨run, hrun, rfl⟩ := List.mem_map.1 hgroup
      obtain ⟨hnil, hlength⟩ := @length_of_mem_seenRuns _ _ [] hmax _ hrun
      exact ⟨List.length_pos_iff.2 hnil, hlength⟩
    case covers => exact fun number => (h number).trans (hmem number)

/-- The groups are exact, and `maintainSeen` asks for seen blocks only, if and
only if every jump in the numbers falls between two groups. -/
theorem seenGroups_exact_iff (hsorted : SortedMap.Sorted pendingBlocks) (hmax : 1 ≤ maxGroupSize) :
    (ExactGroups maxGroupSize pendingBlocks (makeSeenGroups maxGroupSize pendingBlocks none) ∧
      ∀ sync : ChainSync, sync.pendingBlocks = pendingBlocks → maxGroupSize = peerRequestBlockSize →
        RequestsSeen sync sync.maintainSeen) ↔
      JumpsAtGroups maxGroupSize 0 pendingBlocks := by
  rw [← exactGroups_iff hsorted hmax]
  constructor
  · exact And.left
  · intro h
    refine ⟨h, fun sync hpending hsize => ?_⟩
    subst hpending hsize
    exact h.requestsSeen

end Exact

/-- The blocks 1 and 3 are seen, and 2 is not pending. -/
def withoutTwo : List (BlockNumber × PendingBlockState) := [(1, .seen), (3, .seen)]

theorem seenGroups_exact_two :
    (ExactGroups 2 [(1, .seen), (2, .seen), (4, .seen)]
        (makeSeenGroups 2 [(1, .seen), (2, .seen), (4, .seen)] none) ∧
      ∀ sync : ChainSync, sync.pendingBlocks = [(1, .seen), (2, .seen), (4, .seen)] →
        2 = peerRequestBlockSize → RequestsSeen sync sync.maintainSeen) ↔
      JumpsAtGroups 2 0 [(1, .seen), (2, .seen), (4, .seen)] :=
  seenGroups_exact_iff (by simp [SortedMap.Sorted]) (by decide)

/-- The group of the two blocks has the number 2, and not the number 3. -/
theorem seenGroups_not_exact : SortedMap.Sorted withoutTwo ∧
    makeSeenGroups peerRequestBlockSize withoutTwo none = [(1, 2)] ∧
    ¬ ExactGroups peerRequestBlockSize withoutTwo
      (makeSeenGroups peerRequestBlockSize withoutTwo none) := by
  refine ⟨by simp [SortedMap.Sorted, withoutTwo], by decide, fun h => ?_⟩
  have hthree := (h.covers 3).2 (by decide)
  exact absurd hthree (by decide)
end Finastate.Sync
