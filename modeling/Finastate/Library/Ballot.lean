import Mathlib.Data.Finset.Lattice.Lemmas
import Mathlib.Data.List.Nodup
import Mathlib.Data.List.Range
import Mathlib.Tactic.Common

/-!
# Ballots

The members of a council make proposals and vote for them. The record keeps
all that happened: who proposed what under which id, and who voted for which
id. A council itself keeps much less, the id of the next proposal and the one
proposal that is pending with its votes, and `Kept` says that this agrees with
the record: ids count up and the votes are those of the record.
-/

namespace Ballot

/-- A proposal is made, which is also a vote for it, or a vote is cast. -/
inductive Entry (α V : Type*)
  | proposed (id : ℕ) (value : V) (voter : α)
  | voted (id : ℕ) (voter : α)

namespace Entry

variable {α V : Type*}

def id : Entry α V → ℕ
  | proposed id _ _ => id
  | voted id _ => id

def voter : Entry α V → α
  | proposed _ _ voter => voter
  | voted _ voter => voter

def proposal? : Entry α V → Option (ℕ × V)
  | proposed id value _ => some (id, value)
  | voted _ _ => none

end Entry

/-- A proposal that has not passed, with its votes. -/
structure Pending (α V : Type*) where
  id : ℕ
  value : V
  votes : List α

section

variable {α V : Type*}

/-- The proposals of a record, with their ids. -/
def proposals (r : List (Entry α V)) : List (ℕ × V) := r.filterMap Entry.proposal?

theorem proposals_append (r r' : List (Entry α V)) :
    proposals (r ++ r') = proposals r ++ proposals r' :=
  List.filterMap_append

variable [DecidableEq α]

/-- All that have voted for the proposal with this id. -/
def voters (r : List (Entry α V)) (id : ℕ) : Finset α :=
  ((r.filter fun e => e.id = id).map Entry.voter).toFinset

theorem voters_append_singleton (r : List (Entry α V)) (e : Entry α V) :
    voters (r ++ [e]) e.id = insert e.voter (voters r e.id) := by
  have hlast : [e].filter (fun e' => e'.id = e.id) = [e] := by simp
  rw [voters, List.filter_append, hlast, List.map_append, List.toFinset_append,
    Finset.union_comm, List.map_singleton, List.toFinset_cons, List.toFinset_nil,
    Finset.insert_union, Finset.empty_union]
  rfl

/-- Nobody has voted for an id that does not occur. -/
theorem voters_eq_empty {r : List (Entry α V)} {id : ℕ} (h : ∀ e ∈ r, e.id ≠ id) :
    voters r id = ∅ := by
  rw [voters, List.filter_eq_nil_iff.2]
  · rfl
  · intro e he
    simpa using h e he

/-- A voter is put at the end, once. -/
def addVote (votes : List α) (voter : α) : List α :=
  if voter ∈ votes then votes else votes ++ [voter]

theorem nodup_addVote {votes : List α} (h : votes.Nodup) (voter : α) :
    (addVote votes voter).Nodup := by
  rw [addVote]
  split
  case isTrue hmem => exact h
  case isFalse hnot =>
    rw [List.nodup_append]
    refine ⟨h, List.nodup_singleton voter, ?_⟩
    intro a ha b hb hab
    rw [List.mem_singleton.1 hb] at hab
    exact hnot (hab ▸ ha)

theorem toFinset_addVote (votes : List α) (voter : α) :
    (addVote votes voter).toFinset = insert voter votes.toFinset := by
  rw [addVote]
  split
  case isTrue hmem => rw [Finset.insert_eq_self.2 (List.mem_toFinset.2 hmem)]
  case isFalse hnot =>
    rw [List.toFinset_append, List.toFinset_cons, List.toFinset_nil, Finset.union_insert,
      Finset.union_empty]

/-- What a council keeps agrees with the record. -/
structure Kept (r : List (Entry α V)) (next : ℕ) (pending : Option (Pending α V)) : Prop where
  pos : 0 < next
  ids : (proposals r).map Prod.fst = List.range' 1 (next - 1)
  old : ∀ e ∈ r, e.id < next
  last : ∀ p ∈ pending, p.id + 1 = next
  proposed : ∀ p ∈ pending, (p.id, p.value) ∈ proposals r
  nodup : ∀ p ∈ pending, p.votes.Nodup
  votes : ∀ p ∈ pending, p.votes.toFinset = voters r p.id

namespace Kept

variable {r : List (Entry α V)} {next : ℕ} {pending pending' : Option (Pending α V)}

theorem nil : Kept ([] : List (Entry α V)) 1 none :=
  ⟨Nat.one_pos, rfl, nofun, nofun, nofun, nofun, nofun⟩

/-- No id is used for two proposals. -/
theorem nodup_ids (h : Kept r next pending) : ((proposals r).map Prod.fst).Nodup := by
  rw [h.ids]
  exact List.nodup_range'

theorem length_proposals (h : Kept r next pending) : (proposals r).length + 1 = next := by
  have hlen := congrArg List.length h.ids
  rw [List.length_map, List.length_range'] at hlen
  have hpos := h.pos
  omega

/-- A new proposal takes the place of the pending one. -/
theorem propose (h : Kept r next pending) (value : V) (voter : α)
    (hpending : ∀ p ∈ pending', p = ⟨next, value, [voter]⟩) :
    Kept (r ++ [.proposed next value voter]) (next + 1) pending' := by
  have hpos := h.pos
  have hnext : next + 1 - 1 = next - 1 + 1 := by omega
  have hvoters : voters (r ++ [Entry.proposed next value voter]) next = {voter} := by
    have hnone : voters r next = ∅ := voters_eq_empty fun e he => (h.old e he).ne
    have hinsert := voters_append_singleton r (Entry.proposed next value voter)
    simpa [Entry.id, Entry.voter, hnone] using hinsert
  refine ⟨Nat.succ_pos next, ?_, ?_, ?_, ?_, ?_, ?_⟩
  · have hlast : 1 + 1 * (next - 1) = next := by omega
    rw [proposals_append, List.map_append, h.ids, hnext, List.range'_concat, hlast]
    rfl
  · intro e he
    rcases List.mem_append.1 he with hold | hnew
    · exact Nat.lt_succ_of_lt (h.old e hold)
    · rw [List.mem_singleton.1 hnew]
      exact Nat.lt_succ_self next
  · intro p hp
    rw [hpending p hp]
  · intro p hp
    rw [hpending p hp, proposals_append]
    exact List.mem_append_right _ List.mem_cons_self
  · intro p hp
    rw [hpending p hp]
    exact List.nodup_singleton voter
  · intro p hp
    rw [hpending p hp, hvoters]
    rfl

/-- A vote for the pending proposal. -/
theorem vote {p : Pending α V} (h : Kept r next (some p)) (voter : α)
    (hpending : ∀ q ∈ pending', q = { p with votes := addVote p.votes voter }) :
    Kept (r ++ [.voted p.id voter]) next pending' := by
  have hproposals : proposals (r ++ [Entry.voted p.id voter]) = proposals r := by
    rw [proposals_append]
    exact List.append_nil _
  refine ⟨h.pos, ?_, ?_, ?_, ?_, ?_, ?_⟩
  · rw [hproposals, h.ids]
  · intro e he
    rcases List.mem_append.1 he with hold | hnew
    · exact h.old e hold
    · rw [List.mem_singleton.1 hnew, ← h.last p rfl]
      exact Nat.lt_succ_self p.id
  · intro q hq
    rw [hpending q hq]
    exact h.last p rfl
  · intro q hq
    rw [hpending q hq, hproposals]
    exact h.proposed p rfl
  · intro q hq
    rw [hpending q hq]
    exact nodup_addVote (h.nodup p rfl) voter
  · intro q hq
    have hinsert := voters_append_singleton r (Entry.voted p.id voter)
    rw [hpending q hq, toFinset_addVote, h.votes p rfl]
    exact hinsert.symm

end Kept

end

end Ballot
