import Finastate.Library.Result
import Finastate.Module.Governance

/-!
# What a vote does

A call of `update_..` or `update_.._vote` that succeeds comes from a member of
the admin. It leaves the proposal pending with one more vote, or passes it:
`Voted` has the two cases. What is read afterwards follows from the round trip
of the encodings, as long as the fields of a kind have keys of their own.
-/

namespace Finastate.Governance

open Executor
open Contract (Admin encodeAdmin decodeAdmin)

/-! ## Encodings -/

def ValidAddress (address : Address) : Prop := Codec.ValidBytes address.bytes

def ValidMember (member : Address × Nat) : Prop := ValidAddress member.1 ∧ Codec.U32 member.2

instance (address : Address) : Decidable (ValidAddress address) :=
  inferInstanceAs (Decidable (Codec.ValidBytes address.bytes))

instance : DecidablePred ValidMember := fun member =>
  inferInstanceAs (Decidable (ValidAddress member.1 ∧ Codec.U32 member.2))

@[mk_iff]
structure ValidAdmin (admin : Admin) : Prop where
  threshold : Codec.U32 admin.threshold
  members : Codec.ValidVec ValidMember admin.members

instance (admin : Admin) : Decidable (ValidAdmin admin) :=
  decidable_of_iff _ (validAdmin_iff admin).symm

structure ValidProposal {V : Type} (Valid : V → Prop) (proposal : Proposal V) : Prop where
  proposalId : Codec.U32 proposal.proposalId
  value : Valid proposal.value
  vote : Codec.ValidVec ValidAddress proposal.vote

theorem roundTrip_members :
    Codec.RoundTrip
      (Codec.encodeVec fun member : Address × Nat =>
        Codec.encodeBytes member.1.bytes ++ Codec.encodeLe 4 member.2)
      (Codec.decodeVec fun input => do
        let (address, rest) ← Codec.decodeAddress input
        let (weight, rest) ← Codec.decodeU32 rest
        return ((address, weight), rest))
      (Codec.ValidVec ValidMember) :=
  (Codec.roundTrip_address.pair Codec.roundTrip_u32).vec

theorem roundTrip_admin : Codec.RoundTrip encodeAdmin decodeAdmin ValidAdmin := by
  intro admin hadmin rest
  have hthreshold := Codec.roundTrip_u32 admin.threshold hadmin.threshold
  have hmembers := roundTrip_members admin.members hadmin.members rest
  rw [encodeAdmin, List.append_assoc, List.append_assoc,
    ← List.append_assoc (Codec.encodeCompact _), decodeAdmin, hthreshold]
  exact congrArg (fun members => members.bind fun m : List (Address × Nat) × Bytes =>
    some (({ threshold := admin.threshold, members := m.1 } : Admin), m.2)) hmembers

theorem roundTrip_proposal {V : Type} {encode : V → Bytes} {decode : Codec.Decoder V}
    {Valid : V → Prop} (h : Codec.RoundTrip encode decode Valid) :
    Codec.RoundTrip (encodeProposal encode) (decodeProposal decode) (ValidProposal Valid) := by
  intro proposal hproposal rest
  have hid := Codec.roundTrip_u32 proposal.proposalId hproposal.proposalId
  have hvalue := h proposal.value hproposal.value
  have hvote := (Codec.RoundTrip.vec Codec.roundTrip_address) proposal.vote hproposal.vote rest
  rw [encodeProposal, List.append_assoc, List.append_assoc, decodeProposal, hid]
  simp only [Option.bind_eq_bind, Option.bind_some, hvalue]
  exact congrArg (fun vote => vote.bind fun v : List Address × Bytes =>
    some (({ proposal with vote := v.1 } : Proposal V), v.2)) hvote

/-! ## Weights -/

/-- While the sum fits into `u32` it is the weight of the set of the voters. -/
theorem tally_eq {members : List (Address × Nat)} (hlt : Weights.total members < 2 ^ 32)
    {vote : List Address} (hvote : vote.Nodup) :
    tally members vote = Weights.weightOf members vote.toFinset := by
  suffices h : ∀ (vote : List Address) (seen : Finset Address), vote.Nodup →
      Disjoint vote.toFinset seen →
      vote.foldl (fun sum v => wrapAdd 32 sum ((Weights.weight? members v).getD 0))
        (Weights.weightOf members seen) =
          Weights.weightOf members (vote.toFinset ∪ seen) by
    have hempty := h vote ∅ hvote (Finset.disjoint_empty_right _)
    rw [Finset.union_empty] at hempty
    exact hempty
  intro vote
  induction vote with
  | nil =>
      intro seen _ _
      rw [List.toFinset_nil, Finset.empty_union]
      rfl
  | cons v vote ih =>
      intro seen hnodup hdisjoint
      rw [List.nodup_cons] at hnodup
      rw [List.toFinset_cons, Finset.disjoint_insert_left] at hdisjoint
      have hinsert := Weights.weightOf_insert members hdisjoint.1
      have hle := Weights.weightOf_le_total members (insert v seen)
      have hadd : wrapAdd 32 (Weights.weightOf members seen)
          ((Weights.weight? members v).getD 0) = Weights.weightOf members (insert v seen) := by
        rw [wrapAdd_of_lt (by omega)]
        omega
      have hrest : Disjoint vote.toFinset (insert v seen) := by
        rw [Finset.disjoint_insert_right]
        exact ⟨by simpa using hnodup.1, hdisjoint.2⟩
      rw [List.foldl_cons, hadd, ih _ hnodup.2 hrest, List.toFinset_cons,
        Finset.union_insert, Finset.insert_union]

/-- The weight of the listed entries of these addresses. -/
def entriesWeight (members : List (Address × Nat)) (s : Finset Address) : Nat :=
  Weights.total (members.filter fun m => m.1 ∈ s)

/-- An address that is listed once has one entry. -/
theorem entriesWeight_eq {members : List (Address × Nat)}
    (hnodup : (members.map Prod.fst).Nodup) (s : Finset Address) :
    entriesWeight members s = Weights.weightOf members s := by
  have hpart : Weights.weightOf members
      ((members.filter fun m => m.1 ∈ s).map Prod.fst).toFinset =
        Weights.total (members.filter fun m => m.1 ∈ s) :=
    Weights.weightOf_sublist hnodup List.filter_sublist
  rw [entriesWeight, ← hpart]
  apply le_antisymm
  · apply Weights.weightOf_le_of_keys
    intro a ha _
    obtain ⟨m, hm, rfl⟩ := List.mem_map.1 (List.mem_toFinset.1 ha)
    simpa using (List.mem_filter.1 hm).2
  · apply Weights.weightOf_le_of_keys
    intro a ha hkey
    obtain ⟨m, hm, rfl⟩ := List.mem_map.1 hkey
    exact List.mem_toFinset.2 (List.mem_map_of_mem (List.mem_filter.2 ⟨hm, by simpa using ha⟩))

theorem isSome_weight?_iff (members : List (Address × Nat)) (a : Address) :
    (Weights.weight? members a).isSome ↔ a ∈ members.map Prod.fst := by
  rw [Option.isSome_iff_ne_none, Ne, Weights.weight?_eq_none_iff, not_not]

/-! ## Aggregation of an admin -/

theorem nodup_aggregateAdmin (admin : Admin) :
    ((aggregateAdmin admin).members.map Prod.fst).Nodup :=
  Hotstuff.nodup_aggregateAuthorities ⟨admin.members⟩

theorem total_aggregateAdmin {admin : Admin} (hlt : Weights.total admin.members < 2 ^ 32) :
    Weights.total (aggregateAdmin admin).members = Weights.total admin.members :=
  Hotstuff.Authorities.total_aggregate ⟨admin.members⟩ hlt

/-! ## Calls -/

namespace Kind

variable {C V : Type} [ContextT C] (k : Kind V) (pass : C → Proposal V → ModuleResult C)
  {c c' : C} {sender : Address} {members : List (Address × Nat)} {threshold : Nat}

/-- The proposal after a vote. -/
def voted (proposal : Proposal V) (sender : Address) : Proposal V :=
  { proposal with vote := Ballot.addVote proposal.vote sender }

/-- What a vote leaves: a passed proposal is gone, another one is pending. -/
inductive Voted (c : C) (proposal : Proposal V) (passes : Prop) : C → Prop
  | passed {c' : C} (h : passes) (hpass : pass (k.emit c "Voted" proposal) proposal = .ok c') :
      Voted c proposal passes (k.proposalId.set (k.proposal.delete (k.emit c' "Passed" proposal))
        (wrapAdd 32 proposal.proposalId 1))
  | recorded (h : ¬ passes) :
      Voted c proposal passes (k.proposalId.set
        (k.proposal.set (k.emit c "Voted" proposal) proposal) (wrapAdd 32 proposal.proposalId 1))

theorem voted_of_voteAndPass {proposal : Proposal V}
    (h : k.voteAndPass pass c sender proposal threshold members = .ok c') :
    k.Voted pass c (voted proposal sender)
      (threshold ≤ tally members (voted proposal sender).vote) c' := by
  rw [voteAndPass] at h
  split at h
  case isTrue hpasses =>
    obtain ⟨c₁, hc₁, hset⟩ := Result.bind_eq_ok.1 h
    cases hset
    exact .passed hpasses hc₁
  case isFalse hnot =>
    cases h
    exact .recorded hnot

theorem verifySender_eq_ok_iff {t : Nat} {ms : List (Address × Nat)} :
    k.verifySender c sender = .ok (t, ms) ↔
      ∃ a, k.admin.get c = .ok (some a) ∧ sender ∈ a.members.map Prod.fst ∧
        t = a.threshold ∧ ms = a.members := by
  rw [verifySender, Result.bind_eq_ok]
  constructor
  · rintro ⟨found, hfound, hrest⟩
    cases found with
    | none => cases hrest
    | some a =>
        simp only at hrest
        split at hrest
        case isTrue hmember =>
          cases hrest
          exact ⟨a, hfound, (isSome_weight?_iff _ _).1 hmember, rfl, rfl⟩
        case isFalse hnot => cases hrest
  · rintro ⟨a, ha, hmember, rfl, rfl⟩
    exact ⟨some a, ha, if_pos ((isSome_weight?_iff _ _).2 hmember)⟩

/-- A proposal is made by a member and is voted for at once. -/
theorem update_eq_ok {sender : Option Address} {value : V}
    (h : k.update pass c sender value = .ok c') :
    ∃ s a next c₁, sender = some s ∧ k.admin.get c = .ok (some a) ∧
      s ∈ a.members.map Prod.fst ∧ k.proposalId.get c = .ok next ∧
      c₁ = k.emit c "Created" ⟨next.getD 1, value, []⟩ ∧
      k.Voted pass c₁ ⟨next.getD 1, value, [s]⟩ (a.threshold ≤ tally a.members [s]) c' := by
  cases sender with
  | none => cases h
  | some s =>
      obtain ⟨⟨t, ms⟩, hverify, hrest⟩ := Result.bind_eq_ok.1 h
      obtain ⟨a, ha, hmember, rfl, rfl⟩ := (k.verifySender_eq_ok_iff).1 hverify
      obtain ⟨next, hnext, hvote⟩ := Result.bind_eq_ok.1 hrest
      exact ⟨s, a, next, _, rfl, ha, hmember, hnext, rfl, k.voted_of_voteAndPass pass hvote⟩

/-- A vote is cast by a member for the pending proposal. -/
theorem updateVote_eq_ok {sender : Option Address} {proposalId : Nat}
    (h : k.updateVote pass c sender proposalId = .ok c') :
    ∃ s a p, sender = some s ∧ k.admin.get c = .ok (some a) ∧
      s ∈ a.members.map Prod.fst ∧ k.proposal.get c = .ok (some p) ∧
      p.proposalId = proposalId ∧
      k.Voted pass c (voted p s) (a.threshold ≤ tally a.members (voted p s).vote) c' := by
  cases sender with
  | none => cases h
  | some s =>
      obtain ⟨found, hfound, hrest⟩ := Result.bind_eq_ok.1 h
      cases found with
      | none => cases hrest
      | some p =>
          simp only at hrest
          split at hrest
          case isTrue hne => cases hrest
          case isFalse heq =>
            obtain ⟨⟨t, ms⟩, hverify, hvote⟩ := Result.bind_eq_ok.1 hrest
            obtain ⟨a, ha, hmember, rfl, rfl⟩ := (k.verifySender_eq_ok_iff).1 hverify
            exact ⟨s, a, p, rfl, ha, hmember, hfound, not_not.1 heq,
              k.voted_of_voteAndPass pass hvote⟩

end Kind

end Finastate.Governance
