import Finastate.Hotstuff.Panics
import Finastate.Module.Council
import Finastate.Module.Meta

/-!
# The arithmetic of a stored list

Genesis and the proposals of the hotstuff module store any list of members; its
weights are added up by the consensus. `Counted` says that no step of this
leaves the range of its type, and that the quorum is one. It holds exactly for
the lists whose weights add up to a positive number of type `u32`.
-/

namespace Finastate

/-- `u32` addition where an overflow is an error. -/
def checkedAdd (a b : Nat) : Option Nat := if a + b < 2 ^ 32 then some (a + b) else none

theorem checkedAdd_eq_some_iff {a b c : Nat} :
    checkedAdd a b = some c ↔ a + b < 2 ^ 32 ∧ a + b = c := by
  simp [checkedAdd]

namespace Hotstuff

open Executor

/-- `addWeight` where an overflow is an error. -/
def addWeight? : List (Address × Nat) → Address → Nat → Option (List (Address × Nat))
  | [], address, weight => some [(address, weight)]
  | (a, w) :: members, address, weight =>
      if a = address then (checkedAdd w weight).map fun w => (a, w) :: members
      else (addWeight? members address weight).map fun members => (a, w) :: members

/-- The loop of `aggregate_authorities` where an overflow is an error. -/
def aggregate? : List (Address × Nat) → List (Address × Nat) → Option (List (Address × Nat))
  | [], members => some members
  | x :: input, members =>
      if 0 < x.2 then (addWeight? members x.1 x.2).bind (aggregate? input)
      else aggregate? input members

/-- The fold over the weights where an overflow is an error. -/
def sum? : List (Address × Nat) → Nat → Option Nat
  | [], sum => some sum
  | x :: members, sum => (checkedAdd sum x.2).bind (sum? members)

/-- Every step of the consensus code on the weights of a stored list, and what
a quorum has to be; `n` is the exact sum of the stored weights. -/
structure Authorities.Counted (stored : Authorities) (n : Nat) : Prop where
  /-- `find.1 += weight` -/
  aggregate : aggregate? stored.members [] = some (aggregateAuthorities stored).members
  /-- `fold(0u32, |sum, x| sum + x.1)` -/
  sum : sum? (aggregateAuthorities stored).members 0 = some (aggregateAuthorities stored).n
  exact : (aggregateAuthorities stored).n = n
  /-- `n - 1` -/
  one_le : 1 ≤ (aggregateAuthorities stored).n
  /-- `n - f` -/
  f_le : (aggregateAuthorities stored).f ≤ (aggregateAuthorities stored).n
  /-- `members.len() - 1` -/
  one_le_length : 1 ≤ (aggregateAuthorities stored).members.length
  /-- `members[0]` -/
  first : (aggregateAuthorities stored).members[0]?.isSome
  /-- `members[leader_index % members.len()]` -/
  turn : ∀ leaderIndex : Nat, (aggregateAuthorities stored).members.length ≠ 0 ∧
    ((aggregateAuthorities stored).members[
      leaderIndex % (aggregateAuthorities stored).members.length]?).isSome
  quorum_pos : 0 < (aggregateAuthorities stored).quorum
  quorum_le : (aggregateAuthorities stored).quorum ≤ n
  two_thirds : 2 * n < 3 * (aggregateAuthorities stored).quorum

/-- A checked addition of a weight adds it to the total. -/
theorem total_of_addWeight? {members members' : List (Address × Nat)} {address : Address}
    {weight : Nat} (h : addWeight? members address weight = some members') :
    Weights.total members' = Weights.total members + weight := by
  induction members generalizing members' with
  | nil =>
      cases h
      simp [Weights.total]
  | cons m members ih =>
      obtain ⟨a, w⟩ := m
      rw [addWeight?] at h
      split at h
      · obtain ⟨w', hw', rfl⟩ := Option.map_eq_some_iff.1 h
        obtain ⟨-, rfl⟩ := checkedAdd_eq_some_iff.1 hw'
        simp only [Weights.total, List.map_cons, List.sum_cons]
        omega
      · obtain ⟨rest, hrest, rfl⟩ := Option.map_eq_some_iff.1 h
        have htotal := ih hrest
        simp only [Weights.total, List.map_cons, List.sum_cons] at htotal ⊢
        omega

theorem addWeight?_eq {members : List (Address × Nat)} {weight : Nat} (address : Address)
    (h : Weights.total members + weight < 2 ^ 32) :
    addWeight? members address weight = some (addWeight members address weight) := by
  induction members with
  | nil => rfl
  | cons m members ih =>
      obtain ⟨a, w⟩ := m
      have htotal : Weights.total ((a, w) :: members) = w + Weights.total members := rfl
      rw [htotal] at h
      rw [addWeight?, addWeight]
      split
      · have hadd : w + weight < 2 ^ 32 := by omega
        rw [checkedAdd, if_pos hadd, wrapAdd_of_lt hadd]
        rfl
      · rw [ih (by omega)]
        rfl

theorem total_of_aggregate? {input members members' : List (Address × Nat)}
    (h : aggregate? input members = some members') :
    Weights.total members' = Weights.total members + Weights.total input := by
  induction input generalizing members with
  | nil =>
      cases h
      rfl
  | cons x input ih =>
      have htotal : Weights.total (x :: input) = x.2 + Weights.total input := rfl
      rw [aggregate?] at h
      split at h
      · obtain ⟨added, hadded, hrest⟩ := Option.bind_eq_some_iff.1 h
        rw [ih hrest, total_of_addWeight? hadded, htotal, Nat.add_assoc]
      · rw [ih h, htotal]
        omega

theorem aggregate?_eq {input members : List (Address × Nat)}
    (h : Weights.total members + Weights.total input < 2 ^ 32) :
    aggregate? input members = some (input.foldl (fun members x =>
      if 0 < x.2 then addWeight members x.1 x.2 else members) members) := by
  induction input generalizing members with
  | nil => rfl
  | cons x input ih =>
      have htotal : Weights.total (x :: input) = x.2 + Weights.total input := rfl
      rw [htotal] at h
      rw [aggregate?, List.foldl_cons]
      split
      · rw [addWeight?_eq x.1 (by omega), Option.bind_some]
        apply ih
        rw [Authorities.total_addWeight _ _ _ (by omega)]
        omega
      · exact ih (by omega)

theorem sum?_eq_some_iff {members : List (Address × Nat)} {sum n : Nat} (hsum : sum < 2 ^ 32) :
    sum? members sum = some n ↔ sum + Weights.total members < 2 ^ 32 ∧
      sum + Weights.total members = n := by
  induction members generalizing sum with
  | nil =>
      have htotal : Weights.total ([] : List (Address × Nat)) = 0 := rfl
      rw [sum?, htotal, Nat.add_zero, Option.some.injEq]
      exact ⟨fun h => ⟨hsum, h⟩, And.right⟩
  | cons x members ih =>
      have htotal : Weights.total (x :: members) = x.2 + Weights.total members := rfl
      rw [sum?, htotal, Option.bind_eq_some_iff]
      constructor
      · rintro ⟨next, hnext, hrest⟩
        obtain ⟨hlt, rfl⟩ := checkedAdd_eq_some_iff.1 hnext
        rw [ih hlt] at hrest
        omega
      · rintro ⟨hlt, heq⟩
        have hnext : sum + x.2 < 2 ^ 32 := by omega
        exact ⟨_, checkedAdd_eq_some_iff.2 ⟨hnext, rfl⟩, (ih hnext).2 (by omega)⟩

namespace Authorities

theorem Counted.total_lt {stored : Authorities}
    (h : stored.Counted (Weights.total stored.members)) :
    0 < Weights.total stored.members ∧ Weights.total stored.members < 2 ^ 32 := by
  have htotal := total_of_aggregate? h.aggregate
  have hsum := (sum?_eq_some_iff (by omega)).1 h.sum
  have hpos := h.one_le
  have hnil : Weights.total ([] : List (Address × Nat)) = 0 := rfl
  omega

theorem counted_of_total_lt {stored : Authorities}
    (hpos : 0 < Weights.total stored.members) (hlt : Weights.total stored.members < 2 ^ 32) :
    stored.Counted (Weights.total stored.members) := by
  have htotal := total_aggregate stored hlt
  have hn : (aggregateAuthorities stored).n = Weights.total stored.members := by
    rw [n, foldl_wrapAdd _ 0 (by omega), Nat.zero_add, htotal]
  have hf : (aggregateAuthorities stored).f = (Weights.total stored.members - 1) / 3 := by
    rw [f, hn, wrapSub_of_le hlt hpos]
  have hquorum : (aggregateAuthorities stored).quorum =
      Weights.total stored.members - (Weights.total stored.members - 1) / 3 := by
    rw [quorum, hn, hf, wrapSub_of_le hlt (by omega)]
  have hlength : 0 < (aggregateAuthorities stored).members.length := by
    apply List.length_pos_of_ne_nil
    intro hnil
    rw [hnil] at htotal
    exact hpos.ne htotal
  refine
    { aggregate := aggregate?_eq (by simpa [Weights.total] using hlt)
      sum := (sum?_eq_some_iff (by omega)).2 (by omega)
      exact := hn
      one_le := by omega
      f_le := by omega
      one_le_length := hlength
      first := by simpa using hlength
      turn := ?_
      quorum_pos := by omega
      quorum_le := by omega
      two_thirds := by omega }
  intro leaderIndex
  exact ⟨hlength.ne', by simpa using Nat.mod_lt leaderIndex hlength⟩

end Authorities

end Hotstuff

/-! ## What is stored -/

namespace HotstuffModule

open Executor Governance

/-- A call that stores a list: `init` in the genesis block, or a proposal or a
vote with which a proposal of authorities passes. -/
inductive Stores (util : Util) (c : MetaContext) (members : List (Address × Nat)) :
    MetaContext → Prop
  | init {params : Methods.Hotstuff.InitParams} {c' : MetaContext}
      (hvalid : Methods.Hotstuff.validateInit util params = .ok ())
      (hmembers : params.authorities = members) (hinit : init c params = .ok c') :
      Stores util c members c'
  | proposed {sender : Option Address} {c' : MetaContext}
      (hcall : updateAuthorities c sender members = .ok c')
      (hpassed : authoritiesKind.proposal.get c' = .ok none) : Stores util c members c'
  | voted {sender : Option Address} {p : Proposal (List (Address × Nat))} {c' : MetaContext}
      (hp : authoritiesKind.proposal.get c = .ok (some p)) (hmembers : p.value = members)
      (hcall : updateAuthoritiesVote c sender p.proposalId = .ok c')
      (hpassed : authoritiesKind.proposal.get c' = .ok none) : Stores util c members c'

theorem authorities_ne_proposalId : authorities.key ≠ authoritiesKind.proposalId.key := by
  decide +kernel

theorem authorities_ne_proposal : authorities.key ≠ authoritiesKind.proposal.key := by
  decide +kernel

theorem proposal_ne_nextId :
    authoritiesKind.proposal.key ≠ authoritiesKind.proposalId.key := by
  decide +kernel

theorem roundTrip_authorities :
    Codec.RoundTrip authorities.encode authorities.decode (Codec.ValidVec ValidMember) :=
  roundTrip_members

/-- A vote after which nothing is pending has stored what was proposed. -/
theorem get_authorities_of_voted {c c' : MetaContext} {p : Proposal (List (Address × Nat))}
    {passes : Prop} (hvalid : Codec.ValidVec ValidMember p.value)
    (h : authoritiesKind.Voted (storePassed authorities) c p passes c')
    (hpassed : authoritiesKind.proposal.get c' = .ok none) :
    authorities.get c' = .ok (some p.value) := by
  cases h with
  | passed hpasses hpass =>
      cases hpass
      rw [StorageValue.get_set_of_ne authorities_ne_proposalId,
        StorageValue.get_delete_of_ne authorities_ne_proposal, Kind.emit,
        StorageValue.get_emitEvent]
      exact StorageValue.get_set roundTrip_authorities hvalid _
  | recorded hnot =>
      rw [StorageValue.get_set_of_ne proposal_ne_nextId] at hpassed
      exact absurd hpassed (StorageValue.get_set_ne_none _ _ _)

/-- The stored list is the one that was given. -/
theorem Stores.getAuthorities_eq {util : Util} {c c' : MetaContext}
    {members : List (Address × Nat)} (hvalid : Codec.ValidVec ValidMember members)
    (h : Stores util c members c') : getAuthorities c' = .ok ⟨members⟩ := by
  suffices hget : authorities.get c' = .ok (some members) by
    rw [getAuthorities, hget]
    rfl
  cases h with
  | init hparams hmembers hinit =>
      unfold HotstuffModule.init at hinit
      split at hinit
      · cases hinit
      · cases hinit
        rw [hmembers]
        exact StorageValue.get_set roundTrip_authorities hvalid _
  | proposed hcall hpassed =>
      obtain ⟨s, a, next, c₁, -, -, -, -, -, hvoted⟩ := Kind.update_eq_ok _ _ hcall
      exact get_authorities_of_voted hvalid hvoted hpassed
  | @voted sender p _ hp hmembers hcall hpassed =>
      obtain ⟨s, a, p', -, -, -, hp', -, hvoted⟩ := Kind.updateVote_eq_ok _ _ hcall
      rw [hp, Except.ok.injEq, Option.some.injEq] at hp'
      rw [← hmembers] at hvalid ⊢
      rw [← hp'] at hvoted
      exact get_authorities_of_voted (p := Kind.voted p s) hvalid hvoted hpassed

/-- What the consensus does with a stored list is defined exactly when the
weights add up to a positive number that fits into `u32`. -/
theorem Stores.counted_iff {util : Util} {c c' : MetaContext} {members : List (Address × Nat)}
    (hvalid : Codec.ValidVec ValidMember members) (h : Stores util c members c') :
    ∃ stored, getAuthorities c' = .ok stored ∧
      (stored.Counted (Weights.total stored.members) ↔
        0 < Weights.total members ∧ Weights.total members < 2 ^ 32) := by
  refine ⟨⟨members⟩, h.getAuthorities_eq hvalid, ?_⟩
  constructor
  · exact Hotstuff.Authorities.Counted.total_lt
  · rintro ⟨hpos, hlt⟩
    exact Hotstuff.Authorities.counted_of_total_lt hpos hlt

/-- A genesis with the one admin `7` and these authorities. -/
def genesis (members : List (Address × Nat)) : Methods.Hotstuff.InitParams where
  blockInterval := none
  viewTimeout := 0
  admin := (1, [(⟨[7]⟩, 1)])
  authorities := members

theorem stores_genesis (members : List (Address × Nat))
    (hvalid : Methods.Hotstuff.validateInit ⟨Hash.mk, Address.mk, 1⟩ (genesis members) = .ok ()) :
    ∃ c', Stores ⟨Hash.mk, Address.mk, 1⟩ (Context.new ⟨0, 0⟩ [] []) members c' :=
  ⟨_, .init hvalid rfl rfl⟩

/-- Three members, one of which has a second entry and one no weight. -/
def council : List (Address × Nat) := [(⟨[7]⟩, 3), (⟨[8]⟩, 2), (⟨[7]⟩, 1), (⟨[9]⟩, 0)]

/-- Two members with the weights four and two are left. -/
theorem counted_council : ∃ c' stored,
    Stores ⟨Hash.mk, Address.mk, 1⟩ (Context.new ⟨0, 0⟩ [] []) council c' ∧
      getAuthorities c' = .ok stored ∧
      (Hotstuff.aggregateAuthorities stored).members = [(⟨[7]⟩, 4), (⟨[8]⟩, 2)] ∧
      stored.Counted (Weights.total stored.members) := by
  obtain ⟨c', hstores⟩ := stores_genesis council (by decide)
  obtain ⟨stored, hread, hiff⟩ := hstores.counted_iff (by decide)
  obtain rfl : ⟨council⟩ = stored :=
    Except.ok.inj ((hstores.getAuthorities_eq (by decide)).symm.trans hread)
  exact ⟨c', ⟨council⟩, hstores, hread, by decide, hiff.2 (by decide)⟩

/-- Genesis accepts a list without members, and `n - 1` is below zero. -/
theorem not_counted_nil : ∃ c' stored,
    Stores ⟨Hash.mk, Address.mk, 1⟩ (Context.new ⟨0, 0⟩ [] []) [] c' ∧
      getAuthorities c' = .ok stored ∧ ¬ stored.Counted (Weights.total stored.members) := by
  obtain ⟨c', hstores⟩ := stores_genesis [] (by decide)
  have hread := hstores.getAuthorities_eq (by decide)
  refine ⟨c', ⟨[]⟩, hstores, hread, ?_⟩
  intro hcounted
  exact absurd hcounted.one_le (by decide)

end HotstuffModule

end Finastate
