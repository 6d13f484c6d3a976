import Finastate.Hotstuff.Quorum
import Finastate.Library.Aggregate

/-!
# Aggregated weights

`aggregate_admin` of the modules and `aggregate_authorities` of the consensus
run the same loop: it walks over the members and adds the weight of each to the
entry of its address in the list made so far. The addition is one of `u32`. So
the loop leaves the sums of the weights modulo `2 ^ 32`, which are the sums
exactly when these fit into `u32`; with checked additions it comes to an end
exactly then.
-/

namespace Finastate.Hotstuff

open Weights

variable {members input output : List (Address × Nat)} {addresses : List Address}
  {address : Address} {f : Address → Nat} {weight : Nat}

/-! ## One addition -/

/-- An entry that is there is added to. -/
theorem addWeight_map_of_mem (hnodup : addresses.Nodup) (hmem : address ∈ addresses) :
    addWeight (addresses.map fun a => (a, f a)) address weight =
      addresses.map fun a => (a, if address = a then wrapAdd 32 (f a) weight else f a) := by
  induction addresses with
  | nil => cases hmem
  | cons a addresses ih =>
      obtain ⟨hnot, hnodup⟩ := List.nodup_cons.1 hnodup
      rw [List.map_cons, List.map_cons, addWeight]
      by_cases heq : a = address
      · rw [if_pos heq, if_pos heq.symm]
        refine congrArg _ (List.map_congr_left fun b hb => ?_)
        have hne : address ≠ b := fun hb' => hnot (heq.trans hb' ▸ hb)
        rw [if_neg hne]
      · rw [if_neg heq, if_neg (Ne.symm heq)]
        exact congrArg _ (ih hnodup ((List.mem_cons.1 hmem).resolve_left (Ne.symm heq)))

/-- A new entry is put at the end. -/
theorem addWeight_map_of_notMem (hmem : address ∉ addresses) :
    addWeight (addresses.map fun a => (a, f a)) address weight =
      (addresses.map fun a => (a, f a)) ++ [(address, weight)] := by
  induction addresses with
  | nil => rfl
  | cons a addresses ih =>
      obtain ⟨hne, hrest⟩ := not_or.1 (fun h => hmem (List.mem_cons.2 h))
      rw [List.map_cons, addWeight, if_neg (Ne.symm hne), ih hrest]
      rfl

/-- With a checked addition the entry has to have room for the weight. -/
theorem addWeight?_map_of_mem (hnodup : addresses.Nodup) (hmem : address ∈ addresses) :
    addWeight? (addresses.map fun a => (a, f a)) address weight =
      (checkedAdd (f address) weight).map fun sum =>
        addresses.map fun a => (a, if address = a then sum else f a) := by
  induction addresses with
  | nil => cases hmem
  | cons a addresses ih =>
      obtain ⟨hnot, hnodup⟩ := List.nodup_cons.1 hnodup
      rw [List.map_cons, addWeight?]
      by_cases heq : a = address
      · subst heq
        rw [if_pos rfl]
        refine congrArg (fun g => (checkedAdd (f a) weight).map g) ?_
        funext sum
        rw [List.map_cons, if_pos rfl]
        refine congrArg _ (List.map_congr_left fun b hb => ?_)
        have hne : a ≠ b := fun heq => hnot (heq ▸ hb)
        rw [if_neg hne]
      · rw [if_neg heq, ih hnodup ((List.mem_cons.1 hmem).resolve_left (Ne.symm heq)),
          Option.map_map]
        refine congrArg (fun g => (checkedAdd (f address) weight).map g) ?_
        funext sum
        rw [Function.comp_apply, List.map_cons, if_neg (Ne.symm heq)]

theorem addWeight?_map_of_notMem (hmem : address ∉ addresses) :
    addWeight? (addresses.map fun a => (a, f a)) address weight =
      some ((addresses.map fun a => (a, f a)) ++ [(address, weight)]) := by
  induction addresses with
  | nil => rfl
  | cons a addresses ih =>
      obtain ⟨hne, hrest⟩ := not_or.1 (fun h => hmem (List.mem_cons.2 h))
      rw [List.map_cons, addWeight?, if_neg (Ne.symm hne), ih hrest]
      rfl

/-! ## The loop -/

/-- The weights as they are kept in `u32`. -/
def wrapped (members : List (Address × Nat)) : List (Address × Nat) :=
  members.map fun m => (m.1, m.2 % 2 ^ 32)

/-- One addition to the sums modulo `2 ^ 32`. -/
theorem addWeight_wrapped_sums {m : Address × Nat} (hpos : 0 < m.2) (hlt : m.2 < 2 ^ 32) :
    addWeight (wrapped (sums members)) m.1 m.2 = wrapped (sums (members ++ [m])) := by
  have hsums : wrapped (sums members) =
      (carriers members).map fun a => (a, sumOf members a % 2 ^ 32) := List.map_map
  rw [hsums]
  by_cases hmem : m.1 ∈ carriers members
  · rw [addWeight_map_of_mem (nodup_carriers members) hmem, sums_concat_of_mem hpos hmem, wrapped,
      List.map_map]
    refine List.map_congr_left fun a _ => ?_
    by_cases heq : m.1 = a
    · simp [heq, wrapAdd]
    · simp [heq]
  · rw [addWeight_map_of_notMem hmem, sums_concat_of_notMem hpos hmem, ← hsums, wrapped, wrapped,
      List.map_append, List.map_singleton, Nat.mod_eq_of_lt hlt]

/-- The loop leaves the sums modulo `2 ^ 32`. -/
theorem foldl_addWeight (h : ∀ m ∈ input, m.2 < 2 ^ 32) :
    input.foldl (fun members x => if 0 < x.2 then addWeight members x.1 x.2 else members) [] =
      wrapped (sums input) := by
  induction input using List.reverseRecOn with
  | nil => rfl
  | append_singleton input m ih =>
      rw [List.foldl_concat, ih fun m' hm' => h m' (List.mem_append_left _ hm')]
      split
      · next hpos => exact addWeight_wrapped_sums hpos (h m List.mem_concat_self)
      · next hzero => rw [sums_concat_zero hzero]

/-- One checked addition to the sums. -/
theorem addWeight?_sums {m : Address × Nat} (hpos : 0 < m.2) (hlt : m.2 < 2 ^ 32) :
    addWeight? (sums members) m.1 m.2 =
      if sumOf (members ++ [m]) m.1 < 2 ^ 32 then some (sums (members ++ [m])) else none := by
  have hself : sumOf (members ++ [m]) m.1 = sumOf members m.1 + m.2 := by
    rw [sumOf_concat, if_pos rfl]
  by_cases hmem : m.1 ∈ carriers members
  · rw [sums, addWeight?_map_of_mem (nodup_carriers members) hmem, sums_concat_of_mem hpos hmem,
      hself, checkedAdd]
    split
    · refine congrArg some (List.map_congr_left fun a _ => ?_)
      by_cases heq : m.1 = a
      · simp [heq]
      · simp [heq]
    · rfl
  · have hzero : sumOf members m.1 = 0 :=
      Nat.eq_zero_of_not_pos fun hpos => hmem (mem_carriers_iff.2 hpos)
    rw [hself, hzero, Nat.zero_add, if_pos hlt, sums, addWeight?_map_of_notMem hmem,
      sums_concat_of_notMem hpos hmem]
    rfl

/-- The weights of every address add up to a number of type `u32`. -/
def Fits (members : List (Address × Nat)) : Prop := ∀ a, sumOf members a < 2 ^ 32

theorem fits_iff : Fits members ↔ ∀ a ∈ members.map Prod.fst, sumOf members a < 2 ^ 32 := by
  constructor
  · exact fun h a _ => h a
  · intro h a
    by_cases hpos : 0 < sumOf members a
    · exact h a (mem_map_fst_of_sumOf_pos hpos)
    · rw [Nat.eq_zero_of_not_pos hpos]
      exact Nat.two_pow_pos 32

instance (members : List (Address × Nat)) : Decidable (Fits members) :=
  decidable_of_iff _ fits_iff.symm

/-- What the loop leaves are the sums if and only if these fit. -/
theorem aggregates_foldl_iff (h : ∀ m ∈ input, m.2 < 2 ^ 32) :
    Aggregates input (input.foldl
      (fun members x => if 0 < x.2 then addWeight members x.1 x.2 else members) []) ↔
        Fits input := by
  rw [foldl_addWeight h, aggregates_iff, wrapped, sums, List.map_map, List.map_inj_left]
  constructor
  · intro heq a
    by_cases hpos : 0 < sumOf input a
    · have hmod : sumOf input a % 2 ^ 32 = sumOf input a :=
        congrArg Prod.snd (heq a (mem_carriers_iff.2 hpos))
      rw [← hmod]
      exact Nat.mod_lt _ (Nat.two_pow_pos 32)
    · rw [Nat.eq_zero_of_not_pos hpos]
      exact Nat.two_pow_pos 32
  · intro hfits a _
    exact congrArg _ (Nat.mod_eq_of_lt (hfits a))

theorem Fits.of_append {members members' : List (Address × Nat)} (h : Fits (members ++ members')) :
    Fits members := fun a => by
  have ha := h a
  rw [sumOf_append] at ha
  exact Nat.lt_of_le_of_lt (Nat.le_add_right _ _) ha

/-- With checked additions the loop ends if and only if the sums fit, and
leaves them. -/
theorem aggregate?_sums_iff (h : ∀ m ∈ input, m.2 < 2 ^ 32) (hfits : Fits members) :
    aggregate? input (sums members) = some output ↔
      Fits (members ++ input) ∧ Aggregates (members ++ input) output := by
  induction input generalizing members with
  | nil =>
      rw [aggregate?, List.append_nil, aggregates_iff, Option.some.injEq]
      exact ⟨fun heq => ⟨hfits, heq.symm⟩, fun hand => hand.2.symm⟩
  | cons m input ih =>
      have hlt : m.2 < 2 ^ 32 := h m List.mem_cons_self
      have hrest : ∀ m' ∈ input, m'.2 < 2 ^ 32 := fun m' hm' => h m' (List.mem_cons_of_mem m hm')
      rw [aggregate?, List.append_cons]
      split
      · next hpos =>
        rw [addWeight?_sums hpos hlt]
        split
        · next hsum =>
          have hnext : Fits (members ++ [m]) := by
            intro a
            by_cases heq : m.1 = a
            · exact heq ▸ hsum
            · rw [sumOf_concat, if_neg heq]
              exact hfits a
          rw [Option.bind_some]
          exact ih hrest hnext
        · next hsum =>
          rw [Option.bind_none]
          exact iff_of_false (by rintro ⟨⟩) fun hand => hsum (hand.1.of_append m.1)
      · next hzero =>
        have hnext : Fits (members ++ [m]) := by
          intro a
          rw [sumOf_concat, Nat.eq_zero_of_not_pos hzero, ite_self]
          exact hfits a
        rw [← sums_concat_zero hzero]
        exact ih hrest hnext

end Finastate.Hotstuff

namespace Finastate.Governance

open Hotstuff (Fits)

/-- The aggregated lists have the exact sums of the weights if and only if these
fit into `u32`. -/
theorem aggregates_iff_fits (threshold : Nat) (members : List (Address × Nat))
    (h : ∀ m ∈ members, m.2 < 2 ^ 32) :
    (Weights.Aggregates members (aggregateAdmin ⟨threshold, members⟩).members ∧
        Weights.Aggregates members (Hotstuff.aggregateAuthorities ⟨members⟩).members) ↔
      Fits members := by
  have hiff := Hotstuff.aggregates_foldl_iff h
  exact ⟨fun hand => hiff.1 hand.1, fun hfits => ⟨hiff.2 hfits, hiff.2 hfits⟩⟩

/-- Two weights that add up to the greatest one, among others. -/
theorem aggregates_greatest :
    (Weights.Aggregates [(⟨[1]⟩, 2 ^ 32 - 2), (⟨[2]⟩, 0), (⟨[3]⟩, 7), (⟨[1]⟩, 1)]
        (aggregateAdmin
          ⟨3, [(⟨[1]⟩, 2 ^ 32 - 2), (⟨[2]⟩, 0), (⟨[3]⟩, 7), (⟨[1]⟩, 1)]⟩).members ∧
      Weights.Aggregates [(⟨[1]⟩, 2 ^ 32 - 2), (⟨[2]⟩, 0), (⟨[3]⟩, 7), (⟨[1]⟩, 1)]
        (Hotstuff.aggregateAuthorities
          ⟨[(⟨[1]⟩, 2 ^ 32 - 2), (⟨[2]⟩, 0), (⟨[3]⟩, 7), (⟨[1]⟩, 1)]⟩).members) ∧
      (aggregateAdmin
        ⟨3, [(⟨[1]⟩, 2 ^ 32 - 2), (⟨[2]⟩, 0), (⟨[3]⟩, 7), (⟨[1]⟩, 1)]⟩).members =
          [(⟨[1]⟩, 2 ^ 32 - 1), (⟨[3]⟩, 7)] := by
  exact ⟨(aggregates_iff_fits 3 _ (by decide)).2 (by decide), by decide⟩

/-- The sum of two weights of an address is one more than the greatest, and its
entry gets the weight zero. -/
theorem not_aggregates_overflow :
    (∀ m ∈ ([(⟨[1]⟩, 2 ^ 32 - 1), (⟨[1]⟩, 1)] : List (Address × Nat)), m.2 < 2 ^ 32) ∧
      ¬ Weights.Aggregates [(⟨[1]⟩, 2 ^ 32 - 1), (⟨[1]⟩, 1)]
        (aggregateAdmin ⟨1, [(⟨[1]⟩, 2 ^ 32 - 1), (⟨[1]⟩, 1)]⟩).members ∧
      ¬ Weights.Aggregates [(⟨[1]⟩, 2 ^ 32 - 1), (⟨[1]⟩, 1)]
        (Hotstuff.aggregateAuthorities ⟨[(⟨[1]⟩, 2 ^ 32 - 1), (⟨[1]⟩, 1)]⟩).members := by
  refine ⟨by decide, fun h => ?_, fun h => ?_⟩
  · exact absurd (h.weight (⟨[1]⟩, 0) (by decide)) (by decide)
  · exact absurd (h.weight (⟨[1]⟩, 0) (by decide)) (by decide)

/-- The members of the test of `aggregate_admin`. -/
example :
    aggregateAdmin
        ⟨2, [(⟨[1, 1, 1, 1]⟩, 2), (⟨[2, 2, 2, 2]⟩, 3), (⟨[1, 1, 1, 1]⟩, 4),
          (⟨[3, 3, 3, 3]⟩, 0)]⟩ =
      ⟨2, [(⟨[1, 1, 1, 1]⟩, 6), (⟨[2, 2, 2, 2]⟩, 3)]⟩ := by
  decide

end Finastate.Governance
