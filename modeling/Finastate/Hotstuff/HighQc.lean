import Finastate.Hotstuff.Panics
import Finastate.Hotstuff.Soundness

/-!
# The highest certificate of the new view messages

The leader walks over the collected messages in the order of a hash map and
stops as soon as the weight of the members among the senders reaches `n - f`;
the highest justify so far is what it works on. `HighQcSelected` says what this
has to be whatever the order is. The weights are added in `u32`:
`CountsExactly` names the authority lists for which no sum wraps before the
loop stops.
-/

namespace Finastate.Hotstuff

open ConsensusMessageCollector

/-- The addresses behind the collected messages. -/
def senders (m : List (Address × ConsensusMessage)) : Finset Address :=
  (m.map Prod.fst).toFinset

/-- What `on_new_view` collects: one message of each sender, with a justify. -/
structure NewViews (m : List (Address × ConsensusMessage)) : Prop where
  nodup : (m.map Prod.fst).Nodup
  justified : ∀ p ∈ m, p.2.justify.isSome

theorem NewViews.insert {m : List (Address × ConsensusMessage)} (h : NewViews m)
    (address : Address) {message : ConsensusMessage} (hmessage : message.justify.isSome) :
    NewViews (AssocMap.insert m address message) where
  nodup := AssocMap.nodup_keys_insert address message h.nodup
  justified := by
    intro p hp
    rcases AssocMap.mem_insert hp with rfl | hp
    · exact hmessage
    · exact h.justified p hp

namespace Authorities

variable (authorities : Authorities)

def IsMemberOf (address : Address) : Prop := address ∈ authorities.members.map Prod.fst

/-- The exact weight of the members among the senders. -/
def sent (m : List (Address × ConsensusMessage)) : Nat :=
  Weights.weightOf authorities.members (senders m)

/-- `f` for the exact total weight. -/
def exactF : Nat := (Weights.total authorities.members - 1) / 3

/-- The total weight fits into `u32`, or exceeds it by one and no member weighs more
than `f`. -/
def CountsExactly : Prop :=
  0 < Weights.total authorities.members ∧
    (Weights.total authorities.members < 2 ^ 32 ∨
      Weights.total authorities.members = 2 ^ 32 ∧
        ∀ m ∈ authorities.members, m.2 ≤ authorities.exactF)

end Authorities

/-- The certificate is the justify of a member in the list and no member in the list has a
higher one; there is none if there is no member. -/
structure Highest (authorities : Authorities) (l : List (Address × ConsensusMessage))
    (highQc : Option QC) : Prop where
  reported : ∀ qc ∈ highQc, ∃ p ∈ l, authorities.IsMemberOf p.1 ∧ p.2.justify = some qc
  bound : ∀ p ∈ l, authorities.IsMemberOf p.1 → ∀ justify ∈ p.2.justify,
    ∃ qc ∈ highQc, justify.view ≤ qc.view

section Selection

variable (authorities : Authorities) (order : IterOrder)
  (m : List (Address × ConsensusMessage))

/-- What the leader gets out of the collected messages. -/
structure HighQcSelected : Prop where
  /-- No `expect` fails. -/
  returns : ∃ highQc, getHighQc order m authorities = .ok highQc
  some_iff : (∃ qc, getHighQc order m authorities = .ok (some qc)) ↔
    authorities.exactQuorum ≤ authorities.sent m
  /-- It is the justify of a member, and the highest of a quorum of senders. -/
  highest : ∀ qc, getHighQc order m authorities = .ok (some qc) →
    (∃ p ∈ m, authorities.IsMemberOf p.1 ∧ p.2.justify = some qc) ∧
      ∃ s ⊆ senders m, authorities.exactQuorum ≤ Weights.weightOf authorities.members s ∧
        ∀ p ∈ m, p.1 ∈ s → ∀ justify ∈ p.2.justify, justify.view ≤ qc.view
  /-- A quorum that holds a view is met by every quorum of senders, outside of every set of
  weight `f`, and what is returned is not below that view. -/
  holders : ∀ (v : Nat) (holders : Finset Address),
    authorities.exactQuorum ≤ Weights.weightOf authorities.members holders →
      (∀ p ∈ m, p.1 ∈ holders → ∀ justify ∈ p.2.justify, v ≤ justify.view) →
        (∀ s faulty : Finset Address,
          authorities.exactQuorum ≤ Weights.weightOf authorities.members s →
            Weights.weightOf authorities.members faulty ≤ authorities.exactF →
              ∃ a ∈ s, a ∈ holders ∧ a ∉ faulty) ∧
          ∀ qc, getHighQc order m authorities = .ok (some qc) → v ≤ qc.view

end Selection

variable {authorities : Authorities}

/-! ## The arithmetic -/

theorem Authorities.n_eq_mod (authorities : Authorities) :
    authorities.n = Weights.total authorities.members % 2 ^ 32 := by
  have hfold : ∀ (members : List (Address × Nat)) (sum : Nat), sum < 2 ^ 32 →
      members.foldl (fun sum x => wrapAdd 32 sum x.2) sum =
        (sum + Weights.total members) % 2 ^ 32 := by
    intro members
    induction members with
    | nil => exact fun sum hsum => (Nat.mod_eq_of_lt hsum).symm
    | cons x members ih =>
        intro sum hsum
        have htotal : Weights.total (x :: members) = x.2 + Weights.total members := rfl
        have hadd : wrapAdd 32 sum x.2 < 2 ^ 32 := Nat.mod_lt _ (by decide)
        rw [List.foldl_cons, ih _ hadd, wrapAdd, Nat.mod_add_mod, htotal, Nat.add_assoc]
  have hn := hfold authorities.members 0 (by decide)
  rw [Nat.zero_add] at hn
  exact hn

namespace Authorities.CountsExactly

theorem exactF_add_exactQuorum (hpos : 0 < Weights.total authorities.members) :
    authorities.exactF + authorities.exactQuorum = Weights.total authorities.members := by
  rw [exactF, exactQuorum]
  omega

theorem exactQuorum_pos (hpos : 0 < Weights.total authorities.members) :
    0 < authorities.exactQuorum := by
  rw [exactQuorum]
  omega

/-- At `2 ^ 32` the total wraps to `0`, and `n - f` back to what it has to be. -/
theorem quorum_eq_of_total_eq (h : Weights.total authorities.members = 2 ^ 32) :
    authorities.quorum = authorities.exactQuorum := by
  have hn : authorities.n = 0 := by rw [n_eq_mod, h, Nat.mod_self]
  rw [quorum, f, hn, exactQuorum, h]
  rfl

theorem quorum_eq (h : authorities.CountsExactly) :
    authorities.quorum = authorities.exactQuorum := by
  rcases h with ⟨hpos, hlt | ⟨htotal, -⟩⟩
  · exact Authorities.quorum_eq hpos hlt
  · exact quorum_eq_of_total_eq htotal

end Authorities.CountsExactly

/-! ## The loop -/

theorem senders_append (l : List (Address × ConsensusMessage)) (p : Address × ConsensusMessage) :
    senders (l ++ [p]) = insert p.1 (senders l) := by
  ext a
  simp [senders]

theorem NewViews.of_append {l l' : List (Address × ConsensusMessage)} (h : NewViews (l ++ l')) :
    NewViews l where
  nodup := by
    have hkeys := h.nodup
    rw [List.map_append] at hkeys
    exact hkeys.of_append_left
  justified := fun p hp => h.justified p (List.mem_append_left _ hp)

/-- Nobody has sent two messages. -/
theorem NewViews.notMem_senders {l : List (Address × ConsensusMessage)}
    {p : Address × ConsensusMessage} (h : NewViews (l ++ [p])) : p.1 ∉ senders l := by
  have hkeys := h.nodup
  rw [List.map_append] at hkeys
  have hdisjoint := List.disjoint_of_nodup_append hkeys
  intro hmem
  exact hdisjoint (List.mem_toFinset.1 hmem) (List.mem_singleton.2 rfl)

theorem Authorities.sent_mono (authorities : Authorities)
    (l l' : List (Address × ConsensusMessage)) :
    authorities.sent l ≤ authorities.sent (l ++ l') := by
  apply Weights.weightOf_mono
  intro a ha
  rw [senders, List.map_append, List.toFinset_append]
  exact Finset.mem_union_left _ ha

theorem Authorities.sent_append {l : List (Address × ConsensusMessage)}
    {p : Address × ConsensusMessage} (hp : p.1 ∉ senders l) :
    authorities.sent (l ++ [p]) =
      authorities.sent l + (Weights.weight? authorities.members p.1).getD 0 := by
  rw [sent, senders_append, Weights.weightOf_insert _ hp, Nat.add_comm]
  rfl

/-- No sum wraps on the way to the quorum. -/
theorem Authorities.CountsExactly.sent_lt (h : authorities.CountsExactly)
    (hnodup : (authorities.members.map Prod.fst).Nodup)
    {l : List (Address × ConsensusMessage)} {p : Address × ConsensusMessage}
    (hmessages : NewViews (l ++ [p])) (hlt : authorities.sent l < authorities.exactQuorum) :
    authorities.sent (l ++ [p]) < 2 ^ 32 := by
  obtain ⟨hpos, hfits | ⟨htotal, hle⟩⟩ := h
  · exact (Weights.weightOf_le_total _ _).trans_lt hfits
  · rw [sent_append hmessages.notMem_senders]
    have hweight : (Weights.weight? authorities.members p.1).getD 0 ≤ authorities.exactF := by
      by_cases hkey : p.1 ∈ authorities.members.map Prod.fst
      · obtain ⟨member, hmember, hfst⟩ := List.mem_map.1 hkey
        rw [← hfst, Weights.weight?_of_mem hnodup hmember]
        exact hle member hmember
      · rw [(Weights.weight?_eq_none_iff _ _).2 hkey]
        exact Nat.zero_le _
    have hsum := exactF_add_exactQuorum hpos
    omega

theorem Highest.append_of_not_isMember {l : List (Address × ConsensusMessage)}
    {highQc : Option QC} (h : Highest authorities l highQc)
    {p : Address × ConsensusMessage} (hp : ¬ authorities.IsMemberOf p.1) :
    Highest authorities (l ++ [p]) highQc := by
  constructor
  case reported =>
    intro qc hqc
    obtain ⟨q, hq, hreported⟩ := h.reported qc hqc
    exact ⟨q, List.mem_append_left _ hq, hreported⟩
  case bound =>
    intro q hq hmember
    rcases List.mem_append.1 hq with hq | hq
    · exact h.bound q hq hmember
    · rw [List.mem_singleton.1 hq] at hmember
      exact absurd hmember hp

/-- The higher one of the highest justify so far and the next one. -/
def higherQc (highQc : Option QC) (justify : QC) : QC :=
  match highQc with
  | none => justify
  | some highQc => if highQc.view < justify.view then justify else highQc

theorem Highest.append {l : List (Address × ConsensusMessage)} {highQc : Option QC}
    (h : Highest authorities l highQc) {p : Address × ConsensusMessage} {justify : QC}
    (hp : authorities.IsMemberOf p.1) (hjustify : p.2.justify = some justify) :
    Highest authorities (l ++ [p]) (some (higherQc highQc justify)) := by
  have hmem : p ∈ l ++ [p] := List.mem_append_right _ (List.mem_singleton.2 rfl)
  have hchoice : higherQc highQc justify = justify ∨ highQc = some (higherQc highQc justify) := by
    cases highQc with
    | none => exact .inl rfl
    | some highQc =>
        rw [higherQc]
        split
        · exact .inl rfl
        · exact .inr rfl
  have hleJustify : justify.view ≤ (higherQc highQc justify).view := by
    cases highQc with
    | none => exact le_rfl
    | some highQc =>
        rw [higherQc]
        split
        · exact le_rfl
        · next hlt => exact not_lt.1 hlt
  have hleHigh : ∀ qc ∈ highQc, qc.view ≤ (higherQc highQc justify).view := by
    intro qc hqc
    cases hqc
    rw [higherQc]
    split
    · next hlt => exact hlt.le
    · exact le_rfl
  constructor
  case reported =>
    intro qc hqc
    cases hqc
    rcases hchoice with heq | heq
    · rw [heq]
      exact ⟨p, hmem, hp, hjustify⟩
    · obtain ⟨q, hq, hreported⟩ := h.reported _ heq
      exact ⟨q, List.mem_append_left _ hq, hreported⟩
  case bound =>
    intro q hq hmember j hj
    refine ⟨_, rfl, ?_⟩
    rcases List.mem_append.1 hq with hq | hq
    · obtain ⟨qc, hqc, hle⟩ := h.bound q hq hmember j hj
      exact hle.trans (hleHigh qc hqc)
    · rw [List.mem_singleton.1 hq, hjustify] at hj
      cases hj
      exact hleJustify

/-- The step of the loop for a member. -/
theorem collectHighQc_member {p : Address × ConsensusMessage} {justify : QC} {weight : Nat}
    (hjustify : p.2.justify = some justify)
    (hweight : Weights.weight? authorities.members p.1 = some weight)
    (messages : List (Address × ConsensusMessage)) (totalWeight : Nat) (highQc : Option QC) :
    collectHighQc authorities (p :: messages) totalWeight highQc =
      if authorities.quorum ≤ wrapAdd 32 totalWeight weight then
        .ok (some (higherQc highQc justify))
      else
        collectHighQc authorities messages (wrapAdd 32 totalWeight weight)
          (some (higherQc highQc justify)) := by
  obtain ⟨address, message⟩ := p
  simp only at hjustify hweight
  rw [collectHighQc, hjustify, hweight]
  cases highQc with
  | none => rfl
  | some highQc =>
      have hchoice : (if highQc.view < justify.view then some justify else some highQc) =
          some (higherQc (some highQc) justify) := (apply_ite some _ _ _).symm
      simp only [hchoice]

/-- The step of the loop for anyone else. -/
theorem collectHighQc_other {p : Address × ConsensusMessage}
    (hjustify : p.2.justify.isSome)
    (hweight : Weights.weight? authorities.members p.1 = none)
    (messages : List (Address × ConsensusMessage)) {totalWeight : Nat}
    (hlt : totalWeight < authorities.quorum) (highQc : Option QC) :
    collectHighQc authorities (p :: messages) totalWeight highQc =
      collectHighQc authorities messages totalWeight highQc := by
  obtain ⟨address, message⟩ := p
  obtain ⟨justify, hjustify⟩ := Option.isSome_iff_exists.1 hjustify
  simp only at hjustify hweight
  rw [collectHighQc, hjustify, hweight]
  simp only
  rw [if_neg (not_le.2 hlt)]

/-- One step of the loop after a part `l` of the messages, when the next sum fits into
`u32`: the sum is the exact weight of the senders so far. -/
theorem collectHighQc_step (messages : List (Address × ConsensusMessage))
    (hquorum : authorities.quorum = authorities.exactQuorum)
    {l : List (Address × ConsensusMessage)} {p : Address × ConsensusMessage}
    {highQc : Option QC} (hmessages : NewViews (l ++ [p]))
    (hhighest : Highest authorities l highQc)
    (hlt : authorities.sent l < authorities.exactQuorum)
    (hfits : authorities.sent (l ++ [p]) < 2 ^ 32) :
    ∃ highQc', Highest authorities (l ++ [p]) highQc' ∧
      (authorities.exactQuorum ≤ authorities.sent (l ++ [p]) → highQc'.isSome) ∧
      collectHighQc authorities (p :: messages) (authorities.sent l) highQc =
        if authorities.exactQuorum ≤ authorities.sent (l ++ [p]) then .ok highQc'
        else collectHighQc authorities messages (authorities.sent (l ++ [p])) highQc' := by
  have hsome := hmessages.justified p (by simp)
  have hsent : authorities.sent (l ++ [p]) =
      authorities.sent l + (Weights.weight? authorities.members p.1).getD 0 :=
    Authorities.sent_append (hmessages.notMem_senders)
  cases hweight : Weights.weight? authorities.members p.1 with
  | none =>
      have hmember : ¬ authorities.IsMemberOf p.1 := (Weights.weight?_eq_none_iff _ _).1 hweight
      rw [hweight, Option.getD_none, Nat.add_zero] at hsent
      have hbelow : authorities.sent l < authorities.quorum := by
        rw [hquorum]
        exact hlt
      rw [hsent]
      refine ⟨highQc, hhighest.append_of_not_isMember hmember, fun h => absurd hlt (not_lt.2 h),
        ?_⟩
      rw [if_neg (not_le.2 hlt), collectHighQc_other hsome hweight messages hbelow]
  | some weight =>
      have hmember : authorities.IsMemberOf p.1 := by
        by_contra hmember
        rw [(Weights.weight?_eq_none_iff _ _).2 hmember] at hweight
        cases hweight
      obtain ⟨justify, hjustify⟩ := Option.isSome_iff_exists.1 hsome
      rw [hweight, Option.getD_some] at hsent
      have hadd : wrapAdd 32 (authorities.sent l) weight = authorities.sent (l ++ [p]) := by
        rw [hsent] at hfits ⊢
        exact wrapAdd_of_lt hfits
      refine ⟨_, hhighest.append hmember hjustify, fun _ => rfl, ?_⟩
      rw [collectHighQc_member hjustify hweight, hquorum, hadd]

/-- The loop comes to its end below the quorum, or stops once it is reached with the highest
justify so far. -/
theorem collectHighQc_spec (hcounts : authorities.CountsExactly)
    (hnodup : (authorities.members.map Prod.fst).Nodup)
    {l messages : List (Address × ConsensusMessage)} {highQc : Option QC}
    (hmessages : NewViews (l ++ messages)) (hhighest : Highest authorities l highQc)
    (hlt : authorities.sent l < authorities.exactQuorum) :
    (collectHighQc authorities messages (authorities.sent l) highQc = .ok none ∧
      authorities.sent (l ++ messages) < authorities.exactQuorum) ∨
    ∃ qc l', collectHighQc authorities messages (authorities.sent l) highQc = .ok (some qc) ∧
      l' <+: l ++ messages ∧ authorities.exactQuorum ≤ authorities.sent l' ∧
      Highest authorities l' (some qc) := by
  induction messages generalizing l highQc with
  | nil =>
      rw [List.append_nil]
      exact .inl ⟨rfl, hlt⟩
  | cons p messages ih =>
      have happend : l ++ p :: messages = l ++ [p] ++ messages := by simp
      rw [happend] at hmessages ⊢
      have hfits := hcounts.sent_lt hnodup hmessages.of_append hlt
      obtain ⟨highQc', hnext, hsome, hstep⟩ := collectHighQc_step messages
        hcounts.quorum_eq hmessages.of_append hhighest hlt hfits
      rw [hstep]
      split
      · next hquorum =>
        obtain ⟨qc, rfl⟩ := Option.isSome_iff_exists.1 (hsome hquorum)
        exact .inr ⟨qc, _, rfl, List.prefix_append _ _, hquorum, hnext⟩
      · next hquorum => exact ih hmessages hnext (not_le.1 hquorum)

/-- Below the quorum the loop goes on. -/
theorem collectHighQc_below (rest : List (Address × ConsensusMessage))
    (hquorum : authorities.quorum = authorities.exactQuorum)
    (hle : authorities.exactQuorum ≤ 2 ^ 32)
    {l part : List (Address × ConsensusMessage)} {highQc : Option QC}
    (hmessages : NewViews (l ++ part)) (hhighest : Highest authorities l highQc)
    (hlt : authorities.sent (l ++ part) < authorities.exactQuorum) :
    ∃ highQc', collectHighQc authorities (part ++ rest) (authorities.sent l) highQc =
      collectHighQc authorities rest (authorities.sent (l ++ part)) highQc' := by
  induction part generalizing l highQc with
  | nil => exact ⟨highQc, by rw [List.nil_append, List.append_nil]⟩
  | cons p part ih =>
      have happend : l ++ p :: part = l ++ [p] ++ part := by simp
      rw [happend] at hmessages hlt ⊢
      have hnextLt := (authorities.sent_mono (l ++ [p]) part).trans_lt hlt
      have hltStart := (authorities.sent_mono l [p]).trans_lt hnextLt
      obtain ⟨highQc', hnext, -, hstep⟩ := collectHighQc_step (part ++ rest)
        hquorum hmessages.of_append hhighest hltStart (hnextLt.trans_le hle)
      rw [List.cons_append, hstep, if_neg (not_le.2 hnextLt)]
      exact ih hmessages hnext hlt

/-! ## The walk over the hash map -/

theorem filterMap_keys {α : Type} {m : List (Address × α)} (hnodup : (m.map Prod.fst).Nodup) :
    ((m.map Prod.fst).filterMap fun address =>
      (AssocMap.get? m address).map fun a => (address, a)) = m := by
  rw [List.filterMap_map]
  have hself : ∀ p ∈ m, ((fun address =>
      (AssocMap.get? m address).map fun a => (address, a)) ∘ Prod.fst) p = some p := by
    intro p hp
    have hget : AssocMap.get? m p.1 = some p.2 := (AssocMap.get?_eq_some_iff hnodup).2 hp
    simp [hget]
  rw [List.filterMap_congr hself, List.filterMap_some]

theorem IterOrder.iterate_perm {α : Type} (order : IterOrder) {m : List (Address × α)}
    (hnodup : (m.map Prod.fst).Nodup) : (order.iterate m).Perm m := by
  have hperm := (order.perm (m.map Prod.fst)).filterMap fun address =>
    (AssocMap.get? m address).map fun a => (address, a)
  rw [filterMap_keys hnodup] at hperm
  exact hperm

theorem NewViews.perm {l m : List (Address × ConsensusMessage)} (h : NewViews m)
    (hperm : l.Perm m) : NewViews l where
  nodup := (hperm.map Prod.fst).nodup_iff.2 h.nodup
  justified := fun p hp => h.justified p (hperm.mem_iff.1 hp)

theorem senders_perm {l m : List (Address × ConsensusMessage)} (hperm : l.Perm m) :
    senders l = senders m :=
  List.toFinset_eq_of_perm _ _ (hperm.map Prod.fst)

section Main

variable {order : IterOrder} {m : List (Address × ConsensusMessage)}

theorem highest_nil : Highest authorities [] none where
  reported := nofun
  bound := nofun

/-- What `get_high_qc` returns, where no sum wraps. -/
theorem getHighQc_spec (order : IterOrder) (hcounts : authorities.CountsExactly)
    (hnodup : (authorities.members.map Prod.fst).Nodup) (hm : NewViews m) :
    (getHighQc order m authorities = .ok none ∧
      authorities.sent m < authorities.exactQuorum) ∨
    ∃ qc l, getHighQc order m authorities = .ok (some qc) ∧ l ⊆ m ∧
      authorities.exactQuorum ≤ authorities.sent l ∧ Highest authorities l (some qc) := by
  have hperm := order.iterate_perm hm.nodup
  have hsent : authorities.sent (order.iterate m) = authorities.sent m := by
    rw [Authorities.sent, senders_perm hperm, Authorities.sent]
  have hiterate : NewViews ([] ++ order.iterate m) := hm.perm hperm
  have hspec := collectHighQc_spec hcounts hnodup hiterate highest_nil
    (Authorities.CountsExactly.exactQuorum_pos hcounts.1)
  rcases hspec with ⟨hnone, hlt⟩ | ⟨qc, l, hqc, hfirst, hquorum, hhighest⟩
  · rw [List.nil_append, hsent] at hlt
    exact .inl ⟨hnone, hlt⟩
  · exact .inr ⟨qc, l, hqc, fun p hp => hperm.mem_iff.1 (hfirst.subset hp), hquorum, hhighest⟩

theorem senders_subset {l : List (Address × ConsensusMessage)} (h : l ⊆ m) :
    senders l ⊆ senders m := by
  intro a ha
  rw [senders, List.mem_toFinset] at ha ⊢
  obtain ⟨p, hp, rfl⟩ := List.mem_map.1 ha
  exact List.mem_map_of_mem (h hp)

/-- The members among the senders of a list weigh as much as all of them. -/
theorem sent_le_members (l : List (Address × ConsensusMessage)) :
    authorities.sent l ≤ Weights.weightOf authorities.members
      ((senders l).filter fun a => a ∈ authorities.members.map Prod.fst) :=
  Weights.weightOf_le_of_keys _ fun _ ha hkey => Finset.mem_filter.2 ⟨ha, hkey⟩

/-- Two quorums meet outside of every set of weight `f`. -/
theorem exists_mem_of_quorums (hpos : 0 < Weights.total authorities.members)
    {s t faulty : Finset Address}
    (hs : authorities.exactQuorum ≤ Weights.weightOf authorities.members s)
    (ht : authorities.exactQuorum ≤ Weights.weightOf authorities.members t)
    (hfaulty : Weights.weightOf authorities.members faulty ≤ authorities.exactF) :
    ∃ a ∈ s, a ∈ t ∧ a ∉ faulty := by
  have hq : Weights.total authorities.members + authorities.exactF <
      2 * authorities.exactQuorum := by
    rw [Authorities.exactF, Authorities.exactQuorum]
    omega
  exact Weights.exists_mem_inter_of_quorums hq hs ht hfaulty

theorem highQcSelected_of_countsExactly (hcounts : authorities.CountsExactly)
    (hnodup : (authorities.members.map Prod.fst).Nodup) (hm : NewViews m) :
    HighQcSelected authorities order m := by
  have hspec := getHighQc_spec order hcounts hnodup hm
  have hhighest : ∀ qc, getHighQc order m authorities = .ok (some qc) →
      (∃ p ∈ m, authorities.IsMemberOf p.1 ∧ p.2.justify = some qc) ∧
        ∃ s ⊆ senders m, authorities.exactQuorum ≤ Weights.weightOf authorities.members s ∧
          ∀ p ∈ m, p.1 ∈ s → ∀ justify ∈ p.2.justify, justify.view ≤ qc.view := by
    intro qc hqc
    rcases hspec with ⟨hnone, -⟩ | ⟨qc', l, hqc', hsub, hquorum, hhigh⟩
    · rw [hnone] at hqc
      cases hqc
    rw [hqc'] at hqc
    cases hqc
    obtain ⟨p, hp, hreported⟩ := hhigh.reported qc rfl
    refine ⟨⟨p, hsub hp, hreported⟩, _, ?_, hquorum.trans (sent_le_members l), ?_⟩
    · exact (Finset.filter_subset _ _).trans (senders_subset hsub)
    · intro q hq hmem justify hjustify
      obtain ⟨hsender, hmember⟩ := Finset.mem_filter.1 hmem
      obtain ⟨q', hq', hkey⟩ := List.mem_map.1 (List.mem_toFinset.1 hsender)
      obtain rfl : q' = q := List.inj_on_of_nodup_map hm.nodup (hsub hq') hq hkey
      obtain ⟨qc', hqc', hle⟩ := hhigh.bound q' hq' hmember justify hjustify
      cases hqc'
      exact hle
  constructor
  case returns => exact getHighQc_ok order hm.justified authorities
  case some_iff =>
    constructor
    · rintro ⟨qc, hqc⟩
      obtain ⟨-, s, hs, hquorum, -⟩ := hhighest qc hqc
      exact hquorum.trans (Weights.weightOf_mono _ hs)
    · intro hquorum
      rcases hspec with ⟨-, hlt⟩ | ⟨qc, l, hqc, -⟩
      · exact absurd hquorum (not_le.2 hlt)
      · exact ⟨qc, hqc⟩
  case highest => exact hhighest
  case holders =>
    intro v holders hholders hviews
    refine ⟨fun s faulty hs hfaulty =>
      exists_mem_of_quorums hcounts.1 hs hholders hfaulty, ?_⟩
    intro qc hqc
    obtain ⟨-, s, hsub, hquorum, hbound⟩ := hhighest qc hqc
    have hempty : Weights.weightOf authorities.members ∅ ≤ authorities.exactF := Nat.zero_le _
    obtain ⟨a, has, hah, -⟩ := exists_mem_of_quorums hcounts.1 hquorum hholders hempty
    obtain ⟨p, hp, rfl⟩ := List.mem_map.1 (List.mem_toFinset.1 (hsub has))
    obtain ⟨justify, hjustify⟩ := Option.isSome_iff_exists.1 (hm.justified p hp)
    exact (hviews p hp hah justify hjustify).trans (hbound p hp has justify hjustify)

end Main

/-! ## Where a sum wraps -/

theorem IterOrder.perm_id (l : List Address) : (id l).Perm l := .rfl

/-- The walk in the order of insertion. -/
def IterOrder.listed : IterOrder := ⟨id, perm_id⟩

/-- The member reports this certificate. -/
def report (justify : QC) (x : Address × Nat) : Address × ConsensusMessage :=
  (x.1, { requestId := 0, messageType := .newView, view := 0, node := none,
          justify := some justify, sig := none })

theorem map_fst_report (justify : QC) (members : List (Address × Nat)) :
    (members.map (report justify)).map Prod.fst = members.map Prod.fst := by
  rw [List.map_map]
  rfl

theorem newViews_report (justify : QC) {members : List (Address × Nat)}
    (hnodup : (members.map Prod.fst).Nodup) : NewViews (members.map (report justify)) where
  nodup := by
    rw [map_fst_report]
    exact hnodup
  justified := by
    intro p hp
    obtain ⟨x, -, rfl⟩ := List.mem_map.1 hp
    rfl

theorem sent_report (hnodup : (authorities.members.map Prod.fst).Nodup) (justify : QC)
    {part : List (Address × Nat)} (hpart : part.Sublist authorities.members) :
    authorities.sent (part.map (report justify)) = Weights.total part := by
  rw [Authorities.sent, senders, map_fst_report]
  exact Weights.weightOf_sublist hnodup hpart

theorem sent_report_perm (hnodup : (authorities.members.map Prod.fst).Nodup) (justify : QC)
    {l : List (Address × Nat)} (hperm : l.Perm authorities.members) :
    authorities.sent (l.map (report justify)) = Weights.total authorities.members := by
  have hsenders := senders_perm (hperm.map (report justify))
  rw [Authorities.sent, hsenders]
  exact sent_report hnodup justify (List.Sublist.refl _)

/-- A total of `2 ^ 32` is counted as `0`: when the last message is of a member above `f`,
the sum wraps past the quorum. -/
theorem getHighQc_wrapped (justify : QC) (hnodup : (authorities.members.map Prod.fst).Nodup)
    (htotal : Weights.total authorities.members = 2 ^ 32) {others : List (Address × Nat)}
    {x : Address × Nat} (hsub : others.Sublist authorities.members)
    (hperm : (others ++ [x]).Perm authorities.members) (hx : authorities.exactF < x.2) :
    getHighQc .listed ((others ++ [x]).map (report justify)) authorities = .ok none := by
  have hpos : 0 < Weights.total authorities.members := by
    rw [htotal]
    decide
  have hsum := Authorities.CountsExactly.exactF_add_exactQuorum hpos
  have hquorumPos := Authorities.CountsExactly.exactQuorum_pos hpos
  have hquorum := Authorities.CountsExactly.quorum_eq_of_total_eq htotal
  have hsplit : Weights.total others + x.2 = 2 ^ 32 := by
    have htotals := (hperm.map Prod.snd).sum_eq
    rw [List.map_append, List.sum_append, List.map_singleton, List.sum_singleton] at htotals
    exact htotals.trans htotal
  have hview := newViews_report justify ((hperm.map Prod.fst).nodup_iff.2 hnodup)
  have hiterate : IterOrder.iterate .listed ((others ++ [x]).map (report justify)) =
      (others ++ [x]).map (report justify) := filterMap_keys hview.nodup
  rw [List.map_append] at hview
  have hothers := sent_report hnodup justify hsub
  have hlt : authorities.sent ([] ++ others.map (report justify)) < authorities.exactQuorum := by
    rw [List.nil_append, hothers]
    omega
  -- The others stay below the quorum, and the last sum is `2 ^ 32`.
  have hstart : NewViews ([] ++ others.map (report justify)) := hview.of_append
  obtain ⟨highQc, hbelow⟩ := collectHighQc_below [report justify x] hquorum (by omega) hstart
    highest_nil hlt
  have hmem : x ∈ authorities.members :=
    hperm.mem_iff.1 (List.mem_append_right _ (List.mem_singleton.2 rfl))
  have hweight : Weights.weight? authorities.members (report justify x).1 = some x.2 :=
    Weights.weight?_of_mem hnodup hmem
  have hwrap : wrapAdd 32 (authorities.sent ([] ++ others.map (report justify))) x.2 = 0 := by
    rw [List.nil_append, hothers, wrapAdd, hsplit, Nat.mod_self]
  rw [getHighQc, hiterate, List.map_append, List.map_singleton]
  refine hbelow.trans ?_
  rw [collectHighQc_member rfl hweight, hwrap, hquorum, if_neg (not_le.2 hquorumPos)]
  rfl

/-- A certificate to report. -/
def Sample.reportedQc : QC where
  messageType := .prepare
  view := 1
  node := { parentHash := ⟨[]⟩, blockHash := ⟨[]⟩ }
  leaderAddress := ⟨[]⟩
  sig := []

theorem countsExactly_of_selected (hnodup : (authorities.members.map Prod.fst).Nodup)
    (hle : Weights.total authorities.members ≤ 2 ^ 32)
    (h : ∀ order m, NewViews m → HighQcSelected authorities order m) :
    authorities.CountsExactly := by
  have hpos : 0 < Weights.total authorities.members := by
    by_contra hzero
    have hquorum : authorities.exactQuorum = 0 := by
      rw [Authorities.exactQuorum]
      omega
    obtain ⟨qc, hqc⟩ := (h .listed [] ⟨List.nodup_nil, List.forall_mem_nil _⟩).some_iff.2
      (hquorum.trans_le (Nat.zero_le _))
    cases hqc
  refine ⟨hpos, ?_⟩
  rcases hle.lt_or_eq with hlt | htotal
  · exact .inl hlt
  · refine .inr ⟨htotal, fun x hx => ?_⟩
    by_contra hheavy
    obtain ⟨l, l', hmembers⟩ := List.append_of_mem hx
    have hsub : (l ++ l').Sublist authorities.members := by
      rw [hmembers]
      exact (List.sublist_cons_self x l').append_left l
    have hperm : (l ++ l' ++ [x]).Perm authorities.members := by
      rw [hmembers, List.append_assoc]
      exact (List.perm_append_singleton x l').append_left l
    have hnone := getHighQc_wrapped Sample.reportedQc hnodup htotal hsub hperm (not_le.1 hheavy)
    have hview := newViews_report Sample.reportedQc ((hperm.map Prod.fst).nodup_iff.2 hnodup)
    have hsent := sent_report_perm hnodup Sample.reportedQc hperm
    have hsum := Authorities.CountsExactly.exactF_add_exactQuorum hpos
    obtain ⟨qc, hqc⟩ := (h .listed _ hview).some_iff.2 (by omega)
    rw [hnone] at hqc
    cases hqc

/-- The leader gets what it is to get if no sum wraps before the quorum is reached; up to a
total weight of `2 ^ 32` only then. -/
theorem highQcSelected_iff (hnodup : (authorities.members.map Prod.fst).Nodup) :
    (authorities.CountsExactly →
        ∀ order m, NewViews m → HighQcSelected authorities order m) ∧
      (Weights.total authorities.members ≤ 2 ^ 32 →
        (∀ order m, NewViews m → HighQcSelected authorities order m) →
          authorities.CountsExactly) :=
  ⟨fun hcounts _ _ hm => highQcSelected_of_countsExactly hcounts hnodup hm,
    fun hle h => countsExactly_of_selected hnodup hle h⟩

open Sample in
/-- Three of four validators of weight `1` report. -/
theorem highQcSelected_three :
    getHighQc .listed ((fourValidators.members.take 3).map (report reportedQc))
        fourValidators = .ok (some reportedQc) ∧
      HighQcSelected fourValidators .listed
        ((fourValidators.members.take 3).map (report reportedQc)) := by
  have hnodup : (fourValidators.members.map Prod.fst).Nodup := by decide +kernel
  have hcounts : fourValidators.CountsExactly :=
    ⟨by decide +kernel, .inl (by decide +kernel)⟩
  refine ⟨by decide +kernel, (highQcSelected_iff hnodup).1 hcounts _ _ ?_⟩
  exact newViews_report reportedQc (by decide +kernel)

/-- Two members of half of `2 ^ 32` each. -/
def Sample.twoHalves : Authorities where
  members := [(⟨[0]⟩, 2 ^ 31), (⟨[1]⟩, 2 ^ 31)]

open Sample in
/-- All members have reported and the leader goes on waiting. -/
theorem not_highQcSelected_twoHalves :
    ¬ ∀ authorities : Authorities, (authorities.members.map Prod.fst).Nodup →
      ∀ order m, NewViews m → HighQcSelected authorities order m := by
  intro h
  have hnodup : (twoHalves.members.map Prod.fst).Nodup := by decide
  have hcounts := countsExactly_of_selected hnodup (by decide) (h twoHalves hnodup)
  rcases hcounts.2 with hlt | ⟨-, hle⟩
  · exact absurd hlt (by decide)
  · exact absurd (hle _ List.mem_cons_self) (by decide)

end Finastate.Hotstuff
