import Mathlib.Data.Set.Insert
import Mathlib.Logic.Function.Basic
import Mathlib.Tactic.Common

/-!
# Registries

Members come and go and prove names while they are there. A registry keeps, for
every member, its last name, and for every name a member to be found under it.
It is consistent if a name leads to a member with that name, and if it leads
somewhere as long as a member that has proved it is there. A change keeps it
consistent if and only if it is safe.
-/

variable {π α : Type*}

/-- `proved` are the names that a member has proved since it came. -/
structure Registry (π α : Type*) where
  members : π → Option (Option α)
  known : α → Option π
  proved : π → Set α

namespace Registry

inductive Change (π α : Type*)
  | connect (p : π)
  | disconnect (p : π)
  | register (p : π) (a : α)
  | nothing

/-- When a member leaves, its last name leads nowhere. -/
def apply [DecidableEq π] [DecidableEq α] (r : Registry π α) : Change π α → Registry π α
  | .connect p =>
      { r with
        members := Function.update r.members p (some none)
        proved := Function.update r.proved p ∅ }
  | .disconnect p =>
      { members := Function.update r.members p none
        known :=
          match (r.members p).join with
          | some a => Function.update r.known a none
          | none => r.known
        proved := Function.update r.proved p ∅ }
  | .register p a =>
      { members := Function.update r.members p (some (some a))
        known := Function.update r.known a (some p)
        proved := Function.update r.proved p (insert a (r.proved p)) }
  | .nothing => r

/-- What a list of proofs says that the members have proved. -/
def provedIn (proofs : List (π × α)) (p : π) : Set α := {a | (p, a) ∈ proofs}

theorem provedIn_nil : provedIn ([] : List (π × α)) = fun _ => ∅ := by
  funext p
  simp [provedIn]

/-- The proofs that count after a change. -/
def Change.log [DecidableEq π] (proofs : List (π × α)) : Change π α → List (π × α)
  | .connect p => proofs.filter fun x => x.1 ≠ p
  | .disconnect p => proofs.filter fun x => x.1 ≠ p
  | .register p a => (p, a) :: proofs
  | .nothing => proofs

/-- No name leads to a member that comes; a member that leaves is the only one with its
name; and only the proved name leads to a member that proves one. -/
def Safe (r : Registry π α) : Change π α → Prop
  | .connect p => ∀ a, r.known a ≠ some p
  | .disconnect p => ∀ a, r.members p = some (some a) → ∀ q, q ≠ p → a ∉ r.proved q
  | .register p a => ∀ b, r.known b = some p → b = a
  | .nothing => True

structure Consistent (r : Registry π α) : Prop where
  sound : ∀ a p, r.known a = some p → r.members p = some (some a)
  complete : ∀ p a, a ∈ r.proved p → r.known a ≠ none

/-- The last name of a member is one that it has proved. -/
def Recorded (r : Registry π α) : Prop := ∀ p a, r.members p = some (some a) → a ∈ r.proved p

section Changes

variable [DecidableEq π] [DecidableEq α] {r : Registry π α}

theorem proved_apply_provedIn {members : π → Option (Option α)} {known : α → Option π}
    {proofs : List (π × α)} (c : Change π α) :
    (apply ⟨members, known, provedIn proofs⟩ c).proved = provedIn (c.log proofs) := by
  funext q
  ext a
  cases c with
  | connect p => by_cases hq : q = p <;> simp [Registry.apply, provedIn, Change.log, hq]
  | disconnect p => by_cases hq : q = p <;> simp [Registry.apply, provedIn, Change.log, hq]
  | register p b => by_cases hq : q = p <;> simp [Registry.apply, provedIn, Change.log, hq]
  | nothing => rfl

theorem Recorded.apply (h : Recorded r) (c : Change π α) : Recorded (r.apply c) := by
  intro q a hq
  cases c with
  | connect p =>
      by_cases heq : q = p
      · subst heq
        simp [Registry.apply] at hq
      · simp only [Registry.apply, Function.update_of_ne heq] at hq ⊢
        exact h q a hq
  | disconnect p =>
      by_cases heq : q = p
      · subst heq
        simp [Registry.apply] at hq
      · simp only [Registry.apply, Function.update_of_ne heq] at hq ⊢
        exact h q a hq
  | register p b =>
      by_cases heq : q = p
      · subst heq
        simp only [Registry.apply, Function.update_self, Option.some.injEq] at hq ⊢
        exact Or.inl hq.symm
      · simp only [Registry.apply, Function.update_of_ne heq] at hq ⊢
        exact h q a hq
  | nothing => exact h q a hq

/-! ## Safe changes -/

namespace Consistent

theorem connect_iff (h : Consistent r) (p : π) :
    Consistent (r.apply (.connect p)) ↔ r.Safe (.connect p) := by
  constructor
  · intro hafter a ha
    have hmember := hafter.sound a p ha
    simp [Registry.apply] at hmember
  · intro hsafe
    constructor
    · intro a q ha
      have hne : q ≠ p := by
        rintro rfl
        exact hsafe a ha
      simp only [Registry.apply, Function.update_of_ne hne]
      exact h.sound a q ha
    · intro q a hq
      by_cases heq : q = p
      · subst heq
        simp [Registry.apply] at hq
      · simp only [Registry.apply, Function.update_of_ne heq] at hq
        exact h.complete q a hq

theorem disconnect_iff (h : Consistent r) (p : π) :
    Consistent (r.apply (.disconnect p)) ↔ r.Safe (.disconnect p) := by
  constructor
  · intro hafter a ha q hne hq
    refine hafter.complete q a ?_ ?_
    · simpa only [Registry.apply, Function.update_of_ne hne] using hq
    · simp [Registry.apply, ha]
  · intro hsafe
    cases hlast : (r.members p).join with
    | none =>
        have hunnamed : ∀ a, r.members p ≠ some (some a) := by
          intro a ha
          rw [ha] at hlast
          cases hlast
        constructor
        · intro a q ha
          simp only [Registry.apply, hlast] at ha
          have hmember := h.sound a q ha
          have hne : q ≠ p := by
            rintro rfl
            exact hunnamed a hmember
          simpa only [Registry.apply, Function.update_of_ne hne] using hmember
        · intro q a hq
          by_cases heq : q = p
          · subst heq
            simp [Registry.apply] at hq
          · simp only [Registry.apply, Function.update_of_ne heq] at hq
            simp only [Registry.apply, hlast]
            exact h.complete q a hq
    | some b =>
        have hnamed : r.members p = some (some b) := Option.join_eq_some_iff.1 hlast
        constructor
        · intro a q ha
          simp only [Registry.apply, hlast] at ha
          have hother : a ≠ b := by
            rintro rfl
            simp at ha
          rw [Function.update_of_ne hother] at ha
          have hmember := h.sound a q ha
          have hne : q ≠ p := by
            rintro rfl
            rw [hnamed] at hmember
            exact hother (Option.some.inj (Option.some.inj hmember)).symm
          simpa only [Registry.apply, Function.update_of_ne hne] using hmember
        · intro q a hq
          by_cases heq : q = p
          · subst heq
            simp [Registry.apply] at hq
          · simp only [Registry.apply, Function.update_of_ne heq] at hq
            have hother : a ≠ b := by
              rintro rfl
              exact hsafe a hnamed q heq hq
            simp only [Registry.apply, hlast, Function.update_of_ne hother]
            exact h.complete q a hq

theorem register_iff (h : Consistent r) (p : π) (a : α) :
    Consistent (r.apply (.register p a)) ↔ r.Safe (.register p a) := by
  constructor
  · intro hafter b hb
    by_contra hne
    have hmember := hafter.sound b p (by simpa only [Registry.apply, Function.update_of_ne hne])
    simp only [Registry.apply, Function.update_self, Option.some.injEq] at hmember
    exact hne hmember.symm
  · intro hsafe
    constructor
    · intro b q hb
      by_cases heq : b = a
      · subst heq
        simp only [Registry.apply, Function.update_self, Option.some.injEq] at hb
        subst hb
        simp [Registry.apply]
      · simp only [Registry.apply, Function.update_of_ne heq] at hb
        have hne : q ≠ p := by
          rintro rfl
          exact heq (hsafe b hb)
        simp only [Registry.apply, Function.update_of_ne hne]
        exact h.sound b q hb
    · intro q b hb
      by_cases heq : b = a
      · subst heq
        simp [Registry.apply]
      · simp only [Registry.apply, Function.update_of_ne heq]
        by_cases hq : q = p
        · subst hq
          simp only [Registry.apply, Function.update_self] at hb
          exact h.complete q b (hb.resolve_left heq)
        · simp only [Registry.apply, Function.update_of_ne hq] at hb
          exact h.complete q b hb

theorem apply_iff (h : Consistent r) (c : Change π α) : Consistent (r.apply c) ↔ r.Safe c := by
  cases c with
  | connect p => exact h.connect_iff p
  | disconnect p => exact h.disconnect_iff p
  | register p a => exact h.register_iff p a
  | nothing => exact iff_of_true h trivial

end Consistent

end Changes

theorem consistent_empty : Consistent (⟨fun _ => none, fun _ => none, fun _ => ∅⟩ : Registry π α) :=
  ⟨nofun, nofun⟩

/-! ## Systems that keep a registry -/

/-- A system whose steps change the members and names in its states as a registry does. -/
structure Keeper (σ ε π α : Type*) [DecidableEq π] [DecidableEq α] where
  members : σ → π → Option (Option α)
  known : σ → α → Option π
  step : σ → ε → σ
  change : σ → ε → Change π α
  members_step : ∀ s e,
    members (step s e) = (apply ⟨members s, known s, fun _ => ∅⟩ (change s e)).members
  known_step : ∀ s e,
    known (step s e) = (apply ⟨members s, known s, fun _ => ∅⟩ (change s e)).known

namespace Keeper

variable {σ ε : Type*} [DecidableEq π] [DecidableEq α] (K : Keeper σ ε π α)

def view (s : σ) (proved : π → Set α) : Registry π α := ⟨K.members s, K.known s, proved⟩

/-- The states of runs with the names that were proved, where all changes satisfy `Q`. Whatever
else the system does leaves the registry as it is. -/
inductive Run (Q : Registry π α → Change π α → Prop) : σ → (π → Set α) → Prop
  | start {s : σ} (hmembers : K.members s = fun _ => none) (hknown : K.known s = fun _ => none) :
      Run Q s fun _ => ∅
  | step {s : σ} {proved : π → Set α} {e : ε} (hrun : Run Q s proved)
      (hchange : Q (K.view s proved) (K.change s e)) :
      Run Q (K.step s e) ((K.view s proved).apply (K.change s e)).proved
  | other {s s' : σ} {proved : π → Set α} (hrun : Run Q s proved)
      (hmembers : K.members s' = K.members s) (hknown : K.known s' = K.known s) : Run Q s' proved

variable {K} {s : σ} {proved : π → Set α} {Q : Registry π α → Change π α → Prop}

theorem Run.foldl (hrun : K.Run Q s proved) (hQ : ∀ r c, Q r c) (es : List ε) :
    ∃ proved', K.Run Q (es.foldl K.step s) proved' := by
  induction es generalizing s proved with
  | nil => exact ⟨proved, hrun⟩
  | cons e es ih => exact ih (hrun.step (hQ _ _))

theorem view_step (s : σ) (proved : π → Set α) (e : ε) :
    K.view (K.step s e) ((K.view s proved).apply (K.change s e)).proved =
      (K.view s proved).apply (K.change s e) := by
  have hmembers := K.members_step s e
  have hknown := K.known_step s e
  generalize K.change s e = c at hmembers hknown ⊢
  rw [view, hmembers, hknown]
  cases c <;> rfl

/-- As long as the changes are safe, the registry is consistent. -/
theorem Run.consistent (hrun : K.Run Safe s proved) : Consistent (K.view s proved) := by
  induction hrun with
  | start hmembers hknown =>
      rw [view, hmembers, hknown]
      exact consistent_empty
  | step hrun hsafe ih =>
      rw [view_step]
      exact (ih.apply_iff _).2 hsafe
  | other hrun hmembers hknown ih =>
      rw [view, hmembers, hknown]
      exact ih

theorem Run.recorded (hrun : K.Run Q s proved) : Recorded (K.view s proved) := by
  induction hrun with
  | start hmembers hknown =>
      rw [view, hmembers]
      exact fun p a hp => nomatch hp
  | step hrun hchange ih =>
      rw [view_step]
      exact ih.apply _
  | other hrun hmembers hknown ih =>
      rw [view, hmembers, hknown]
      exact ih

end Keeper

end Registry
