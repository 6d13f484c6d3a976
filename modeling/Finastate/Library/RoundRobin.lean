import Mathlib.Data.List.Rotate

/-!
# Taking turns

The members of a list take turns: turn `i` is the one of the member at `i`
modulo the length. Counting on from the position of the member whose turn it
is gives the same turns, and as many turns in a row as there are members are a
rotation of the list.
-/

namespace RoundRobin

variable {α : Type*}

def turn (members : List α) (i : Nat) : Option α := members[i % members.length]?

theorem turn_mod (members : List α) (i d : Nat) :
    turn members (i % members.length + d) = turn members (i + d) := by
  rw [turn, turn, Nat.mod_add_mod]

/-- The member whose turn it is stands at the turn modulo the length. -/
theorem findIdx?_of_turn [DecidableEq α] {members : List α} (hnodup : members.Nodup) {i : Nat} {a : α}
    (h : turn members i = some a) :
    members.findIdx? (fun b => decide (b = a)) = some (i % members.length) := by
  obtain ⟨hlt, ha⟩ := List.getElem?_eq_some_iff.1 h
  rw [List.findIdx?_eq_some_iff_getElem]
  refine ⟨hlt, by simpa using ha, ?_⟩
  intro j hj
  have hne : members[j] ≠ a := by
    rw [← ha]
    intro heq
    have := (hnodup.getElem_inj_iff).1 heq
    omega
  simpa using hne

/-- As many turns as there are members are a rotation of the members. -/
theorem map_range_turn (members : List α) (i : Nat) :
    ((List.range members.length).map fun n => turn members (i + n)) =
      (members.rotate i).map some := by
  apply List.ext_getElem
  · simp
  · intro n hn hn'
    have hlt : n < members.length := by simpa using hn
    have hmod : (n + i) % members.length < members.length := Nat.mod_lt _ (by omega)
    simp [turn, List.getElem_rotate, Nat.add_comm i n, List.getElem?_eq_getElem hmod]

end RoundRobin
