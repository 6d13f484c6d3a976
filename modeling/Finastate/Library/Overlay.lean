import Finastate.Library.AssocMap

/-!
# Stacks of overlays

Pending writes over a store are kept in layers, the innermost first. A layer
maps a key to the value written, where `none` is a deletion, and a key is read
from the first layer that has it. Folding a layer into the one below it does
not change what is read through both, and a layer without a key does not hide
it.
-/

namespace Overlay

variable {κ ν : Type*} [DecidableEq κ]

/-- The pending writes of one layer. -/
abbrev Layer (κ ν : Type*) := List (κ × Option ν)

/-- Reading through the layers down to the store. -/
def read (store : κ → Option ν) : List (Layer κ ν) → κ → Option ν
  | [], k => store k
  | layer :: layers, k => (AssocMap.get? layer k).getD (read store layers k)

variable {store : κ → Option ν} {layer : Layer κ ν} {layers : List (Layer κ ν)} {k : κ}

@[simp] theorem read_nil : read store [] k = store k := rfl

theorem read_cons :
    read store (layer :: layers) k =
      (AssocMap.get? layer k).getD (read store layers k) := rfl

@[simp] theorem read_empty_cons : read store ([] :: layers) k = read store layers k := rfl

/-- A layer that does not have the key shows what lies below. -/
theorem read_cons_of_get?_eq_none (h : AssocMap.get? layer k = none) :
    read store (layer :: layers) k = read store layers k := by
  rw [read_cons, h, Option.getD_none]

theorem read_insert_cons (layers : List (Layer κ ν)) (key : κ) (v : Option ν) :
    read store (AssocMap.insert layer key v :: layers) k =
      if k = key then v else read store (layer :: layers) k := by
  rw [read_cons, AssocMap.get?_insert]
  by_cases hk : k = key
  · simp [hk]
  · simp [hk, read_cons]

/-- Folding a layer into the next one. -/
theorem read_extend_cons (lower upper : Layer κ ν) :
    read store (AssocMap.extend lower upper :: layers) k =
      read store (upper :: lower :: layers) k := by
  rw [read_cons, AssocMap.get?_extend, read_cons, read_cons]
  cases AssocMap.get? upper k with
  | none => simp
  | some v => simp

end Overlay
