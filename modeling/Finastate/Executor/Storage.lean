import Mathlib.Data.Set.Insert
import Finastate.Executor.Context
import Finastate.Primitives.RoundTrip

/-!
# Storage values

What reading a storage value gives after a write, in any context that keeps
what it is given. An entry of a storage map is a storage value of its own. A
meta module works on the meta state of the context instead of the payload
state; `MetaContext` is the context as such a module uses it.
-/

namespace Finastate.Executor

/-- A key reads what was last written to it, and an event writes nothing. -/
class LawfulContext (C : Type) [ContextT C] : Prop where
  payloadGet_payloadSet (c : C) (key key' : DBKey) (value : Option DBValue) :
    ContextT.payloadGet (ContextT.payloadSet c key value) key' =
      if key' = key then value else ContextT.payloadGet c key'
  payloadGet_emitEvent (c : C) (event : Event) (key : DBKey) :
    ContextT.payloadGet (ContextT.emitEvent c event) key = ContextT.payloadGet c key

instance : LawfulContext Context where
  payloadGet_payloadSet := Context.payloadGet_payloadSet
  payloadGet_emitEvent _ _ _ := rfl

/-- The context as a meta module uses it, with `meta_get` and `meta_set`. -/
def MetaContext : Type := Context

namespace MetaContext

def metaGet (c : Context) (key : DBKey) : Option DBValue := c.metaState.get key

def metaSet (c : Context) (key : DBKey) (value : Option DBValue) : Context :=
  { c with metaState := c.metaState.set key value }

instance : ContextT MetaContext where
  env := Context.env
  callEnv := Context.callEnv
  payloadGet := metaGet
  payloadSet := metaSet
  emitEvent := Context.emitEvent

instance : LawfulContext MetaContext where
  payloadGet_payloadSet c := ContextState.get_set (Context.metaState c)
  payloadGet_emitEvent _ _ _ := rfl

end MetaContext

section Storage

variable {C K V : Type} [ContextT C]

namespace StorageValue

def delete (s : StorageValue V) (context : C) : C :=
  ContextT.payloadSet context s.key none

end StorageValue

/-- The value of a map under one key. -/
def StorageMap.entry (s : StorageMap K V) (k : K) : StorageValue V where
  moduleKey := s.moduleKey
  storageKey := s.storageKey ++ SEPARATOR ++ s.encodeKey k
  encode := s.encode
  decode := s.decode

theorem StorageMap.key_entry (s : StorageMap K V) (k : K) : (s.entry k).key = s.key k := by
  simp [entry, StorageValue.key, StorageMap.key]

theorem StorageMap.get_entry (s : StorageMap K V) (k : K) (c : C) :
    (s.entry k).get c = s.get c k := by
  rw [StorageValue.get, StorageMap.get, StorageMap.key_entry]
  rfl

theorem StorageMap.set_entry (s : StorageMap K V) (k : K) (c : C) (v : V) :
    (s.entry k).set c v = s.set c k v := by
  rw [StorageValue.set, StorageMap.set, StorageMap.key_entry]
  rfl

variable {s : StorageValue V} {c c' c'' : C} {v : V} {key : DBKey}

theorem contextGet_congr {decode : Codec.Decoder V}
    (h : ContextT.payloadGet c' key = ContextT.payloadGet c key) :
    contextGet decode c' key = contextGet decode c key := by
  rw [contextGet, contextGet, h]

/-- `c'` comes from `c` by writes under these keys and by events. -/
inductive Touched (keys : Set DBKey) (c : C) : C → Prop
  | refl : Touched keys c c
  | set {c' : C} {key : DBKey} (h : Touched keys c c') (hkey : key ∈ keys)
      (value : Option DBValue) : Touched keys c (ContextT.payloadSet c' key value)
  | emit {c' : C} (h : Touched keys c c') (event : Event) :
      Touched keys c (ContextT.emitEvent c' event)

namespace Touched

variable {keys keys' : Set DBKey}

theorem trans (h : Touched keys c c') (h' : Touched keys c' c'') : Touched keys c c'' := by
  induction h' with
  | refl => exact h
  | set h' hkey value ih => exact ih.set hkey value
  | emit h' event ih => exact ih.emit event

theorem mono (hsub : keys ⊆ keys') (h : Touched keys c c') : Touched keys' c c' := by
  induction h with
  | refl => exact .refl
  | set h hkey value ih => exact ih.set (hsub hkey) value
  | emit h event ih => exact ih.emit event

/-- What is written elsewhere stays. -/
theorem payloadGet_eq [LawfulContext C] (h : Touched keys c c') (hkey : key ∉ keys) :
    ContextT.payloadGet c' key = ContextT.payloadGet c key := by
  induction h with
  | refl => rfl
  | @set c' key' h hkey' value ih =>
      rw [LawfulContext.payloadGet_payloadSet, if_neg, ih]
      rintro rfl
      exact hkey hkey'
  | emit h event ih => rw [LawfulContext.payloadGet_emitEvent, ih]

theorem get_eq [LawfulContext C] (h : Touched keys c c') (hkey : s.key ∉ keys) :
    s.get c' = s.get c :=
  contextGet_congr (h.payloadGet_eq hkey)

end Touched

namespace StorageValue

theorem touched_set (s : StorageValue V) (c : C) (v : V) : Touched {s.key} c (s.set c v) :=
  Touched.refl.set (Set.mem_singleton s.key) _

theorem touched_delete (s : StorageValue V) (c : C) : Touched {s.key} c (s.delete c) :=
  Touched.refl.set (Set.mem_singleton s.key) _

section Lawful

variable [LawfulContext C]

@[simp] theorem get_emitEvent (s : StorageValue V) (c : C) (event : Event) :
    s.get (ContextT.emitEvent c event) = s.get c :=
  contextGet_congr (LawfulContext.payloadGet_emitEvent c event s.key)

theorem get_set {Valid : V → Prop} (hround : Codec.RoundTrip s.encode s.decode Valid)
    (hv : Valid v) (c : C) : s.get (s.set c v) = .ok (some v) := by
  have hdecode := hround v hv []
  rw [List.append_nil] at hdecode
  rw [get, contextGet, set, LawfulContext.payloadGet_payloadSet, if_pos rfl]
  simp only [hdecode]

/-- Whatever is written, something is there. -/
theorem get_set_ne_none (s : StorageValue V) (c : C) (v : V) : s.get (s.set c v) ≠ .ok none := by
  rw [get, contextGet, set, LawfulContext.payloadGet_payloadSet, if_pos rfl]
  simp only
  split
  · exact nofun
  · exact nofun

@[simp] theorem get_delete (s : StorageValue V) (c : C) : s.get (s.delete c) = .ok none := by
  rw [get, contextGet, delete, LawfulContext.payloadGet_payloadSet, if_pos rfl]

theorem get_set_of_ne {W : Type} {t : StorageValue W} (hne : s.key ≠ t.key) (c : C) (w : W) :
    s.get (t.set c w) = s.get c :=
  (t.touched_set c w).get_eq hne

theorem get_delete_of_ne {W : Type} {t : StorageValue W} (hne : s.key ≠ t.key) (c : C) :
    s.get (t.delete c) = s.get c :=
  (t.touched_delete c).get_eq hne

end Lawful

end StorageValue

end Storage

/-- A payload module leaves the meta state alone. -/
theorem Touched.metaState_eq {keys : Set DBKey} {c c' : Context} (h : Touched keys c c') :
    c'.metaState = c.metaState := by
  induction h with
  | refl => rfl
  | set h hkey value ih => exact ih
  | emit h event ih => exact ih

/-- A meta module leaves the payload state alone. -/
theorem Touched.payloadState_eq {keys : Set DBKey} {c c' : MetaContext}
    (h : Touched keys c c') : Context.payloadState c' = Context.payloadState c := by
  induction h with
  | refl => rfl
  | set h hkey value ih => exact ih
  | emit h event ih => exact ih

end Finastate.Executor
