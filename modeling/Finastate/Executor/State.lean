import Finastate.Library.SortedMap
import Finastate.Executor.Context
import Finastate.StateDb.Library
import Mathlib.Data.List.Lex

/-!
# States and their updates

The state database keeps every state under the root of its trie. The root
depends on the content of the state only, so a `StateMap` is kept in the order
of its keys: two of them with the same content are the same. A trie has no
empty values: inserting one removes the key. `update` is what `prepare_update`
does to the trie, one item of a buffer after the other.
-/

namespace Finastate

/-- `u8` in its order. -/
instance instLinearOrderUInt8 : LinearOrder UInt8 where
  le_refl _ := UInt8.le_refl _
  le_trans _ _ _ := UInt8.le_trans
  lt_iff_le_not_ge a b := by
    simp only [UInt8.lt_iff_toNat_lt, UInt8.le_iff_toNat_le]
    omega
  le_antisymm _ _ := UInt8.le_antisymm
  le_total a b := UInt8.le_total a b
  toDecidableLE a b := inferInstance
  toDecidableEq a b := inferInstance
  toDecidableLT a b := inferInstance

namespace Executor

/-- The content of a trie. -/
structure StateMap where
  entries : List (DBKey × DBValue)
  sorted : SortedMap.Sorted entries
  filled : ∀ item ∈ entries, item.2 ≠ []
  deriving DecidableEq

namespace StateMap

def empty : StateMap := ⟨[], List.Pairwise.nil, nofun⟩

def get (m : StateMap) (key : DBKey) : Option DBValue := AssocMap.get? m.entries key

def insert (m : StateMap) (key : DBKey) (value : DBValue) (h : value ≠ []) : StateMap where
  entries := SortedMap.insert m.entries key value
  sorted := m.sorted.insert key value
  filled := by
    intro item hitem
    rcases SortedMap.mem_insert hitem with rfl | hitem
    · exact h
    · exact m.filled item hitem

def remove (m : StateMap) (key : DBKey) : StateMap where
  entries := AssocMap.erase m.entries key
  sorted := m.sorted.erase key
  filled := fun item hitem => m.filled item (List.mem_of_mem_filter hitem)

/-- `TrieMut::insert` and `TrieMut::remove`; inserting an empty value removes
the key. -/
def put (m : StateMap) (key : DBKey) : Option DBValue → StateMap
  | some [] => m.remove key
  | some (b :: value) => m.insert key (b :: value) (List.cons_ne_nil b value)
  | none => m.remove key

/-- The loop of `prepare_update` over the items of a buffer. -/
def update (m : StateMap) (data : List (DBKey × Option DBValue)) : StateMap :=
  data.foldl (fun m item => m.put item.1 item.2) m

/-- What a trie has of a value that is written to it. -/
def trieValue : Option DBValue → Option DBValue
  | some [] => none
  | some (b :: value) => some (b :: value)
  | none => none

theorem trieValue_eq_self_iff {value : Option DBValue} :
    trieValue value = value ↔ value ≠ some [] := by
  match value with
  | some [] => simp [trieValue]
  | some (b :: value) => simp [trieValue]
  | none => simp [trieValue]

theorem get_ne_nil (m : StateMap) (key : DBKey) : m.get key ≠ some [] := fun hget =>
  m.filled _ (AssocMap.mem_of_get?_eq_some hget) rfl

theorem trieValue_get (m : StateMap) (key : DBKey) : trieValue (m.get key) = m.get key :=
  trieValue_eq_self_iff.2 (m.get_ne_nil key)

theorem ext_get {m m' : StateMap} (h : m.get = m'.get) : m = m' := by
  cases m with
  | mk entries sorted filled =>
      cases m' with
      | mk entries' sorted' filled' =>
          have hentries : entries = entries' := sorted.ext sorted' (congrFun h)
          subst hentries
          rfl

theorem get_put (m : StateMap) (key key' : DBKey) (value : Option DBValue) :
    (m.put key value).get key' = if key' = key then trieValue value else m.get key' := by
  match value with
  | some [] => exact AssocMap.get?_erase m.entries key key'
  | some (b :: value) => exact SortedMap.get?_insert m.entries key key' (b :: value)
  | none => exact AssocMap.get?_erase m.entries key key'

/-- The map does what the tries of the state database do to what they denote. -/
theorem get_put_eq_apply (m : StateMap) (key : DBKey) (value : Option DBValue) :
    (m.put key value).get = StateDb.Contents.apply m.get (key, value) := by
  funext key'
  rw [get_put]
  match value with
  | some [] => simp [StateDb.Contents.apply, Function.update_apply, trieValue]
  | some (b :: value) => simp [StateDb.Contents.apply, Function.update_apply, trieValue]
  | none => simp [StateDb.Contents.apply, Function.update_apply, trieValue]

theorem get_update_eq_foldl (m : StateMap) (data : List (DBKey × Option DBValue)) :
    (m.update data).get = data.foldl StateDb.Contents.apply m.get := by
  induction data generalizing m with
  | nil => rfl
  | cons item data ih =>
      rw [List.foldl_cons, ← get_put_eq_apply]
      exact ih (m.put item.1 item.2)

/-- Every key of the data is written once, so the data is an overlay over the
old state, less its empty values. -/
theorem get_update (m : StateMap) {data : List (DBKey × Option DBValue)}
    (h : (data.map Prod.fst).Nodup) (key : DBKey) :
    (m.update data).get key = trieValue ((AssocMap.get? data key).getD (m.get key)) := by
  induction data generalizing m with
  | nil => exact (m.trieValue_get key).symm
  | cons item data ih =>
      obtain ⟨hitem, hdata⟩ := List.nodup_cons.1 h
      have hfold : m.update (item :: data) = (m.put item.1 item.2).update data := rfl
      rw [hfold, ih _ hdata, AssocMap.get?_cons]
      by_cases hkey : item.1 = key
      · have hnone : AssocMap.get? data key = none := by
          rw [← hkey, Option.eq_none_iff_forall_ne_some]
          intro value hvalue
          exact hitem (List.mem_map.2 ⟨_, AssocMap.mem_of_get?_eq_some hvalue, rfl⟩)
        rw [hnone, if_pos hkey, Option.getD_none, Option.getD_some, trieValue_get, get_put,
          if_pos hkey.symm]
      · rw [if_neg hkey, get_put, if_neg (Ne.symm hkey)]

/-- The order in which the items come does not matter. -/
theorem update_perm (m : StateMap) {data data' : List (DBKey × Option DBValue)}
    (h : (data.map Prod.fst).Nodup) (hperm : data'.Perm data) :
    m.update data' = m.update data := by
  have h' : (data'.map Prod.fst).Nodup := (hperm.map Prod.fst).nodup_iff.2 h
  refine ext_get (funext fun key => ?_)
  rw [get_update m h', get_update m h,
    AssocMap.get?_congr h' h (fun _ => hperm.mem_iff) key]

end StateMap

/-- `prepare_update`: the new root, and the new trie for the database. -/
def prepareUpdate (stateRoot : StateMap → Hash) (base : StateMap) (data : Buffer) :
    Hash × StateMap :=
  let m := base.update data
  (stateRoot m, m)

end Executor

end Finastate
