import Finastate.Primitives.Types
import Mathlib.Algebra.Order.BigOperators.Group.List
import Mathlib.Algebra.Order.Group.Int
import Mathlib.Logic.Function.Basic

/-!
# Tries over a hash database

What the state database uses of `memory_db` and `trie_db`. A trie is stored as
nodes under their hashes, and a node says which nodes are below it. Changes to a
trie are kept in memory until they are committed, which inserts the new nodes
into the hash database and removes those that were replaced. `Library.Correct`
says what is relied on: that this is a map, over every hash database that
returns what was inserted.
-/

namespace Finastate.StateDb

inductive HashLength where
  | hashLength20
  | hashLength32
  | hashLength64
  deriving DecidableEq, Repr

def HashLength.toNat : HashLength → Nat
  | .hashLength20 => 20
  | .hashLength32 => 32
  | .hashLength64 => 64

/-- `H::Out`. -/
abbrev Out (l : HashLength) := { bs : Bytes // bs.length = l.toNat }

/-- The place of a node: the bytes of the keys below it, and half a byte. -/
abbrev Prefix := Bytes × Option UInt8

def EMPTY_PREFIX : Prefix := ([], none)

abbrev DBKey := Bytes

abbrev DBValue := Bytes

/-- The map that a trie denotes. -/
abbrev Contents := DBKey → Option DBValue

def Contents.empty : Contents := fun _ => none

/-- An empty value is equivalent to removing the key. -/
def Contents.apply (m : Contents) : DBKey × Option DBValue → Contents
  | (k, some v) => Function.update m k (if v = [] then none else some v)
  | (k, none) => Function.update m k none

/-- `HashDB::get` of a hash database. -/
abbrev HashGet (l : HashLength) := Out l → Prefix → Option DBValue

/-- What a commit does to the hash database. -/
inductive HashDbOp (l : HashLength) where
  | insert (pre : Prefix) (value : DBValue)
  | remove (key : Out l) (pre : Prefix)
  deriving DecidableEq

/-- `memory_db::MemoryDB`. -/
structure MemoryDb (l : HashLength) where
  State : Type
  default : State
  get : State → HashGet l
  insert : State → Prefix → DBValue → State
  remove : State → Out l → Prefix → State
  drain : State → List (DBKey × DBValue × Int)

def MemoryDb.apply {l : HashLength} (mem : MemoryDb l) (buffer : mem.State) :
    HashDbOp l → mem.State
  | .insert pre value => mem.insert buffer pre value
  | .remove key pre => mem.remove buffer key pre

/-- `trie_db::TrieDB` and `trie_db::TrieDBMut`. -/
structure TrieDb (l : HashLength) where
  openDb : HashGet l → Out l → Except String Unit
  get : HashGet l → Out l → DBKey → Except String (Option DBValue)
  Mut : Type
  new : Mut
  fromExisting : HashGet l → Out l → Except String Mut
  insert : HashGet l → Mut → DBKey → DBValue → Except String Mut
  remove : HashGet l → Mut → DBKey → Except String Mut
  commit : Mut → Out l × List (HashDbOp l)

/-- `nullNode` is the node of the empty trie. -/
structure Library (l : HashLength) where
  hash : DBValue → Out l
  prefixedKey : Out l → Prefix → DBKey
  nullNode : DBValue
  mem : MemoryDb l
  trie : TrieDb l

namespace Library

variable {l : HashLength} (lib : Library l)

/-- What an operation adds to the reference count of a key. The null node is not counted. -/
def rc (k : DBKey) : HashDbOp l → Int
  | .insert pre value =>
      if value ≠ lib.nullNode ∧ lib.prefixedKey (lib.hash value) pre = k then 1 else 0
  | .remove key pre => if key ≠ lib.hash lib.nullNode ∧ lib.prefixedKey key pre = k then -1 else 0

def count (ops : List (HashDbOp l)) (k : DBKey) : Int := (ops.map (lib.rc k)).sum

/-- A hash database has nodes under their hashes. -/
def Sound (get : HashGet l) : Prop := ∀ h pre v, get h pre = some v → lib.hash v = h

/-- A hash database returns everything that another one does. -/
def Extends (get get' : HashGet l) : Prop := ∀ h pre v, get h pre = some v → get' h pre = some v

/-- The memory database after some operations. -/
def buffer (ops : List (HashDbOp l)) : lib.mem.State := ops.foldl lib.mem.apply lib.mem.default

/-- What is relied on. `Trie get root m` says that in the hash database there is a trie for `m`
with this root, and `Pending get mt m` that a trie in memory stands for `m`. -/
structure Correct (Trie : HashGet l → Out l → Contents → Prop)
    (Pending : HashGet l → lib.trie.Mut → Contents → Prop) : Prop where
  /-- The end of a key is the hash. -/
  prefixedKey_inj : ∀ {h pre h' pre'},
    lib.prefixedKey h pre = lib.prefixedKey h' pre' → h = h'
  /-- An empty memory database has the null node only. -/
  get_default : ∀ h pre, lib.mem.get lib.mem.default h pre =
    if h = lib.hash lib.nullNode then some lib.nullNode else none
  /-- Values are counted by their insertions and removals. -/
  drain_count : ∀ {ops k v rc}, (k, v, rc) ∈ lib.mem.drain (lib.buffer ops) →
    rc = lib.count ops k
  drain_value : ∀ {ops k v rc}, (k, v, rc) ∈ lib.mem.drain (lib.buffer ops) → 0 < rc →
    ∃ pre, HashDbOp.insert pre v ∈ ops ∧ lib.prefixedKey (lib.hash v) pre = k
  mem_drain : ∀ {ops k}, 0 < lib.count ops k →
    ∃ v rc, (k, v, rc) ∈ lib.mem.drain (lib.buffer ops)
  /-- The root node is in the hash database. -/
  exists_root : ∀ {get root m}, Trie get root m → ∃ v, get root EMPTY_PREFIX = some v
  openDb_eq : ∀ {get root m}, Trie get root m → lib.trie.openDb get root = .ok ()
  get_eq : ∀ {get root m}, Trie get root m → ∀ k, lib.trie.get get root k = .ok (m k)
  /-- A trie is read by the nodes that are there. -/
  grow : ∀ {get get' root m}, Trie get root m → Extends get get' → Trie get' root m
  new : ∀ {get}, lib.Sound get → Pending get lib.trie.new .empty
  fromExisting : ∀ {get root m}, lib.Sound get → Trie get root m →
    ∃ mt, lib.trie.fromExisting get root = .ok mt ∧ Pending get mt m
  insert : ∀ {get mt m}, Pending get mt m → ∀ k v,
    ∃ mt', lib.trie.insert get mt k v = .ok mt' ∧ Pending get mt' (m.apply (k, some v))
  remove : ∀ {get mt m}, Pending get mt m → ∀ k,
    ∃ mt', lib.trie.remove get mt k = .ok mt' ∧ Pending get mt' (m.apply (k, none))
  /-- Only nodes that were read are removed. -/
  mem_of_remove : ∀ {get mt m}, Pending get mt m →
    ∀ h pre, HashDbOp.remove h pre ∈ (lib.trie.commit mt).2 → ∃ v, get h pre = some v
  /-- Where the old nodes are and what was inserted, there is the trie. -/
  commit : ∀ {get get' mt m}, Pending get mt m → lib.Sound get' → Extends get get' →
    (∀ pre v, HashDbOp.insert pre v ∈ (lib.trie.commit mt).2 → get' (lib.hash v) pre = some v) →
      Trie get' (lib.trie.commit mt).1 m

end Library

end Finastate.StateDb
