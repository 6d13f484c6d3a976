import Finastate.StateDb.Library

/-!
# The state database

Roots are handed out as byte strings. A batch of changes to the trie of a root
gives a new root and a transaction with the nodes that are new; nothing is ever
deleted. The root of zeros stands for the empty trie.
-/

namespace Finastate.StateDb

/-! ## The database -/

/-- The values of the columns. -/
abbrev DB := Nat → DBKey → Option DBValue

inductive DBOp where
  | insert (col : Nat) (key : DBKey) (value : DBValue)
  | delete (col : Nat) (key : DBKey)
  deriving DecidableEq, Repr

def DBOp.col : DBOp → Nat
  | insert col _ _ | delete col _ => col

abbrev DBTransaction := List DBOp

namespace DB

def get (db : DB) (col : Nat) (key : DBKey) : Option DBValue := db col key

def apply (db : DB) : DBOp → DB
  | .insert col key value => Function.update db col (Function.update (db col) key (some value))
  | .delete col key => Function.update db col (Function.update (db col) key none)

def write (db : DB) (transaction : DBTransaction) : DB := transaction.foldl apply db

end DB

/-! ## Roots -/

inductive Error where
  | trie (e : String)
  | panic
  deriving DecidableEq, Repr

variable {l : HashLength}

/-- `H::Out::default()`. -/
def defaultRootForHasher (l : HashLength) : Out l := ⟨List.replicate l.toNat 0, by simp⟩

def defaultRoot (l : HashLength) : Bytes := (defaultRootForHasher l).1

/-- `copy_from_slice`, which panics on another length. -/
def typedRoot (l : HashLength) (root : Bytes) : Except Error (Out l) :=
  if h : root.length = l.toNat then .ok ⟨root, h⟩ else .error .panic

/-- `parse_trie_error`. -/
def parseTrieError {α : Type} (result : Except String α) : Except Error α :=
  result.mapError Error.trie

section

variable (lib : Library l)

/-- The buffer is looked into first. -/
structure ProxyHashDB where
  db : DB
  dbColumn : Nat
  buffer : lib.mem.State

def ProxyHashDB.get {lib : Library l} (proxy : ProxyHashDB lib) : HashGet l := fun key pre =>
  match lib.mem.get proxy.buffer key pre with
  | some val => some val
  | none => proxy.db.get proxy.dbColumn (lib.prefixedKey key pre)

structure StateDBStmt where
  proxy : ProxyHashDB lib
  root : Out l
  new : Bool

structure StateDBGetter where
  triedb : Option (ProxyHashDB lib × Out l)

/-- The hasher is that of the library. -/
structure StateDB (lib : Library l) where
  db : DB
  dbColumn : Nat

end

namespace StateDB

variable {lib : Library l} (statedb : StateDB lib)

/-- A proxy with an empty buffer. -/
def proxy : ProxyHashDB lib where
  db := statedb.db
  dbColumn := statedb.dbColumn
  buffer := lib.mem.default

/-! ## Reading -/

def prepareStmt (root : Bytes) : Except Error (StateDBStmt lib) := do
  let new := decide (defaultRoot l = root)
  let root ← typedRoot l root
  return { proxy := statedb.proxy, root, new }

def prepareGet (stmt : StateDBStmt lib) : Except Error (StateDBGetter lib) :=
  match stmt.new with
  | false => do
      parseTrieError (lib.trie.openDb stmt.proxy.get stmt.root)
      return { triedb := some (stmt.proxy, stmt.root) }
  | true => .ok { triedb := none }

end StateDB

def StateDBGetter.get {lib : Library l} (getter : StateDBGetter lib) (key : DBKey) :
    Except Error (Option DBValue) :=
  match getter.triedb with
  | some (proxy, root) => parseTrieError (lib.trie.get proxy.get root key)
  | none => .ok none

namespace StateDB

variable {lib : Library l} (statedb : StateDB lib)

/-- A key of a root, through a statement and a getter. -/
def read (root : Bytes) (key : DBKey) : Except Error (Option DBValue) := do
  let stmt ← statedb.prepareStmt root
  let getter ← prepareGet stmt
  getter.get key

/-! ## Updating -/

/-- Apply data to the trie. -/
def applyData (get : HashGet l) : lib.trie.Mut → List (DBKey × Option DBValue) →
    Except Error lib.trie.Mut
  | triedb, [] => .ok triedb
  | triedb, (k, some v) :: data => do
      let triedb ← parseTrieError (lib.trie.insert get triedb k v)
      applyData get triedb data
  | triedb, (k, none) :: data => do
      let triedb ← parseTrieError (lib.trie.remove get triedb k)
      applyData get triedb data

/-- The new root, and what the trie does to the proxy when it is dropped. -/
def changes (root : Out l) (data : List (DBKey × Option DBValue)) :
    Except Error (Out l × List (HashDbOp l)) := do
  let new := decide (defaultRootForHasher l = root)
  let triedb ← match new with
    | true => .ok lib.trie.new
    | false => parseTrieError (lib.trie.fromExisting statedb.proxy.get root)
  let triedb ← applyData statedb.proxy.get triedb data
  return lib.trie.commit triedb

/-- Only insertions are written. -/
def transaction (ops : List (HashDbOp l)) : DBTransaction :=
  (lib.mem.drain (ops.foldl lib.mem.apply statedb.proxy.buffer)).filterMap fun (k, v, rc) =>
    if 0 < rc then some (.insert statedb.dbColumn k v) else none

def prepareUpdateForHasher (root : Out l) (data : List (DBKey × Option DBValue)) :
    Except Error (Out l × DBTransaction) := do
  let (root, ops) ← statedb.changes root data
  return (root, statedb.transaction ops)

def prepareUpdate (root : Bytes) (data : List (DBKey × Option DBValue)) :
    Except Error (Bytes × DBTransaction) := do
  let root ← typedRoot l root
  let (root, transaction) ← statedb.prepareUpdateForHasher root data
  return (root.1, transaction)

end StateDB

end Finastate.StateDb
