import Finastate.Executor.Context

/-!
# What the contract module stores

The limits of the virtual machine, and for every contract its version and the
code and code hash of each version.
-/

namespace Finastate.Contract

open Executor

def STORAGE_KEY : Bytes := asBytes "contract"

def CONTRACT_DATA_STORAGE_KEY : Bytes := asBytes "contract_data"

/-- `Option<T>`. -/
def decodeOption {α : Type} (decode : Codec.Decoder α) : Codec.Decoder (Option α)
  | 0 :: rest => some (none, rest)
  | 1 :: rest => (decode rest).map fun (x, rest) => (some x, rest)
  | _ => none

def encodeOption {α : Type} (encode : α → Bytes) : Option α → Bytes
  | none => [0]
  | some x => 1 :: encode x

def limit32 (field : String) : StorageValue (Option Nat) where
  moduleKey := STORAGE_KEY
  storageKey := asBytes field
  encode := encodeOption (Codec.encodeLe 4)
  decode := decodeOption Codec.decodeU32

def limit64 (field : String) : StorageValue (Option Nat) where
  moduleKey := STORAGE_KEY
  storageKey := asBytes field
  encode := encodeOption Codec.encodeU64
  decode := decodeOption Codec.decodeU64

def maxStackHeight : StorageValue (Option Nat) := limit32 "max_stack_height"

def initialMemoryPages : StorageValue (Option Nat) := limit32 "initial_memory_pages"

def maxMemoryPages : StorageValue (Option Nat) := limit32 "max_memory_pages"

def maxShareValueLen : StorageValue (Option Nat) := limit64 "max_share_value_len"

def maxShareSize : StorageValue (Option Nat) := limit64 "max_share_size"

def maxNestDepth : StorageValue (Option Nat) := limit32 "max_nest_depth"

structure Admin where
  threshold : Nat
  members : List (Address × Nat)
  deriving DecidableEq, Repr

def encodeAdmin (admin : Admin) : Bytes :=
  Codec.encodeLe 4 admin.threshold ++ Codec.encodeCompact admin.members.length ++
    admin.members.flatMap fun (address, weight) =>
      Codec.encodeBytes address.bytes ++ Codec.encodeLe 4 weight

def decodeAdmin : Codec.Decoder Admin := fun input => do
  let (threshold, rest) ← Codec.decodeU32 input
  let (members, rest) ← Codec.decodeVec (fun input => do
    let (address, rest) ← Codec.decodeAddress input
    let (weight, rest) ← Codec.decodeU32 rest
    return ((address, weight), rest)) rest
  return ({ threshold, members }, rest)

def encodeVersioned (k : Address × Nat) : Bytes :=
  Codec.encodeBytes k.1.bytes ++ Codec.encodeLe 4 k.2

/-- `admin`: contract address to admin. -/
def admin : StorageMap Address Admin where
  moduleKey := STORAGE_KEY
  storageKey := asBytes "admin"
  encodeKey := fun address => Codec.encodeBytes address.bytes
  encode := encodeAdmin
  decode := decodeAdmin

/-- `version`: contract address to current version. -/
def version : StorageMap Address Nat where
  moduleKey := STORAGE_KEY
  storageKey := asBytes "version"
  encodeKey := fun address => Codec.encodeBytes address.bytes
  encode := Codec.encodeLe 4
  decode := Codec.decodeU32

/-- `code`: contract address and version to code. -/
def code : StorageMap (Address × Nat) Bytes where
  moduleKey := STORAGE_KEY
  storageKey := asBytes "code"
  encodeKey := encodeVersioned
  encode := Codec.encodeBytes
  decode := Codec.decodeBytes

/-- `code_hash`: contract address and version to code hash. -/
def codeHash : StorageMap (Address × Nat) Hash where
  moduleKey := STORAGE_KEY
  storageKey := asBytes "code_hash"
  encodeKey := encodeVersioned
  encode := fun hash => Codec.encodeBytes hash.bytes
  decode := Codec.decodeHash

/-- `vm_to_module_key`: the key in the state of a key of a contract,
`[module_key]_[contract_data_storage_key]_hash([contract_address]_[key])`. -/
def moduleKey (util : Util) (contractAddress : Address) (key : Bytes) : DBKey :=
  STORAGE_KEY ++ SEPARATOR ++ CONTRACT_DATA_STORAGE_KEY ++ SEPARATOR ++
    (util.hash (contractAddress.bytes ++ SEPARATOR ++ key)).bytes

section Lookup

variable {C : Type} [ContextT C]

def innerGetVersion (context : C) (contractAddress : Address) :
    Option Nat → ModuleResult (Option Nat)
  | some v => .ok (some v)
  | none => version.get context contractAddress

def innerGetCodeHash (context : C) (contractAddress : Address) (v : Option Nat) :
    ModuleResult (Option Hash) :=
  (innerGetVersion context contractAddress v).bind fun v =>
    match v with
    | none => .ok none
    | some v => codeHash.get context (contractAddress, v)

def innerGetCode (context : C) (contractAddress : Address) (v : Option Nat) :
    ModuleResult (Option Bytes) :=
  (innerGetVersion context contractAddress v).bind fun v =>
    match v with
    | none => .ok none
    | some v => code.get context (contractAddress, v)

end Lookup

end Finastate.Contract
