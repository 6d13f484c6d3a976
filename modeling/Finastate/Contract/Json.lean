import Finastate.Executor.Context

/-!
# Values as JSON

Contracts keep their data, take their parameters and give their results as JSON
texts. Reading and writing texts is the work of a library; what a contract value
is as a `Json` is said here, as the derived and the written implementations of
`Serialize` and `Deserialize` have it. A structure is read from an object in
which each of its fields is once, or from an array with the fields in order.
-/

namespace Finastate.Contract

open Executor

/-- A `number` has no sign, fraction or exponent. Values that are read as nothing
here are `other`: other numbers and the truth values. -/
inductive Json where
  | null
  | number (n : Nat)
  | string (s : String)
  | array (items : List Json)
  | object (entries : List (String × Json))
  | other

/-- `serde_json`, which writes and reads texts. A `u64` is written such that it can
be read again. -/
structure SerdeJson where
  toVec : Json → Option Bytes
  fromSlice : Bytes → Option Json
  fromSlice_toVec : ∀ {n : Nat} {text : Bytes}, n < 2 ^ 64 → toVec (.number n) = some text →
    fromSlice text = some (.number n)

class Serialize (α : Type) where
  serialize : α → Json

class Deserialize (α : Type) where
  deserialize : Json → Option α

export Serialize (serialize)
export Deserialize (deserialize)

namespace Hex

def digit (n : Nat) : Char := "0123456789abcdef".toList.getD n '0'

def digitValue? (c : Char) : Option Nat :=
  if '0' ≤ c ∧ c ≤ '9' then some (c.toNat - '0'.toNat)
  else if 'a' ≤ c ∧ c ≤ 'f' then some (c.toNat - 'a'.toNat + 10)
  else if 'A' ≤ c ∧ c ≤ 'F' then some (c.toNat - 'A'.toNat + 10)
  else none

def pair (b : UInt8) : List Char := [digit (b.toNat / 16), digit (b.toNat % 16)]

/-- `hex::encode`. -/
def encode (bytes : Bytes) : String := String.ofList (bytes.flatMap pair)

def decodeChars : List Char → Option Bytes
  | [] => some []
  | [_] => none
  | c :: c' :: rest => do
      let high ← digitValue? c
      let low ← digitValue? c'
      let bytes ← decodeChars rest
      return UInt8.ofNat (16 * high + low) :: bytes

/-- `hex::decode`. -/
def decode (text : String) : Option Bytes := decodeChars text.toList

theorem digitValue?_digit {n : Nat} (h : n < 16) : digitValue? (digit n) = some n := by
  revert n
  decide

theorem decode_encode (bytes : Bytes) : decode (encode bytes) = some bytes := by
  rw [decode, encode, String.toList_ofList]
  induction bytes with
  | nil => rfl
  | cons b bytes ih =>
      have hhigh : b.toNat / 16 < 16 := by
        have := b.toNat_lt
        omega
      have hlow : b.toNat % 16 < 16 := Nat.mod_lt _ (by decide)
      have hbyte : UInt8.ofNat (16 * (b.toNat / 16) + b.toNat % 16) = b := by
        rw [Nat.div_add_mod, UInt8.ofNat_toNat]
      rw [List.flatMap_cons, pair, List.cons_append, List.cons_append, List.nil_append,
        decodeChars, digitValue?_digit hhigh, digitValue?_digit hlow, ih]
      simp only [Option.bind_eq_bind, Option.bind_some, Option.pure_def, hbyte]

end Hex

namespace Json

/-- The values of the fields of a structure. -/
def fields (names : List String) : Json → Option (List Json)
  | object entries =>
      names.mapM fun name =>
        match entries.filter fun entry => entry.1 = name with
        | [(_, value)] => some value
        | _ => none
  | array items => if items.length = names.length then some items else none
  | _ => none

end Json

/-- `EmptyParams`. -/
structure EmptyParams where

/-- `ContractEvent`. -/
structure ContractEvent (α : Type) where
  name : String
  data : α

instance Serialize.instUnit : Serialize Unit where
  serialize _ := .null

instance Serialize.instString : Serialize String where
  serialize := .string

instance Serialize.instUInt8 : Serialize UInt8 where
  serialize n := .number n.toNat

/-- `u64`. -/
instance Serialize.instNat : Serialize Nat where
  serialize := .number

instance Serialize.instAddress : Serialize Address where
  serialize address := .string (Hex.encode address.bytes)

instance Serialize.instContractEvent {α : Type} [Serialize α] : Serialize (ContractEvent α) where
  serialize event := .object [("name", serialize event.name), ("data", serialize event.data)]

instance Deserialize.instString : Deserialize String where
  deserialize
    | .string s => some s
    | _ => none

instance Deserialize.instUInt8 : Deserialize UInt8 where
  deserialize
    | .number n => if n < 256 then some (UInt8.ofNat n) else none
    | _ => none

/-- `u64`. -/
instance Deserialize.instNat : Deserialize Nat where
  deserialize
    | .number n => if n < 2 ^ 64 then some n else none
    | _ => none

instance Deserialize.instAddress : Deserialize Address where
  deserialize
    | .string s => (Hex.decode s).map Address.mk
    | _ => none

instance Deserialize.instOption {α : Type} [Deserialize α] : Deserialize (Option α) where
  deserialize
    | .null => some none
    | json => (deserialize json).map some

instance Deserialize.instEmptyParams : Deserialize EmptyParams where
  deserialize
    | .null => some {}
    | _ => none

theorem deserialize_nat_lt {json : Json} {n : Nat} (h : deserialize json = some n) :
    n < 2 ^ 64 := by
  cases json with
  | number m =>
      by_cases hm : m < 2 ^ 64
      · have hread : (deserialize (Json.number m) : Option Nat) = some m := if_pos hm
        rw [hread] at h
        cases h
        exact hm
      · have hread : (deserialize (Json.number m) : Option Nat) = none := if_neg hm
        rw [hread] at h
        cases h
  | _ => cases h

theorem deserialize_option_lt {json : Json} {n : Nat} (h : deserialize json = some (some n)) :
    n < 2 ^ 64 := by
  have hsome : (deserialize json : Option Nat) = some n := by
    cases json with
    | null => cases h
    | _ =>
        obtain ⟨m, hm, hmn⟩ := Option.map_eq_some_iff.1 h
        cases hmn
        exact hm
  exact deserialize_nat_lt hsome

theorem deserialize_option_number {n : Nat} (h : n < 2 ^ 64) :
    (deserialize (Json.number n) : Option (Option Nat)) = some (some n) := by
  have hread : (deserialize (Json.number n) : Option Nat) = some n := if_pos h
  change (deserialize (Json.number n) : Option Nat).map some = _
  rw [hread]
  rfl

/-- An address that is written as JSON is read back. -/
theorem deserialize_address (address : Address) :
    deserialize (serialize address) = some address := by
  change (Hex.decode (Hex.encode address.bytes)).map Address.mk = some address
  rw [Hex.decode_encode]
  rfl

end Finastate.Contract
