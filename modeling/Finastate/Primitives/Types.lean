import Mathlib.Data.List.Basic
import Mathlib.Data.UInt

/-!
# Primitive types

The types every part of the node shares: byte strings, the newtypes over them
(`Address`, `Hash`, keys and signatures), transactions, headers and proofs.
Machine integers are natural numbers; where the source relies on their width
the operation that can wrap is written out with `wrapAdd` and `wrapSub`, which
follow the release profile (no overflow checks).
-/

namespace Finastate

/-- `Vec<u8>`. -/
abbrev Bytes := List UInt8

structure Address where
  bytes : Bytes
  deriving DecidableEq, Repr

structure PublicKey where
  bytes : Bytes
  deriving DecidableEq, Repr

structure SecretKey where
  bytes : Bytes
  deriving DecidableEq, Repr

structure Signature where
  bytes : Bytes
  deriving DecidableEq, Repr

structure Hash where
  bytes : Bytes
  deriving DecidableEq, Repr

/-- `u64`. -/
abbrev BlockNumber := Nat

/-- `u64`. -/
abbrev Balance := Nat

structure Witness where
  publicKey : PublicKey
  signature : Signature
  nonce : Nat
  untilNumber : BlockNumber
  deriving DecidableEq, Repr

structure Call where
  module : String
  method : String
  params : Bytes
  deriving DecidableEq, Repr

structure Transaction where
  witness : Option Witness
  call : Call
  deriving DecidableEq, Repr

structure FullTransaction where
  tx : Transaction
  txHash : Hash
  deriving DecidableEq, Repr

/-- `payload_execution_gap` is an `i8` in the source, hence the integer. -/
structure Header where
  number : BlockNumber
  timestamp : Nat
  parentHash : Hash
  metaTxsRoot : Hash
  metaStateRoot : Hash
  metaReceiptsRoot : Hash
  payloadTxsRoot : Hash
  payloadExecutionGap : Int
  payloadExecutionStateRoot : Hash
  payloadExecutionReceiptsRoot : Hash
  deriving DecidableEq, Repr

structure Body where
  metaTxs : List Hash
  payloadTxs : List Hash
  deriving DecidableEq, Repr

/-- `primitives::Proof`: the name of a consensus engine and the encoded proof
of that engine. -/
structure Proof where
  name : String
  data : Bytes
  deriving DecidableEq, Repr

structure BuildBlockParams where
  number : BlockNumber
  timestamp : Nat
  metaTxs : List FullTransaction
  payloadTxs : List FullTransaction
  executionNumber : BlockNumber
  deriving DecidableEq, Repr

/-- `ChainCommitBlockParams`, without the receipts and the database
transaction of the meta state, which no modelled function reads. -/
structure CommitBlockParams where
  blockHash : Hash
  header : Header
  body : Body
  proof : Proof
  deriving DecidableEq, Repr

def CONSENSUS_POA : String := "poa"

def CONSENSUS_RAFT : String := "raft"

def CONSENSUS_HOTSTUFF : String := "hotstuff"

/-- Addition of `w`-bit unsigned integers, wrapping. -/
def wrapAdd (w a b : Nat) : Nat := (a + b) % 2 ^ w

/-- Subtraction of `w`-bit unsigned integers, wrapping. -/
def wrapSub (w a b : Nat) : Nat := (2 ^ w - b % 2 ^ w + a) % 2 ^ w

/-- `gap as u64`: the sign is extended. -/
def gapAsU64 (gap : Int) : Nat := (gap % 2 ^ 64).toNat

theorem wrapAdd_of_lt {w a b : Nat} (h : a + b < 2 ^ w) : wrapAdd w a b = a + b :=
  Nat.mod_eq_of_lt h

theorem wrapSub_of_le {w a b : Nat} (ha : a < 2 ^ w) (h : b ≤ a) :
    wrapSub w a b = a - b := by
  have hb : b % 2 ^ w = b := Nat.mod_eq_of_lt (Nat.lt_of_le_of_lt h ha)
  have hsplit : 2 ^ w - b + a = a - b + 2 ^ w := by omega
  rw [wrapSub, hb, hsplit, Nat.add_mod_right, Nat.mod_eq_of_lt (by omega)]

end Finastate
