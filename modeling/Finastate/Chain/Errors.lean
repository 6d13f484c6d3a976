import Finastate.Executor.Validate

/-!
# Errors of the chain

What the calls of the chain fail with. The coordinator and the consensus engines
look for two of these errors and pass the others on.
-/

namespace Finastate.Chain

open Executor

inductive CommitBlockError where
  | duplicated
  | notBest
  deriving DecidableEq, Repr

inductive ValidateTxError where
  | duplicatedTx (msg : String)
  | invalidTxUntil (msg : String)
  | invalidTxWitness (msg : String)
  | invalidTxModule (msg : String)
  | invalidTxMethod (msg : String)
  | invalidTxParams (msg : String)
  | application (msg : String)
  deriving DecidableEq, Repr

/-- `ErrorKind` of the chain, and the errors of other crates that pass through
it. The text of an execute queue error may end with that of another error. -/
inductive ErrorKind where
  | data (msg : String)
  | call (msg : String)
  | executeQueue (msg : String)
  | executeQueueOf (msg : String) (e : ErrorKind)
  | commitBlockError (e : CommitBlockError)
  | validateTxError (e : ValidateTxError)
  | executor (e : TxError)
  | invalidStateRoot (root : Hash)
  deriving DecidableEq, Repr

/-- `ok_or_else` with `ErrorKind::Data`. -/
def orData {α : Type} (msg : String) : Option α → Except ErrorKind α
  | some x => .ok x
  | none => .error (.data msg)

theorem orData_eq_ok {α : Type} {msg : String} {o : Option α} {x : α} :
    orData msg o = .ok x ↔ o = some x := by
  cases o with
  | none => simp [orData]
  | some y => simp [orData]

def noNumber (number : BlockNumber) : String := "Invalid block number: " ++ toString number

def noHash (blockHash : Hash) : String := "Invalid block hash: " ++ hexEncode blockHash.bytes

def notExecution (blockHash : Hash) : String :=
  "Not execution block hash: " ++ hexEncode blockHash.bytes

/-- The text of the coordinator and of the engines. -/
def missingHeader (blockHash : Hash) : String :=
  "Missing header: block_hash: " ++ hexEncode blockHash.bytes

/-- The text of `prepare_block`. -/
def gapExceeds (gap maxExecutionGap : Int) : String :=
  "execution gap exceed max: " ++ toString gap ++ ", max: " ++ toString maxExecutionGap

end Finastate.Chain
