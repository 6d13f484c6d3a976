import Finastate.Executor.Context

/-!
# Executing transactions

`execute_txs` runs a batch of transactions of one kind. Each runs on the
context as the ones before left it; the writes of one that returns an
application error are dropped, and a system error ends the batch.
-/

namespace Finastate.Executor

/-- The modules behind the names of calls. -/
structure Dispatcher where
  isMeta : String → Except CommonError Bool
  executeCall : Context → Option Address → Call → Context × Except CommonError OpaqueCallResult

/-- How the dispatcher passes on the result of a module. -/
def opaqueCallResult : ModuleResult Bytes → Except CommonError OpaqueCallResult
  | .ok result => .ok (.ok result)
  | .error (.system e) => .error e
  | .error (.application e) => .ok (.error e.toString)

end Finastate.Executor

namespace Finastate

open Executor

structure Executor where
  dispatcher : Dispatcher
  /-- The address of a public key. -/
  address : PublicKey → Address

namespace Executor

variable (executor : Executor)

/-- The part of the loop of `execute_txs` that runs one transaction. -/
def executeTx (context : Context) (tx : FullTransaction) :
    Context × Except CommonError FullReceipt :=
  let sender := tx.tx.witness.map fun witness => executor.address witness.publicKey
  let context := { context with callEnv := { txHash := some tx.txHash } }
  match executor.dispatcher.executeCall context sender tx.tx.call with
  | (context, .error e) => (context, .error e)
  | (context, .ok (.ok result)) =>
      (context.applyTx,
        .ok
          { receipt :=
              { blockNumber := context.env.number
                events := context.events
                result := .ok result }
            txHash := tx.txHash })
  | (context, .ok (.error e)) =>
      (context.dropTx,
        .ok
          { receipt :=
              { blockNumber := context.env.number
                events := []
                result := .error e }
            txHash := tx.txHash })

/-- The loop of `execute_txs`: with the kind of the batch so far, to the
receipts and the kind of the batch. -/
def executeLoop (context : Context) (txsIsMeta : Option Bool) :
    List FullTransaction → Context × Except CommonError (List FullReceipt × Option Bool)
  | [] => (context, .ok ([], txsIsMeta))
  | tx :: txs =>
      match executor.dispatcher.isMeta tx.tx.call.module with
      | .error e => (context, .error e)
      | .ok isMeta =>
          if txsIsMeta.getD isMeta ≠ isMeta then
            (context, .error (.invalidTxs "Mixed meta and payload in one txs batch"))
          else
            match executor.executeTx context tx with
            | (context, .error e) => (context, .error e)
            | (context, .ok receipt) =>
                match executeLoop context (some isMeta) txs with
                | (context, .error e) => (context, .error e)
                | (context, .ok (receipts, txsIsMeta)) =>
                    (context, .ok (receipt :: receipts, txsIsMeta))

/-- The end of `execute_txs`, by the kind of the batch. -/
def closeTxs (context : Context) (txs : List FullTransaction) (receipts : List FullReceipt) :
    Option Bool → Context × Except CommonError Unit
  | some true =>
      if context.payloadPhase then
        (context, .error (.invalidTxs "Meta after payload not allowed"))
      else
        ({ context with
            metaTxs := context.metaTxs ++ txs
            metaReceipts := context.metaReceipts ++ receipts }, .ok ())
  | some false =>
      ({ context with
          payloadPhase := true
          payloadTxs := context.payloadTxs ++ txs
          payloadReceipts := context.payloadReceipts ++ receipts }, .ok ())
  | none => (context, .ok ())

def executeTxs (context : Context) (txs : List FullTransaction) :
    Context × Except CommonError Unit :=
  match executor.executeLoop context none txs with
  | (context, .error e) => (context, .error e)
  | (context, .ok (receipts, txsIsMeta)) => closeTxs context txs receipts txsIsMeta

theorem payloadState_closeTxs (context : Context) (txs : List FullTransaction)
    (receipts : List FullReceipt) (txsIsMeta : Option Bool) :
    (closeTxs context txs receipts txsIsMeta).1.payloadState = context.payloadState := by
  cases txsIsMeta with
  | none => rfl
  | some isMeta =>
      cases isMeta with
      | false => rfl
      | true =>
          rw [closeTxs]
          split
          · rfl
          · rfl

end Executor

end Finastate
