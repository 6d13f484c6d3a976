import Finastate.Executor.Validate

/-!
# What an execution reads of a transaction

The hash of a transaction covers all but its signature, and the executor reads
neither the signature nor anything else that the hash leaves out. So a batch can
be executed from stored transactions, with whatever signatures they have.
-/

namespace Finastate.Executor

/-- What the executor reads of a transaction is covered. -/
def covered (tx : FullTransaction) : TransactionForHash × Hash := (tx.tx.forHash, tx.txHash)

section Executor

variable {executor : Executor} {c : Context}

theorem executeTx_congr {tx tx' : FullTransaction} (h : covered tx = covered tx') :
    executor.executeTx c tx = executor.executeTx c tx' := by
  obtain ⟨hforHash, htxHash⟩ := Prod.mk.inj h
  have hcall : tx.tx.call = tx'.tx.call := congrArg TransactionForHash.call hforHash
  have hsender : ∀ tx : Transaction,
      (tx.witness.map fun witness => executor.address witness.publicKey) =
        tx.forHash.witness.map fun witness => executor.address witness.1 := by
    intro tx
    rw [Transaction.forHash, Option.map_map]
    rfl
  simp only [executeTx, hsender, hforHash, htxHash, hcall]

theorem executeLoop_congr {txs txs' : List FullTransaction} {txsIsMeta : Option Bool}
    (h : txs.map covered = txs'.map covered) :
    executor.executeLoop c txsIsMeta txs = executor.executeLoop c txsIsMeta txs' := by
  induction txs generalizing c txsIsMeta txs' with
  | nil =>
      cases txs' with
      | nil => rfl
      | cons tx' txs' => cases h
  | cons tx txs ih =>
      cases txs' with
      | nil => cases h
      | cons tx' txs' =>
          obtain ⟨hhead, htail⟩ := List.cons.inj h
          have hcall : tx.tx.call = tx'.tx.call :=
            congrArg (fun t : TransactionForHash × Hash => t.1.call) hhead
          simp only [executeLoop, executeTx_congr hhead, hcall, ih htail]

/-- The states, the receipts and the result of a batch do not tell the
signatures. -/
theorem executeTxs_congr {txs txs' : List FullTransaction}
    (h : txs.map covered = txs'.map covered) :
    (executor.executeTxs c txs).2 = (executor.executeTxs c txs').2 ∧
      (executor.executeTxs c txs).1.state = (executor.executeTxs c txs').1.state ∧
      (executor.executeTxs c txs).1.receipts = (executor.executeTxs c txs').1.receipts := by
  simp only [executeTxs, executeLoop_congr h]
  generalize executor.executeLoop c none txs' = out
  obtain ⟨c₁, result⟩ := out
  match result with
  | .error e => exact ⟨rfl, rfl, rfl⟩
  | .ok (receipts, none) => exact ⟨rfl, rfl, rfl⟩
  | .ok (receipts, some false) => exact ⟨rfl, rfl, rfl⟩
  | .ok (receipts, some true) =>
      by_cases hphase : c₁.payloadPhase
      · simp [closeTxs, hphase]
      · simp only [closeTxs, hphase]
        exact ⟨rfl, rfl, rfl⟩

end Executor

end Finastate.Executor
