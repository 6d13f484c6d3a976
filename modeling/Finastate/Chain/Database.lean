import Finastate.Executor.State

/-!
# The database of the chain

`DB` has the columns of the database that the backend works on. What a
`DBTransaction` collects is written at once, so the builders `commitBlock` and
`commitExecution` are functions on the database. A state column keeps tries
under their roots, and nothing is ever deleted from it.
-/

namespace Finastate.Chain

open Executor

structure Execution where
  payloadExecutionStateRoot : Hash
  payloadExecutionReceiptsRoot : Hash
  deriving DecidableEq, Repr

/-- `CommitBlockParams<DBTransaction>`; the transaction of the meta state is
the new trie with its root. -/
structure ChainCommitBlockParams extends CommitBlockParams where
  metaTxs : List FullTransaction
  metaReceipts : List FullReceipt
  payloadTxs : List FullTransaction
  metaTransaction : Hash × StateMap

/-- `CommitExecutionParams<DBTransaction>`. -/
structure ChainCommitExecutionParams where
  blockHash : Hash
  number : BlockNumber
  execution : Execution
  payloadReceipts : List FullReceipt
  payloadTransaction : Hash × StateMap

structure Block where
  header : Header
  body : Body
  deriving DecidableEq, Repr

structure DB where
  confirmedNumber : Option BlockNumber
  executionNumber : Option BlockNumber
  blockHash : List (BlockNumber × Hash)
  header : List (Hash × Header)
  metaTxs : List (Hash × List Hash)
  payloadTxs : List (Hash × List Hash)
  tx : List (Hash × Transaction)
  receipt : List (Hash × Receipt)
  execution : List (Hash × Execution)
  proof : List (Hash × Proof)
  metaState : List (Hash × StateMap)
  payloadState : List (Hash × StateMap)

namespace DB

def empty : DB where
  confirmedNumber := none
  executionNumber := none
  blockHash := []
  header := []
  metaTxs := []
  payloadTxs := []
  tx := []
  receipt := []
  execution := []
  proof := []
  metaState := []
  payloadState := []

variable (db : DB)

def getBlockHash (number : BlockNumber) : Option Hash := AssocMap.get? db.blockHash number

def getHeader (blockHash : Hash) : Option Header := AssocMap.get? db.header blockHash

def getBody (blockHash : Hash) : Option Body := do
  let metaTxs ← AssocMap.get? db.metaTxs blockHash
  let payloadTxs ← AssocMap.get? db.payloadTxs blockHash
  return { metaTxs, payloadTxs }

def getExecution (blockHash : Hash) : Option Execution := AssocMap.get? db.execution blockHash

def getProof (blockHash : Hash) : Option Proof := AssocMap.get? db.proof blockHash

def getTransaction (txHash : Hash) : Option Transaction := AssocMap.get? db.tx txHash

/-- Put the transactions into their column. -/
def putTxs (txs : List FullTransaction) (column : List (Hash × Transaction)) :
    List (Hash × Transaction) :=
  txs.foldl (fun column tx => AssocMap.insert column tx.txHash tx.tx) column

/-- Put the receipts into their column. -/
def putReceipts (receipts : List FullReceipt) (column : List (Hash × Receipt)) :
    List (Hash × Receipt) :=
  receipts.foldl (fun column receipt => AssocMap.insert column receipt.txHash receipt.receipt)
    column

/-- The transaction builder `commit_block`, written. -/
def commitBlock (params : ChainCommitBlockParams) : DB :=
  { db with
    metaState :=
      AssocMap.insert db.metaState params.metaTransaction.1 params.metaTransaction.2
    header := AssocMap.insert db.header params.blockHash params.header
    metaTxs := AssocMap.insert db.metaTxs params.blockHash params.body.metaTxs
    payloadTxs := AssocMap.insert db.payloadTxs params.blockHash params.body.payloadTxs
    tx := putTxs params.payloadTxs (putTxs params.metaTxs db.tx)
    receipt := putReceipts params.metaReceipts db.receipt
    proof := AssocMap.insert db.proof params.blockHash params.proof
    blockHash := AssocMap.insert db.blockHash params.header.number params.blockHash
    confirmedNumber := some params.header.number }

/-- The transaction builder `commit_execution`, written. -/
def commitExecution (params : ChainCommitExecutionParams) : DB :=
  { db with
    payloadState :=
      AssocMap.insert db.payloadState params.payloadTransaction.1 params.payloadTransaction.2
    execution := AssocMap.insert db.execution params.blockHash params.execution
    receipt := putReceipts params.payloadReceipts db.receipt
    executionNumber := some params.number }

theorem get?_putTxs_of_not_mem {txs : List FullTransaction} {column : List (Hash × Transaction)}
    {txHash : Hash} (h : txHash ∉ txs.map FullTransaction.txHash) :
    AssocMap.get? (putTxs txs column) txHash = AssocMap.get? column txHash := by
  induction txs generalizing column with
  | nil => rfl
  | cons tx txs ih =>
      obtain ⟨hhead, htail⟩ := not_or.1 fun hor => h (List.mem_cons.2 hor)
      have hfold : putTxs (tx :: txs) column =
          putTxs txs (AssocMap.insert column tx.txHash tx.tx) := rfl
      rw [hfold, ih htail, AssocMap.get?_insert, if_neg hhead]

/-- A transaction of the list is stored afterwards, under its hash one of those
with this hash. -/
theorem get?_putTxs_of_mem {txs : List FullTransaction} {column : List (Hash × Transaction)}
    {txHash : Hash} (h : txHash ∈ txs.map FullTransaction.txHash) :
    ∃ tx ∈ txs, tx.txHash = txHash ∧
      AssocMap.get? (putTxs txs column) txHash = some tx.tx := by
  induction txs generalizing column with
  | nil => cases h
  | cons tx txs ih =>
      have hfold : putTxs (tx :: txs) column =
          putTxs txs (AssocMap.insert column tx.txHash tx.tx) := rfl
      by_cases htail : txHash ∈ txs.map FullTransaction.txHash
      · obtain ⟨tx', hmem, heq, hget⟩ := ih htail
        exact ⟨tx', List.mem_cons_of_mem _ hmem, heq, hget⟩
      · have hhead : txHash = tx.txHash := (List.mem_cons.1 h).resolve_right htail
        refine ⟨tx, List.mem_cons_self, hhead.symm, ?_⟩
        rw [hfold, get?_putTxs_of_not_mem htail, hhead, AssocMap.get?_insert_self]

/-- Stored transactions stay stored. -/
theorem isSome_putTxs {txs : List FullTransaction} {column : List (Hash × Transaction)}
    {txHash : Hash} (h : (AssocMap.get? column txHash).isSome) :
    (AssocMap.get? (putTxs txs column) txHash).isSome := by
  by_cases hmem : txHash ∈ txs.map FullTransaction.txHash
  · obtain ⟨tx, -, -, hget⟩ : ∃ tx ∈ txs, tx.txHash = txHash ∧
        AssocMap.get? (putTxs txs column) txHash = some tx.tx := get?_putTxs_of_mem hmem
    simp [hget]
  · rwa [get?_putTxs_of_not_mem hmem]

end DB

end Finastate.Chain
