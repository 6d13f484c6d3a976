import Finastate.Chain.Verify

/-!
# Deferred execution

A committed block leaves an `ExecuteTask` for the payload transactions, which a
single task loop works off later. Before its own number a task catches up with
the numbers after the last executed one, each rebuilt from the database.
-/

namespace Finastate.Chain

open Executor

structure ExecuteTask where
  number : BlockNumber
  timestamp : Nat
  blockHash : Hash
  parentHash : Hash
  metaStateRoot : Hash
  payloadTxs : List FullTransaction
  deriving DecidableEq

/-- The task that `commit_block` of the chain makes of its parameters. -/
def ExecuteTask.ofParams (params : ChainCommitBlockParams) : ExecuteTask where
  number := params.header.number
  timestamp := params.header.timestamp
  blockHash := params.blockHash
  parentHash := params.header.parentHash
  metaStateRoot := params.header.metaStateRoot
  payloadTxs := params.payloadTxs

/-- `ok_or_else` with `ErrorKind::ExecuteQueue`. -/
def orQueue {α : Type} (msg : String) : Option α → Except ErrorKind α
  | some x => .ok x
  | none => .error (.executeQueue msg)

theorem orQueue_eq_ok {α : Type} {msg : String} {o : Option α} {x : α} :
    orQueue msg o = .ok x ↔ o = some x := by
  cases o with
  | none => simp [orQueue]
  | some y => simp [orQueue]

/-- The transactions of the hashes, as the database has them. -/
def loadTxs (db : DB) : List Hash → Except ErrorKind (List FullTransaction)
  | [] => .ok []
  | txHash :: hashes => do
      let tx ← orQueue ("Unable to get transaction: " ++ hexEncode txHash.bytes)
        (db.getTransaction txHash)
      let rest ← loadTxs db hashes
      return { tx, txHash } :: rest

/-- The part of `process_number` that builds the task of a block anew. -/
def rebuildTask (db : DB) (number : BlockNumber) : Except ErrorKind ExecuteTask := do
  let blockHash ← orQueue ("Unable to get block hash: " ++ toString number)
    (db.getBlockHash number)
  let header ← orQueue ("Unable to get block header: " ++ hexEncode blockHash.bytes)
    (db.getHeader blockHash)
  let body ← orQueue ("Unable to get block header: " ++ hexEncode blockHash.bytes)
    (db.getBody blockHash)
  let payloadTxs ← loadTxs db body.payloadTxs
  return {
    number
    timestamp := header.timestamp
    blockHash
    parentHash := header.parentHash
    metaStateRoot := header.metaStateRoot
    payloadTxs }

/-- The task that `process_number` goes on with. -/
def currentTask (db : DB) (number : BlockNumber) (task : Option ExecuteTask) :
    Except ErrorKind ExecuteTask :=
  match task with
  | some task => if task.number = number then .ok task else rebuildTask db number
  | none => rebuildTask db number

/-- The numbers between the last executed one and that of the task. -/
def catchUp (executionNumber number : BlockNumber) : List BlockNumber :=
  List.range' (executionNumber + 1) (number - (executionNumber + 1))

namespace Backend

variable (backend : Backend)

def atBlock (number : BlockNumber) (blockHash : Hash) : String :=
  "block number: " ++ toString number ++ ", block hash: " ++ hexEncode blockHash.bytes

/-- `process_number` from its task to the execution it commits. -/
def executeTask (db : DB) (task : ExecuteTask) : Except ErrorKind ChainCommitExecutionParams := do
  let execution ← orQueue ("Block not execution: " ++ atBlock task.number task.blockHash)
    (db.getExecution task.parentHash)
  (backend.buildExecution db
    { number := task.number
      timestamp := task.timestamp
      blockHash := task.blockHash
      metaStateRoot := task.metaStateRoot
      payloadStateRoot := execution.payloadExecutionStateRoot
      payloadTxs := task.payloadTxs }).mapError fun e =>
    .executeQueueOf ("Build execution error: " ++ atBlock task.number task.blockHash) e

/-- `process_number` up to `commit_execution`. -/
def buildNumber (db : DB) (number : BlockNumber) (task : Option ExecuteTask) :
    Except ErrorKind ChainCommitExecutionParams := do
  let task ← currentTask db number task
  backend.executeTask db task

/-- `process_number`. -/
def processNumber (db : DB) (now : Nat) (number : BlockNumber) (task : Option ExecuteTask) :
    DB × Except ErrorKind Unit :=
  match backend.buildNumber db number task with
  | .error e => (db, .error e)
  | .ok params =>
      let (db, result) := backend.commitExecution db now params
      (db, result.mapError fun e =>
        .executeQueueOf ("Commit execution error: " ++ atBlock params.number params.blockHash) e)

/-- The loop of `process_task`, and after it the number of the task. -/
def processNumbers (now : Nat) (task : ExecuteTask) (db : DB) :
    List BlockNumber → DB × Except ErrorKind Unit
  | [] => backend.processNumber db now task.number (some task)
  | number :: numbers =>
      match backend.processNumber db now number none with
      | (db, .error e) => (db, .error e)
      | (db, .ok _) => processNumbers now task db numbers

/-- `process_task`, with nothing in between. -/
def processTask (db : DB) (now : Nat) (task : ExecuteTask) : DB × Except ErrorKind Unit :=
  match db.executionNumber with
  | none => (db, .error (.executeQueue "Unable to get execution_number"))
  | some executionNumber =>
      backend.processNumbers now task db (catchUp executionNumber task.number)

end Backend

/-! ## What is built for a number -/

/-- The execution that `process_number` commits is that of its task. -/
theorem Backend.executeTask_eq_ok {backend : Backend} {db : DB} {task : ExecuteTask}
    {params : ChainCommitExecutionParams} (h : backend.executeTask db task = .ok params) :
    ∃ execution, db.getExecution task.parentHash = some execution ∧
      backend.buildExecution db
        { number := task.number
          timestamp := task.timestamp
          blockHash := task.blockHash
          metaStateRoot := task.metaStateRoot
          payloadStateRoot := execution.payloadExecutionStateRoot
          payloadTxs := task.payloadTxs } = .ok params := by
  obtain ⟨execution, hexecution, h⟩ := Result.bind_eq_ok.1 h
  refine ⟨execution, orQueue_eq_ok.1 hexecution, ?_⟩
  generalize backend.buildExecution db _ = result at h ⊢
  cases result with
  | error e => cases h
  | ok built => exact h

end Finastate.Chain
