import Finastate.Library.Result
import Finastate.Chain.Errors
import Finastate.Chain.Database

/-!
# The backend

`Backend` builds blocks and executions on the states in the database, commits
them and validates transactions against the current state. A block is built
and committed in two calls, and all that `commit_block` looks at is whether the
block is new and follows the confirmed one.
-/

namespace Finastate.Chain

open Executor

/-- `system::Meta`. -/
structure Meta where
  chainId : String
  timestamp : Nat
  maxUntilGap : BlockNumber
  maxExecutionGap : Int
  consensus : String
  deriving DecidableEq, Repr

/-- `i8`. -/
def decodeI8 : Codec.Decoder Int
  | [] => none
  | b :: rest => some (Int.bmod b.toNat (2 ^ 8), rest)

/-- A value of the system module, which has to be there. -/
def metaValue {V : Type} (decode : Codec.Decoder V) (metaState : StateMap) (field : String) :
    Except ErrorKind V :=
  match metaState.get (asBytes "system" ++ SEPARATOR ++ asBytes field) with
  | none => .error (.call "Unexpected none")
  | some value =>
      match decode value with
      | none => .error (.executor (.common .codec))
      | some (value, _) => .ok value

/-- `get_meta` of the system module. -/
def getMeta (metaState : StateMap) : Except ErrorKind Meta := do
  let chainId ← metaValue Codec.decodeString metaState "chain_id"
  let timestamp ← metaValue Codec.decodeU64 metaState "timestamp"
  let maxUntilGap ← metaValue Codec.decodeU64 metaState "max_until_gap"
  let maxExecutionGap ← metaValue decodeI8 metaState "max_execution_gap"
  let consensus ← metaValue Codec.decodeString metaState "consensus"
  return { chainId, timestamp, maxUntilGap, maxExecutionGap, consensus }

structure ContextEssence where
  env : ContextEnv
  metaState : StateMap
  payloadState : StateMap

def ContextEssence.context (essence : ContextEssence) : Context :=
  .new essence.env essence.metaState.entries essence.payloadState.entries

structure CurrentState where
  genesisHash : Hash
  contextEssence : ContextEssence
  systemMeta : Meta
  confirmedNumber : BlockNumber
  confirmedBlockHash : Hash
  executedNumber : BlockNumber
  executedBlockHash : Hash

structure BuildExecutionParams where
  number : BlockNumber
  timestamp : Nat
  blockHash : Hash
  metaStateRoot : Hash
  payloadStateRoot : Hash
  payloadTxs : List FullTransaction

/-- What a backend is given: the modules, and the algorithms of the chain. The
roots are those of tries over the encoded items, and `defaultHash`, of zeros
only, is the root of the empty state. -/
structure Backend where
  dispatcher : Dispatcher
  modular : dispatcher.Modular
  validator : Validator
  validates : validator.Modular
  hashHeader : Header → Hash
  hashForHash : TransactionForHash → Hash
  txsRoot : List TransactionForHash → Hash
  receiptsRoot : List Receipt → Hash
  stateRoot : StateMap → Hash
  defaultHash : Hash

namespace Backend

variable (backend : Backend)

def executor : Executor where
  dispatcher := backend.dispatcher
  address := backend.validator.address

def hashTransaction (tx : Transaction) : Hash := backend.hashForHash tx.forHash

/-- `get_txs_root`. -/
def getTxsRoot (txs : List FullTransaction) : Hash :=
  backend.txsRoot (txs.map fun tx => tx.tx.forHash)

def getReceiptsRoot (receipts : List FullReceipt) : Hash :=
  backend.receiptsRoot (receipts.map FullReceipt.receipt)

/-- `prepare_stmt` and `prepare_get`. -/
def prepareGet (column : List (Hash × StateMap)) (root : Hash) : Except ErrorKind StateMap :=
  if root = backend.defaultHash then .ok .empty
  else
    match AssocMap.get? column root with
    | some state => .ok state
    | none => .error (.invalidStateRoot root)

/-- `ContextEssence::new`, with the states that `Context::new` opens. -/
def contextEssence (db : DB) (env : ContextEnv) (metaStateRoot payloadStateRoot : Hash) :
    Except ErrorKind ContextEssence := do
  let metaState ← backend.prepareGet db.metaState metaStateRoot
  let payloadState ← backend.prepareGet db.payloadState payloadStateRoot
  return { env, metaState, payloadState }

/-- `payload_execution_gap`: the difference cut to an `i8`. -/
def executionGap (number executionNumber : BlockNumber) : Int :=
  Int.bmod (wrapSub 64 number executionNumber) (2 ^ 8)

/-- `build_block` after it has found the parent, the execution and the states:
only the meta transactions are executed. -/
def buildOn (parentHash : Hash) (execution : Execution) (essence : ContextEssence)
    (params : BuildBlockParams) : Except ErrorKind ChainCommitBlockParams :=
  match backend.executor.executeTxs essence.context params.metaTxs with
  | (_, .error e) => .error (.executor (.common e))
  | (context, .ok _) =>
      let (metaStateRoot, metaTransaction) :=
        prepareUpdate backend.stateRoot essence.metaState context.metaState.buffer
      let header : Header :=
        { number := params.number
          timestamp := params.timestamp
          parentHash := parentHash
          metaTxsRoot := backend.getTxsRoot context.metaTxs
          metaStateRoot := metaStateRoot
          metaReceiptsRoot := backend.getReceiptsRoot context.metaReceipts
          payloadTxsRoot := backend.getTxsRoot params.payloadTxs
          payloadExecutionGap := executionGap params.number params.executionNumber
          payloadExecutionStateRoot := execution.payloadExecutionStateRoot
          payloadExecutionReceiptsRoot := execution.payloadExecutionReceiptsRoot }
      .ok
        { blockHash := backend.hashHeader header
          header := header
          body :=
            { metaTxs := context.metaTxs.map FullTransaction.txHash
              payloadTxs := params.payloadTxs.map FullTransaction.txHash }
          proof := { name := "", data := [] }
          metaTxs := context.metaTxs
          metaReceipts := context.metaReceipts
          payloadTxs := params.payloadTxs
          metaTransaction := (metaStateRoot, metaTransaction) }

def buildBlock (db : DB) (params : BuildBlockParams) :
    Except ErrorKind ChainCommitBlockParams := do
  let parentNumber := wrapSub 64 params.number 1
  let parentHash ← orData (noNumber parentNumber) (db.getBlockHash parentNumber)
  let parentHeader ← orData (noHash parentHash) (db.getHeader parentHash)
  let executionBlockHash ←
    orData (noNumber params.executionNumber) (db.getBlockHash params.executionNumber)
  let execution ← orData (notExecution executionBlockHash) (db.getExecution executionBlockHash)
  let env : ContextEnv := { number := params.number, timestamp := params.timestamp }
  let essence ← backend.contextEssence db env parentHeader.metaStateRoot
    execution.payloadExecutionStateRoot
  backend.buildOn parentHash execution essence params

/-- `update_current_state`, at the time `now`. -/
def updateCurrentState (db : DB) (now : Nat) : Except ErrorKind CurrentState := do
  let confirmedNumber ← orData "Confirmed number not found" db.confirmedNumber
  let confirmedBlockHash ←
    orData (noNumber confirmedNumber) (db.getBlockHash confirmedNumber)
  let header ← orData ("Invalid block hash: " ++ toString confirmedNumber)
    (db.getHeader confirmedBlockHash)
  let executedNumber ← orData "Executed number not found" db.executionNumber
  let executedBlockHash ← orData (noNumber executedNumber) (db.getBlockHash executedNumber)
  let execution ← orData ("Not executed block hash: " ++ hexEncode executedBlockHash.bytes)
    (db.getExecution executedBlockHash)
  let env : ContextEnv := { number := confirmedNumber + 1, timestamp := now }
  let contextEssence ← backend.contextEssence db env header.metaStateRoot
    execution.payloadExecutionStateRoot
  let systemMeta ← getMeta contextEssence.metaState
  let genesisHash ← orData "Missing genesis block" (db.getBlockHash 0)
  return { genesisHash, contextEssence, systemMeta, confirmedNumber, confirmedBlockHash,
           executedNumber, executedBlockHash }

/-- `commit_block`: the database afterwards, and what is returned. -/
def commitBlock (db : DB) (now : Nat) (params : ChainCommitBlockParams) :
    DB × Except ErrorKind Unit :=
  if (db.getHeader params.blockHash).isSome then
    (db, .error (.commitBlockError .duplicated))
  else
    match db.confirmedNumber with
    | none => (db, .error (.data "Confirmed number not found"))
    | some confirmedNumber =>
        match db.getBlockHash confirmedNumber with
        | none => (db, .error (.data (noNumber confirmedNumber)))
        | some confirmedHash =>
            if params.header.number = confirmedNumber + 1 ∧
                params.header.parentHash = confirmedHash then
              (db.commitBlock params,
                (backend.updateCurrentState (db.commitBlock params) now).map fun _ => ())
            else (db, .error (.commitBlockError .notBest))

/-- `build_execution` after it has opened the states. -/
def executeOn (essence : ContextEssence) (params : BuildExecutionParams) :
    Except ErrorKind ChainCommitExecutionParams :=
  match backend.executor.executeTxs essence.context params.payloadTxs with
  | (_, .error e) => .error (.executor (.common e))
  | (context, .ok _) =>
      let (payloadStateRoot, payloadTransaction) :=
        prepareUpdate backend.stateRoot essence.payloadState context.payloadState.buffer
      .ok
        { blockHash := params.blockHash
          number := params.number
          execution :=
            { payloadExecutionStateRoot := payloadStateRoot
              payloadExecutionReceiptsRoot := backend.getReceiptsRoot context.payloadReceipts }
          payloadReceipts := context.payloadReceipts
          payloadTransaction := (payloadStateRoot, payloadTransaction) }

def buildExecution (db : DB) (params : BuildExecutionParams) :
    Except ErrorKind ChainCommitExecutionParams := do
  let env : ContextEnv := { number := params.number, timestamp := params.timestamp }
  let essence ← backend.contextEssence db env params.metaStateRoot params.payloadStateRoot
  backend.executeOn essence params

def commitExecution (db : DB) (now : Nat) (params : ChainCommitExecutionParams) :
    DB × Except ErrorKind Unit :=
  (db.commitExecution params,
    (backend.updateCurrentState (db.commitExecution params) now).map fun _ => ())

/-- The errors of the executor that are errors of a transaction. -/
def validateTxError : TxError → ErrorKind
  | .invalidTxWitness msg => .validateTxError (.invalidTxWitness msg)
  | .common (.invalidTxModule msg) => .validateTxError (.invalidTxModule msg)
  | .common (.invalidTxMethod msg) => .validateTxError (.invalidTxMethod msg)
  | .common (.invalidTxParams msg) => .validateTxError (.invalidTxParams msg)
  | .application msg => .validateTxError (.application msg)
  | e => .executor e

/-- The window of `until`. -/
def validateUntil (state : CurrentState) (tx : Transaction) : Except ErrorKind Unit :=
  match tx.witness with
  | none => .ok ()
  | some witness =>
      if wrapAdd 64 state.confirmedNumber state.systemMeta.maxUntilGap < witness.untilNumber then
        .error (.validateTxError (.invalidTxUntil
          ("Exceed max until: " ++ toString witness.untilNumber)))
      else if witness.untilNumber ≤ state.confirmedNumber then
        .error (.validateTxError (.invalidTxUntil
          ("Exceed min until: " ++ toString witness.untilNumber)))
      else .ok ()

def validateTransaction (db : DB) (state : CurrentState) (txHash : Hash) (tx : Transaction)
    (witnessRequired : Bool) : Except ErrorKind Unit := do
  validateUntil state tx
  if (db.getTransaction txHash).isSome then
    .error (.validateTxError (.duplicatedTx (hexEncode txHash.bytes)))
  else
    (backend.validator.validateTx state.genesisHash state.contextEssence.context tx
      witnessRequired).2.mapError validateTxError

/-! ## What the builders return -/

/-- What `build_block` finds before it executes anything. -/
structure Found (backend : Backend) (db : DB) (params : BuildBlockParams) (parentHash : Hash)
    (parentHeader : Header) (execution : Execution) (essence : ContextEssence) : Prop where
  getParentHash : db.getBlockHash (wrapSub 64 params.number 1) = some parentHash
  getParentHeader : db.getHeader parentHash = some parentHeader
  getExecution : ∃ executionBlockHash, db.getBlockHash params.executionNumber =
    some executionBlockHash ∧ db.getExecution executionBlockHash = some execution
  env : essence.env = { number := params.number, timestamp := params.timestamp }
  metaState : backend.prepareGet db.metaState parentHeader.metaStateRoot = .ok essence.metaState
  payloadState : backend.prepareGet db.payloadState execution.payloadExecutionStateRoot =
    .ok essence.payloadState

theorem contextEssence_eq_ok {backend : Backend} {db : DB} {env : ContextEnv}
    {metaStateRoot payloadStateRoot : Hash} {essence : ContextEssence}
    (h : backend.contextEssence db env metaStateRoot payloadStateRoot = .ok essence) :
    essence.env = env ∧ backend.prepareGet db.metaState metaStateRoot = .ok essence.metaState ∧
      backend.prepareGet db.payloadState payloadStateRoot = .ok essence.payloadState := by
  obtain ⟨metaState, hmeta, h⟩ := Result.bind_eq_ok.1 h
  obtain ⟨payloadState, hpayload, h⟩ := Result.bind_eq_ok.1 h
  cases h
  exact ⟨rfl, hmeta, hpayload⟩

theorem contextEssence_of_prepareGet {backend : Backend} {db : DB} {metaStateRoot payloadStateRoot : Hash}
    {essence : ContextEssence}
    (hmeta : backend.prepareGet db.metaState metaStateRoot = .ok essence.metaState)
    (hpayload : backend.prepareGet db.payloadState payloadStateRoot = .ok essence.payloadState) :
    backend.contextEssence db essence.env metaStateRoot payloadStateRoot = .ok essence := by
  rw [contextEssence, hmeta, hpayload]
  rfl

theorem buildBlock_eq_ok {backend : Backend} {db : DB} {params : BuildBlockParams}
    {built : ChainCommitBlockParams} (h : backend.buildBlock db params = .ok built) :
    ∃ parentHash parentHeader execution essence,
      backend.Found db params parentHash parentHeader execution essence ∧
        backend.buildOn parentHash execution essence params = .ok built := by
  obtain ⟨parentHash, hparentHash, h⟩ := Result.bind_eq_ok.1 h
  obtain ⟨parentHeader, hparentHeader, h⟩ := Result.bind_eq_ok.1 h
  obtain ⟨executionBlockHash, hexecutionHash, h⟩ := Result.bind_eq_ok.1 h
  obtain ⟨execution, hexecution, h⟩ := Result.bind_eq_ok.1 h
  obtain ⟨essence, hessence, h⟩ := Result.bind_eq_ok.1 h
  rw [orData_eq_ok] at hparentHash hparentHeader hexecutionHash hexecution
  obtain ⟨henv, hmeta, hpayload⟩ := contextEssence_eq_ok hessence
  exact ⟨parentHash, parentHeader, execution, essence,
    ⟨hparentHash, hparentHeader, ⟨_, hexecutionHash, hexecution⟩, henv, hmeta, hpayload⟩, h⟩

/-- The block that `build_block` makes of the context after the execution. -/
theorem buildOn_eq_ok {backend : Backend} {parentHash : Hash} {execution : Execution}
    {essence : ContextEssence} {params : BuildBlockParams} {built : ChainCommitBlockParams}
    (h : backend.buildOn parentHash execution essence params = .ok built) :
    ∃ context, backend.executor.executeTxs essence.context params.metaTxs = (context, .ok ()) ∧
      built.blockHash = backend.hashHeader built.header ∧
      built.header =
        { number := params.number
          timestamp := params.timestamp
          parentHash := parentHash
          metaTxsRoot := backend.getTxsRoot context.metaTxs
          metaStateRoot :=
            backend.stateRoot (essence.metaState.update context.metaState.buffer)
          metaReceiptsRoot := backend.getReceiptsRoot context.metaReceipts
          payloadTxsRoot := backend.getTxsRoot params.payloadTxs
          payloadExecutionGap := executionGap params.number params.executionNumber
          payloadExecutionStateRoot := execution.payloadExecutionStateRoot
          payloadExecutionReceiptsRoot := execution.payloadExecutionReceiptsRoot } ∧
      built.body =
        { metaTxs := context.metaTxs.map FullTransaction.txHash
          payloadTxs := params.payloadTxs.map FullTransaction.txHash } ∧
      built.metaTxs = context.metaTxs ∧ built.metaReceipts = context.metaReceipts ∧
      built.payloadTxs = params.payloadTxs ∧
      built.metaTransaction =
        (built.header.metaStateRoot, essence.metaState.update context.metaState.buffer) := by
  unfold buildOn at h
  generalize hexecute : backend.executor.executeTxs essence.context params.metaTxs = out at h
  obtain ⟨context, result⟩ := out
  cases result with
  | error e => cases h
  | ok u =>
      cases h
      exact ⟨context, rfl, rfl, rfl, rfl, rfl, rfl, rfl, rfl⟩

/-- The execution that `build_execution` makes of the context after the
payload transactions. -/
theorem executeOn_eq_ok {backend : Backend} {essence : ContextEssence}
    {params : BuildExecutionParams} {built : ChainCommitExecutionParams}
    (h : backend.executeOn essence params = .ok built) :
    ∃ context, backend.executor.executeTxs essence.context params.payloadTxs = (context, .ok ()) ∧
      built.blockHash = params.blockHash ∧ built.number = params.number ∧
      built.execution =
        { payloadExecutionStateRoot :=
            backend.stateRoot (essence.payloadState.update context.payloadState.buffer)
          payloadExecutionReceiptsRoot := backend.getReceiptsRoot context.payloadReceipts } ∧
      built.payloadTransaction =
        (built.execution.payloadExecutionStateRoot,
          essence.payloadState.update context.payloadState.buffer) := by
  unfold executeOn at h
  generalize hexecute : backend.executor.executeTxs essence.context params.payloadTxs = out at h
  obtain ⟨context, result⟩ := out
  cases result with
  | error e => cases h
  | ok u =>
      cases h
      exact ⟨context, rfl, rfl, rfl, rfl, rfl⟩

theorem buildExecution_eq_ok {backend : Backend} {db : DB} {params : BuildExecutionParams}
    {built : ChainCommitExecutionParams} (h : backend.buildExecution db params = .ok built) :
    ∃ essence : ContextEssence,
      essence.env = { number := params.number, timestamp := params.timestamp } ∧
      backend.prepareGet db.metaState params.metaStateRoot = .ok essence.metaState ∧
      backend.prepareGet db.payloadState params.payloadStateRoot = .ok essence.payloadState ∧
      backend.executeOn essence params = .ok built := by
  obtain ⟨essence, hessence, h⟩ := Result.bind_eq_ok.1 h
  obtain ⟨henv, hmeta, hpayload⟩ := contextEssence_eq_ok hessence
  exact ⟨essence, henv, hmeta, hpayload, h⟩

end Backend

end Finastate.Chain
