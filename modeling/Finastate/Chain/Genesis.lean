import Finastate.Chain.Backend
import Finastate.Executor.Batch

/-!
# The genesis block

`init_genesis` builds block 0 from the transactions of the spec, executes its
meta and its payload transactions in one context and commits the block with its
execution.
-/

namespace Finastate.Chain

open Executor

namespace Backend

variable (backend : Backend)

/-- `build_genesis`: the transactions of the spec with their hashes, the meta
transactions apart from the others. -/
def buildGenesis : List Transaction →
    Except ErrorKind (List FullTransaction × List FullTransaction)
  | [] => .ok ([], [])
  | tx :: txs =>
      match backend.dispatcher.isMeta tx.call.module with
      | .error e => .error (.executor (.common e))
      | .ok isMeta =>
          match buildGenesis txs with
          | .error e => .error e
          | .ok (metaTxs, payloadTxs) =>
              let fullTx : FullTransaction := { tx, txHash := backend.hashTransaction tx }
              match isMeta with
              | true => .ok (fullTx :: metaTxs, payloadTxs)
              | false => .ok (metaTxs, fullTx :: payloadTxs)

/-- `validate_tx` of one transaction after the other in one context. -/
def validateGenesis (context : Context) : List FullTransaction → Except ErrorKind Context
  | [] => .ok context
  | tx :: txs =>
      match backend.validator.validateTx backend.defaultHash context tx.tx false with
      | (_, .error e) => .error (.executor e)
      | (context, .ok _) => validateGenesis context txs

/-- The header of the genesis block, from the context after its execution. -/
def genesisHeader (timestamp : Nat) (metaStateRoot : Hash) (context : Context) : Header where
  number := 0
  timestamp := timestamp
  parentHash := backend.defaultHash
  metaTxsRoot := backend.getTxsRoot context.metaTxs
  metaStateRoot := metaStateRoot
  metaReceiptsRoot := backend.getReceiptsRoot context.metaReceipts
  payloadTxsRoot := backend.getTxsRoot context.payloadTxs
  payloadExecutionGap := 0
  payloadExecutionStateRoot := backend.defaultHash
  payloadExecutionReceiptsRoot := backend.defaultHash

/-- The genesis block from the context after its execution. -/
def genesisBlock (timestamp : Nat) (context : Context) : ChainCommitBlockParams :=
  let (metaStateRoot, metaTransaction) :=
    prepareUpdate backend.stateRoot .empty context.metaState.buffer
  let header := backend.genesisHeader timestamp metaStateRoot context
  { blockHash := backend.hashHeader header
    header := header
    body :=
      { metaTxs := context.metaTxs.map FullTransaction.txHash
        payloadTxs := context.payloadTxs.map FullTransaction.txHash }
    proof := { name := "", data := [] }
    metaTxs := context.metaTxs
    metaReceipts := context.metaReceipts
    payloadTxs := context.payloadTxs
    metaTransaction := (metaStateRoot, metaTransaction) }

/-- The execution of the genesis block. -/
def genesisExecution (blockHash : Hash) (context : Context) : ChainCommitExecutionParams :=
  let (payloadStateRoot, payloadTransaction) :=
    prepareUpdate backend.stateRoot .empty context.payloadState.buffer
  { blockHash := blockHash
    number := 0
    execution :=
      { payloadExecutionStateRoot := payloadStateRoot
        payloadExecutionReceiptsRoot := backend.getReceiptsRoot context.payloadReceipts }
    payloadReceipts := context.payloadReceipts
    payloadTransaction := (payloadStateRoot, payloadTransaction) }

/-- The context after the genesis transactions. -/
def executeGenesis (txs : List Transaction) (timestamp : Nat) : Except ErrorKind Context := do
  let (metaTxs, payloadTxs) ← backend.buildGenesis txs
  let context : Context := .new { number := 0, timestamp } [] []
  let context ← backend.validateGenesis context metaTxs
  let context ← backend.validateGenesis context payloadTxs
  match backend.executor.executeTxs context metaTxs with
  | (_, .error e) => .error (.executor (.common e))
  | (context, .ok _) =>
      match backend.executor.executeTxs context payloadTxs with
      | (_, .error e) => .error (.executor (.common e))
      | (context, .ok _) => .ok context

/-- The database with the genesis block and its execution. -/
def genesisDB (timestamp : Nat) (context : Context) : DB :=
  let block := backend.genesisBlock timestamp context
  (DB.empty.commitBlock block).commitExecution
    (backend.genesisExecution block.blockHash context)

/-- `init_genesis`. -/
def initGenesis (txs : List Transaction) (timestamp : Nat) : Except ErrorKind DB :=
  (backend.executeGenesis txs timestamp).map (backend.genesisDB timestamp)

end Backend

/-! A small chain. The calls of the module `system` write the five values of
its meta, those of `entries` put, remove or fail as in the batch of the
executor. Hashes and roots are encodings, a state root one that can be read
back. -/

namespace Sample

def systemKey (field : String) : DBKey := asBytes "system" ++ SEPARATOR ++ asBytes field

/-- `init` of the system module. -/
def systemInit : Program (Except CommonError OpaqueCallResult) :=
  .set (systemKey "chain_id") (some (Codec.encodeBytes [])) <|
    .set (systemKey "timestamp") (some (Codec.encodeU64 0)) <|
      .set (systemKey "max_until_gap") (some (Codec.encodeU64 20)) <|
        .set (systemKey "max_execution_gap") (some [8]) <|
          .set (systemKey "consensus") (some (Codec.encodeBytes [])) <|
            .done (.ok (.ok []))

def modules : Modules where
  isMeta := fun
    | "system" => .ok true
    | "entries" => .ok false
    | other => .error (.invalidTxModule other)
  validateCall := fun _ _ => .done (.ok (.ok ()))
  isWriteCall := fun _ => .ok true
  executeCall := fun sender call =>
    match call.module with
    | "system" => systemInit
    | _ => Executor.Sample.entries.executeCall sender call

/-- Each byte with a mark in front, and a mark at the end. -/
def markBytes (bytes : Bytes) : Bytes := bytes.flatMap (fun b => [1, b]) ++ [0]

def stateRoot (m : StateMap) : Hash :=
  ⟨m.entries.flatMap fun entry => markBytes entry.1 ++ markBytes entry.2⟩

def markNat (n : Nat) : Bytes := markBytes (List.replicate n 0)

def markWitness : Option (PublicKey × Nat × BlockNumber) → Bytes
  | none => []
  | some (publicKey, nonce, untilNumber) =>
      markBytes publicKey.bytes ++ (markNat nonce ++ markNat untilNumber)

def hashForHash (tx : TransactionForHash) : Hash :=
  ⟨markBytes (asBytes tx.call.module) ++ (markBytes (asBytes tx.call.method) ++
    (markBytes tx.call.params ++ markWitness tx.witness))⟩

def backend : Backend where
  dispatcher := modules.dispatcher
  modular := modules.modular
  validator := modules.validator Executor.Sample.address fun _ _ _ => .ok true
  validates := modules.validator_modular _ _
  hashHeader := fun header =>
    ⟨UInt8.ofNat header.number :: header.metaTxsRoot.bytes ++ header.payloadTxsRoot.bytes⟩
  hashForHash := hashForHash
  txsRoot := fun txs => ⟨txs.flatMap fun tx => (hashForHash tx).bytes⟩
  receiptsRoot := fun receipts => ⟨[UInt8.ofNat receipts.length]⟩
  stateRoot := stateRoot
  defaultHash := ⟨[2]⟩

/-- The genesis transaction of the system module. -/
def systemTx : Transaction where
  witness := none
  call := { module := "system", method := "init", params := [] }

/-- A transaction of the module `entries`. -/
def entryTx (method : String) (key value : UInt8) : Transaction where
  witness := some { publicKey := ⟨[7]⟩, signature := ⟨[]⟩, nonce := 0, untilNumber := 5 }
  call := { module := "entries", method, params := [key, value] }

def genesisContext : Context :=
  Result.get (backend.executeGenesis [systemTx] 0) (by decide +kernel)

/-- The database after the genesis. -/
def genesis : DB := backend.genesisDB 0 genesisContext

/-- The state of a node that has committed nothing after the genesis. -/
def state : CurrentState :=
  Result.get (backend.updateCurrentState genesis 0) (by decide +kernel)

theorem markBytes_append_inj {a b x y : Bytes} (h : markBytes a ++ x = markBytes b ++ y) :
    a = b ∧ x = y := by
  induction a generalizing b with
  | nil =>
      cases b with
      | nil => exact ⟨rfl, (List.cons.inj h).2⟩
      | cons c b => cases (List.cons.inj h).1
  | cons d a ih =>
      cases b with
      | nil => cases (List.cons.inj h).1
      | cons c b =>
          obtain ⟨rfl, htail⟩ := List.cons.inj (List.cons.inj h).2
          obtain ⟨rfl, hxy⟩ := ih htail
          exact ⟨rfl, hxy⟩

theorem markNat_append_inj {m n : ℕ} {x y : Bytes} (h : markNat m ++ x = markNat n ++ y) :
    m = n ∧ x = y := by
  obtain ⟨hlist, hxy⟩ := markBytes_append_inj h
  exact ⟨by simpa using congrArg List.length hlist, hxy⟩

theorem markWitness_injective : Function.Injective markWitness := by
  have hne : ∀ (publicKey : PublicKey) (nonce untilNumber : ℕ),
      markWitness (some (publicKey, nonce, untilNumber)) ≠ [] := by
    intro publicKey nonce untilNumber
    simp [markWitness, markBytes]
  rintro (_ | ⟨⟨k⟩, n, u⟩) (_ | ⟨⟨k'⟩, n', u'⟩) h
  · rfl
  · exact absurd h.symm (hne _ _ _)
  · exact absurd h (hne _ _ _)
  · obtain ⟨hkey, h⟩ := markBytes_append_inj h
    obtain ⟨rfl, h⟩ := markNat_append_inj h
    obtain ⟨rfl, -⟩ : u = u' ∧ _ := markNat_append_inj (x := []) (y := []) (by simpa using h)
    simp only at hkey
    rw [hkey]

theorem hashForHash_injective : Function.Injective hashForHash := by
  rintro ⟨w, ⟨m, f, p⟩⟩ ⟨w', ⟨m', f', p'⟩⟩ h
  obtain ⟨hmodule, h⟩ := markBytes_append_inj (Hash.mk.inj h)
  obtain ⟨hmethod, h⟩ := markBytes_append_inj h
  obtain ⟨hparams, hwitness⟩ := markBytes_append_inj h
  obtain rfl := asBytes_injective hmodule
  obtain rfl := asBytes_injective hmethod
  obtain rfl := markWitness_injective hwitness
  simp only at hparams
  rw [hparams]

theorem stateRoot_injective : Function.Injective stateRoot := by
  have hentries : ∀ l l' : List (DBKey × DBValue),
      (l.flatMap fun entry => markBytes entry.1 ++ markBytes entry.2) =
        (l'.flatMap fun entry => markBytes entry.1 ++ markBytes entry.2) → l = l' := by
    intro l
    induction l with
    | nil =>
        intro l' h
        cases l' with
        | nil => rfl
        | cons e l' => simp [markBytes] at h
    | cons e l ih =>
        intro l' h
        cases l' with
        | nil => simp [markBytes] at h
        | cons e' l' =>
            simp only [List.flatMap_cons, List.append_assoc] at h
            obtain ⟨hkey, h⟩ := markBytes_append_inj h
            obtain ⟨hvalue, h⟩ := markBytes_append_inj h
            rw [ih l' h, Prod.ext hkey hvalue]
  rintro ⟨l, hl⟩ ⟨l', hl'⟩ h
  obtain rfl := hentries l l' (Hash.mk.inj h)
  rfl

end Sample

end Finastate.Chain
