import Finastate.Chain.Lag
import Finastate.Contract.Faults

/-!
# Blocks that cannot be executed

Verification looks at the transactions of a block one by one and executes the
meta list. It neither asks whether the payload list is of one kind nor runs its
calls, so a block can be accepted whose execution fails. `Reaches` is where the
execution of a batch gets to, and a batch fails by two kinds of modules in it or
by a call that fails with a system error where it gets to.
-/

namespace Finastate

open Executor Contract

namespace Executor

variable (executor : Executor)

/-- The address that signs a transaction. -/
def sender (tx : FullTransaction) : Option Address :=
  tx.tx.witness.map fun witness => executor.address witness.publicKey

/-- The transactions of a batch that get their turn, each with the context its
call finds. -/
inductive Reaches : Context → List FullTransaction → Context → FullTransaction → Prop
  | here {context : Context} {tx : FullTransaction} {txs : List FullTransaction} :
      Reaches context (tx :: txs) { context with callEnv := { txHash := some tx.txHash } } tx
  | later {context context' c : Context} {tx tx' : FullTransaction} {txs : List FullTransaction}
      {receipt : FullReceipt} (htx : executor.executeTx context tx = (context', .ok receipt))
      (h : Reaches context' txs c tx') : Reaches context (tx :: txs) c tx'

variable {executor}

end Executor

namespace Contract.Library

variable (lib : Library)

end Contract.Library

namespace Chain

/-! ## Verified blocks -/

section Prepares

variable {backend : Backend} {P Q : DB → CurrentState → Prepared → Prop}
  {txs : List Transaction} {timestamp : Nat} {node node' : Node}

theorem Step.mono (hmono : ∀ db state p, P db state p → Q db state p)
    (h : Step backend P node node') : Step backend Q node node' := by
  cases h with
  | prepare h => exact .prepare (hmono _ _ _ h)
  | commit now hp => exact .commit now hp
  | insert h => exact .insert h
  | lose task => exact .lose task
  | take hidle hqueue h => exact .take hidle hqueue h
  | build hwork hbuilt h => exact .build hwork hbuilt h
  | store hwork hbuilt => exact .store hwork hbuilt
  | fail => exact .fail
  | refresh h => exact .refresh h
  | restart h => exact .restart h

theorem Reach.mono (hmono : ∀ db state p, P db state p → Q db state p)
    (h : Reach backend P txs timestamp node) : Reach backend Q txs timestamp node := by
  induction h with
  | genesis hspec hexecute h => exact .genesis hspec hexecute h
  | step hreach h ih => exact ih.step (h.mono hmono)

end Prepares

/-! ## The execution of a block of the chain -/

section Blocks

variable {backend : Backend} {txs : List Transaction} {timestamp : Nat} {node : Node} {k : ℕ}
  {p q : Prepared} {execution : Execution}

/-- Built anew or from the commit, the task of a number is that of its block. -/
theorem Reach.buildNumber_eq (hfree : backend.CollisionFree)
    (h : Reach backend backend.Builds txs timestamp node) (hp : node.chain[k + 1]? = some p)
    {task : Option ExecuteTask} (htask : task = none ∨ task = some (.ofParams p.params)) :
    backend.buildNumber node.db (k + 1) task =
      backend.executeTask node.db (.ofParams p.params) := by
  have hchain := h.chained
  have hstored := h.stored fun _ _ _ hbuilds => hbuilds.grounded.2
  rcases htask with rfl | rfl
  · obtain ⟨payloadTxs, hrebuild, hcovered⟩ := hstored.rebuildTask hfree hchain hp
    have hcurrent : currentTask node.db (k + 1) none =
        .ok { ExecuteTask.ofParams p.params with payloadTxs } := hrebuild
    rw [Backend.buildNumber, hcurrent]
    exact Backend.executeTask_congr hcovered
  · have hnumber : (ExecuteTask.ofParams p.params).number = k + 1 := hchain.number _ p hp
    have hcurrent : currentTask node.db (k + 1) (some (.ofParams p.params)) =
        .ok (.ofParams p.params) := if_pos hnumber
    rw [Backend.buildNumber, hcurrent]
    rfl

end Blocks

section Executable

variable {lib : Library} {programs : Option Address → Call → Program (ModuleResult Bytes)}
  {algorithms : Backend}

end Executable

/-! Block 1 of the chain with contracts, from a proposal. -/

namespace Sample

/-- The genesis transaction of the system module, signed by a user. -/
def signedInitTx : Transaction where
  witness := (contractTx "init" []).witness
  call :=
    { module := "system"
      method := "init"
      params := Codec.encodeBytes [] ++ Codec.encodeU64 0 ++ Codec.encodeU64 20 ++ [8] ++
        Codec.encodeBytes (asBytes "poa") }

def firstProposal (payloadTxs : List Transaction) : Consensus.Proposal where
  parentHash := none
  blockHash := ((contracts.buildBlock contractsFirst.db
    { number := 1, timestamp := 1, metaTxs := [], payloadTxs := payloadTxs.map contracts.fullTx,
      executionNumber := 0 }).toOption.map (·.blockHash)).getD ⟨[]⟩
  number := 1
  timestamp := 1
  metaTxs := []
  payloadTxs := payloadTxs
  executionNumber := 0

def decided (payloadTxs : List Transaction)
    (h : (contracts.verifyProposal contractsFirst.db contractsState
      (firstProposal payloadTxs)).isOk) : Prepared where
  metaTxs := []
  payloadTxs := payloadTxs.map contracts.fullTx
  state := contractsState
  params := { Result.get _ h with proof := { name := "hotstuff", data := [] } }

/-- A payload list of both kinds. -/
def mixed : Prepared := decided [createTx [1], signedInitTx] (by decide +kernel)

def created : Prepared := decided [createTx [1]] (by decide +kernel)

end Sample

end Chain

end Finastate
