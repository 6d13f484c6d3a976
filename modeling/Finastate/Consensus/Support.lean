import Finastate.Consensus.Basic
import Finastate.Consensus.Verifier

/-!
# The chain under an engine

`ConsensusSupport`, as far as it does not depend on the state of the node: the
algorithms of the chain, the genesis block, and the executor, which is asked on
top of a chain. The engines keep different proofs of their confirmed blocks, so
that the type of the blocks is a parameter.
-/

namespace Finastate.Consensus

/-- What every confirmed block has. -/
class Confirmed (B : Type) where
  blockHash : B → Hash
  header : B → Header

/-- What executing the transactions of a new block returns. -/
structure Execution where
  metaTxs : List Hash
  metaTxsRoot : Hash
  metaStateRoot : Hash
  metaReceiptsRoot : Hash
  payloadTxsRoot : Hash
  payloadExecutionStateRoot : Hash
  payloadExecutionReceiptsRoot : Hash
  deriving DecidableEq, Repr

/-- `ConsensusSupport` of an engine that signs `M` and confirms blocks `B`, the newest
first. -/
structure Support (M B : Type) where
  basic : Basic M
  genesisHeader : Header
  maxExecutionGap : List B → Int
  hashTransaction : Transaction → Hash
  validateTransaction : List B → Hash → Transaction → Except Chain.ErrorKind Unit
  execute : List B → BuildBlockParams → Except Chain.ErrorKind Execution

namespace Support

variable {M B : Type} [Confirmed B] (support : Support M B)

def genesisHash : Hash := support.basic.hash support.genesisHeader

/-- `current_state.confirmed_block_hash`. -/
def confirmedBlockHash : List B → Hash
  | [] => support.genesisHash
  | block :: _ => Confirmed.blockHash block

def getBlockHash (chain : List B) : BlockNumber → Option Hash
  | 0 => some support.genesisHash
  | number + 1 => (chain.reverse[number]?).map Confirmed.blockHash

def getHeader (chain : List B) (blockHash : Hash) : Option Header :=
  if blockHash = support.genesisHash then some support.genesisHeader
  else (chain.find? fun block => Confirmed.blockHash block = blockHash).map Confirmed.header

/-- The hash of the block below a number; below `0` the number wraps to one
that no block has. -/
def parentHashOf (chain : List B) : BlockNumber → Option Hash
  | 0 => none
  | number + 1 => support.getBlockHash chain number

/-- `build_block` of the chain. -/
def buildBlock (chain : List B) (params : BuildBlockParams) :
    Except Chain.ErrorKind CommitBlockParams :=
  match support.parentHashOf chain params.number with
  | none => .error (.data (Chain.noNumber (wrapSub 64 params.number 1)))
  | some parentHash =>
      match support.getBlockHash chain params.executionNumber with
      | none => .error (.data (Chain.noNumber params.executionNumber))
      | some _ =>
          match support.execute chain params with
          | .error e => .error e
          | .ok execution =>
              let header : Header :=
                { number := params.number
                  timestamp := params.timestamp
                  parentHash
                  metaTxsRoot := execution.metaTxsRoot
                  metaStateRoot := execution.metaStateRoot
                  metaReceiptsRoot := execution.metaReceiptsRoot
                  payloadTxsRoot := execution.payloadTxsRoot
                  payloadExecutionGap :=
                    Int.bmod (wrapSub 64 params.number params.executionNumber) (2 ^ 8)
                  payloadExecutionStateRoot := execution.payloadExecutionStateRoot
                  payloadExecutionReceiptsRoot := execution.payloadExecutionReceiptsRoot }
              .ok
                { blockHash := support.basic.hash header
                  header
                  body :=
                    { metaTxs := execution.metaTxs
                      payloadTxs := params.payloadTxs.map FullTransaction.txHash }
                  proof := { name := "", data := [] } }

/-- What the verifier sees of a node. -/
def verifierSupport (chain : List B) (executedNumber : BlockNumber) :
    VerifierSupport CommitBlockParams where
  confirmedNumber := chain.length
  confirmedBlockHash := support.confirmedBlockHash chain
  executedNumber := executedNumber
  maxExecutionGap := support.maxExecutionGap chain
  getHeader := support.getHeader chain
  hashTransaction := support.hashTransaction
  validateTransaction := support.validateTransaction chain
  buildBlock := support.buildBlock chain
  blockHash := CommitBlockParams.blockHash

variable {support} {chain : List B}

/-- A built block: the hash is the one of its header, and the header names the
block below its number as the parent. -/
theorem buildBlock_eq_ok {params : BuildBlockParams} {commitBlockParams : CommitBlockParams}
    (h : support.buildBlock chain params = .ok commitBlockParams) :
    commitBlockParams.blockHash = support.basic.hash commitBlockParams.header ∧
      commitBlockParams.header.number = params.number ∧
      support.parentHashOf chain params.number =
        some commitBlockParams.header.parentHash := by
  unfold buildBlock at h
  cases hparent : support.parentHashOf chain params.number with
  | none => simp [hparent] at h
  | some parentHash =>
      cases hexec : support.getBlockHash chain params.executionNumber with
      | none => simp [hparent, hexec] at h
      | some executionHash =>
          cases hrun : support.execute chain params with
          | error e => simp [hparent, hexec, hrun] at h
          | ok execution =>
              rw [hparent, hexec, hrun] at h
              cases h
              exact ⟨rfl, rfl, rfl⟩

theorem getBlockHash_length (support : Support M B) (chain : List B) :
    support.getBlockHash chain chain.length = some (support.confirmedBlockHash chain) := by
  cases chain with
  | nil => rfl
  | cons block chain => simp [getBlockHash, confirmedBlockHash]

end Support

end Finastate.Consensus
