import Finastate.Chain.Honest
import Finastate.Hotstuff.Verifier
import Finastate.Raft.Verifier

/-!
# The engines over the backend

An engine verifies proposals over the confirmed blocks as it keeps them, the newest
first, and over what its `Support` answers. Here the database of a node is put
behind both: where the two agree on the blocks and on the executor, the verdict
of the engine on a proposal is that of `verify_proposal` over the backend. Every
node that is reached can be put behind an engine (`Reach.serves`).
-/

namespace Finastate.Chain

open Executor

/-! ## The confirmed blocks of an engine -/

/-- The database holds these blocks: the genesis block, and the others from the newest to
the oldest. -/
structure DB.Keeps (db : DB) (genesis : Hash × Header) (blocks : List (Hash × Header)) :
    Prop where
  blockHash : ∀ k, db.getBlockHash k = ((genesis :: blocks.reverse)[k]?).map Prod.fst
  header : ∀ block ∈ genesis :: blocks, db.getHeader block.1 = some block.2
  only : ∀ blockHash, (db.getHeader blockHash).isSome →
    ∃ block ∈ genesis :: blocks, block.1 = blockHash
  confirmed : db.confirmedNumber = some blocks.length

namespace DB.Keeps

variable {db : DB} {genesis : Hash × Header} {blocks : List (Hash × Header)}

/-- The blocks of a chain of one node. -/
theorem of_chained {chain : List Prepared} (h : db.Chained chain) (honly : db.Contained chain)
    (hblocks : chain.map (fun p => (p.params.blockHash, p.params.header)) =
      genesis :: blocks.reverse) : db.Keeps genesis blocks := by
  have hmem : ∀ block, block ∈ genesis :: blocks ↔
      ∃ p ∈ chain, (p.params.blockHash, p.params.header) = block := by
    intro block
    rw [← List.mem_map, hblocks, List.mem_cons, List.mem_cons, List.mem_reverse]
  constructor
  · intro k
    rw [h.blockHash, ← hblocks, List.getElem?_map, Option.map_map]
    rfl
  · intro block hblock
    obtain ⟨p, hp, rfl⟩ := (hmem block).1 hblock
    exact h.header p hp
  · intro blockHash hsome
    obtain ⟨p, hp, hhash⟩ := honly.header blockHash hsome
    exact ⟨_, (hmem _).2 ⟨p, hp, rfl⟩, hhash⟩
  · obtain ⟨number, hnumber, hlength⟩ := h.confirmed
    have hlengths := congrArg List.length hblocks
    rw [List.length_map, List.length_cons, List.length_reverse, hlength] at hlengths
    rw [hnumber, Nat.succ.inj hlengths]

/-- A header is looked up from the genesis on. -/
theorem getHeader (h : db.Keeps genesis blocks) (blockHash : Hash) :
    db.getHeader blockHash =
      ((genesis :: blocks).find? fun block => block.1 = blockHash).map Prod.snd := by
  cases hfind : (genesis :: blocks).find? fun block => block.1 = blockHash with
  | some block =>
      have hhash : block.1 = blockHash := by simpa using List.find?_some hfind
      rw [← hhash, h.header block (List.mem_of_find?_eq_some hfind)]
      rfl
  | none =>
      rw [Option.map_none, ← Option.not_isSome_iff_eq_none]
      intro hsome
      obtain ⟨block, hblock, hhash⟩ := h.only blockHash hsome
      exact List.find?_eq_none.1 hfind block hblock (decide_eq_true hhash)

theorem confirmedBlockHash (h : db.Keeps genesis blocks) {backend : Backend}
    {state : CurrentState} (hupdated : backend.Updated db state) :
    state.confirmedNumber = blocks.length ∧
      state.confirmedBlockHash = (blocks.head?.getD genesis).1 := by
  have hnumber : state.confirmedNumber = blocks.length :=
    Option.some.inj (hupdated.confirmedNumber.symm.trans h.confirmed)
  refine ⟨hnumber, ?_⟩
  have hhash := hupdated.confirmedBlockHash
  rw [hnumber, h.blockHash] at hhash
  cases blocks with
  | nil => exact (Option.some.inj hhash).symm
  | cons block blocks =>
      rw [List.length_cons, List.getElem?_cons_succ, List.reverse_cons,
        List.getElem?_append_right (by simp)] at hhash
      simpa using hhash.symm

end DB.Keeps

/-! ## Built blocks -/

namespace Backend

variable {backend : Backend} {db : DB} {params : BuildBlockParams}

/-- What an engine returns of a block that is built on a parent. -/
def builtOn (backend : Backend) (parentHash : Hash) (params : BuildBlockParams)
    (built : ChainCommitBlockParams) : CommitBlockParams :=
  let header : Header :=
    { number := params.number
      timestamp := params.timestamp
      parentHash
      metaTxsRoot := built.header.metaTxsRoot
      metaStateRoot := built.header.metaStateRoot
      metaReceiptsRoot := built.header.metaReceiptsRoot
      payloadTxsRoot := built.header.payloadTxsRoot
      payloadExecutionGap := executionGap params.number params.executionNumber
      payloadExecutionStateRoot := built.header.payloadExecutionStateRoot
      payloadExecutionReceiptsRoot := built.header.payloadExecutionReceiptsRoot }
  { blockHash := backend.hashHeader header
    header
    body :=
      { metaTxs := built.body.metaTxs
        payloadTxs := params.payloadTxs.map FullTransaction.txHash }
    proof := { name := "", data := [] } }

/-- `build_block`, as the supports of the engines have it: the parent, the execution and
what the executor returns. -/
theorem buildBlock_map {genesis : Hash × Header} {blocks : List (Hash × Header)}
    (h : db.Keeps genesis blocks) :
    (backend.buildBlock db params).map ChainCommitBlockParams.toCommitBlockParams =
      match db.getBlockHash (wrapSub 64 params.number 1) with
      | none => .error (.data (noNumber (wrapSub 64 params.number 1)))
      | some parentHash =>
          match db.getBlockHash params.executionNumber with
          | none => .error (.data (noNumber params.executionNumber))
          | some _ => (backend.buildBlock db params).map (backend.builtOn parentHash params) := by
  cases hparent : db.getBlockHash (wrapSub 64 params.number 1) with
  | none => simp [buildBlock, hparent, orData, bind, Except.bind, Except.map]
  | some parentHash =>
      have hkept : (db.getHeader parentHash).isSome = true := by
        rw [h.blockHash, Option.map_eq_some_iff] at hparent
        obtain ⟨block, hblock, rfl⟩ := hparent
        have hmem : block ∈ genesis :: blocks := by
          have hmem := List.mem_of_getElem? hblock
          rwa [List.mem_cons, List.mem_reverse, ← List.mem_cons] at hmem
        rw [h.header block hmem]
        rfl
      obtain ⟨parentHeader, hparentHeader⟩ := Option.isSome_iff_exists.1 hkept
      cases hexecution : db.getBlockHash params.executionNumber with
      | none =>
          simp [buildBlock, hparent, hparentHeader, hexecution, orData, bind, Except.bind,
            Except.map]
      | some executionHash =>
          simp only
          cases hbuilt : backend.buildBlock db params with
          | error e => rfl
          | ok built =>
              obtain ⟨parentHash', parentHeader', execution, essence, hfound, hon⟩ :=
                buildBlock_eq_ok hbuilt
              obtain rfl : parentHash' = parentHash :=
                Option.some.inj (hfound.getParentHash.symm.trans hparent)
              unfold buildOn at hon
              split at hon
              · cases hon
              · cases hon
                rfl

end Backend

/-! ## The support of an engine -/

open Consensus (Confirmed)

/-- What the executor has returned for a block. -/
def executed (built : ChainCommitBlockParams) : Consensus.Execution where
  metaTxs := built.body.metaTxs
  metaTxsRoot := built.header.metaTxsRoot
  metaStateRoot := built.header.metaStateRoot
  metaReceiptsRoot := built.header.metaReceiptsRoot
  payloadTxsRoot := built.header.payloadTxsRoot
  payloadExecutionStateRoot := built.header.payloadExecutionStateRoot
  payloadExecutionReceiptsRoot := built.header.payloadExecutionReceiptsRoot

section Serves

variable {M B : Type} [Confirmed B]

/-- The support answers for the blocks from the database of a node. -/
structure Serves (backend : Backend) (db : DB) (state : CurrentState)
    (support : Consensus.Support M B) (chain : List B) : Prop where
  blocks : db.Keeps (support.genesisHash, support.genesisHeader)
    (chain.map fun block => (Confirmed.blockHash block, Confirmed.header block))
  updated : backend.Updated db state
  hash : support.basic.hash = backend.hashHeader
  maxExecutionGap : support.maxExecutionGap chain = state.systemMeta.maxExecutionGap
  hashTransaction : support.hashTransaction = backend.hashTransaction
  validateTransaction : ∀ txHash tx,
    support.validateTransaction chain txHash tx =
      backend.validateTransaction db state txHash tx true
  execute : ∀ params, support.execute chain params = (backend.buildBlock db params).map executed

namespace Serves

variable {backend : Backend} {db : DB} {state : CurrentState} {support : Consensus.Support M B}
  {chain : List B}

theorem getBlockHash (h : Serves backend db state support chain) (number : BlockNumber) :
    db.getBlockHash number = support.getBlockHash chain number := by
  rw [h.blocks.blockHash]
  cases number with
  | zero => rfl
  | succ number =>
      rw [List.getElem?_cons_succ, Consensus.Support.getBlockHash, ← List.map_reverse,
        List.getElem?_map, Option.map_map]
      rfl

theorem getHeader (h : Serves backend db state support chain) (blockHash : Hash) :
    db.getHeader blockHash = support.getHeader chain blockHash := by
  rw [h.blocks.getHeader, Consensus.Support.getHeader, List.find?_cons]
  by_cases hgenesis : blockHash = support.genesisHash
  · simp [hgenesis]
  · simp only [decide_eq_false (Ne.symm hgenesis), if_neg hgenesis, List.find?_map,
      Option.map_map]
    rfl

theorem buildBlock (h : Serves backend db state support chain) {params : BuildBlockParams}
    (hnumber : params.number = state.confirmedNumber + 1) (hbound : params.number < 2 ^ 64) :
    (backend.buildBlock db params).map ChainCommitBlockParams.toCommitBlockParams =
      support.buildBlock chain params := by
  have hparent : support.parentHashOf chain params.number =
      support.getBlockHash chain (wrapSub 64 params.number 1) := by
    rw [wrapSub_of_le hbound (hnumber ▸ Nat.le_add_left 1 _), hnumber]
    rfl
  rw [Backend.buildBlock_map h.blocks, Consensus.Support.buildBlock, hparent, h.execute,
    h.getBlockHash, h.getBlockHash]
  cases support.getBlockHash chain (wrapSub 64 params.number 1) with
  | none => rfl
  | some parentHash =>
      cases support.getBlockHash chain params.executionNumber with
      | none => rfl
      | some executionHash =>
          cases backend.buildBlock db params with
          | error e => rfl
          | ok built =>
              simp only [Except.map, h.hash]
              rfl

theorem maps (h : Serves backend db state support chain) (hbound : chain.length + 1 < 2 ^ 64) :
    Consensus.Verifier.Maps ChainCommitBlockParams.toCommitBlockParams
      (backend.verifierSupport db state)
      (support.verifierSupport chain state.executedNumber) := by
  obtain ⟨hnumber, hhash⟩ := h.blocks.confirmedBlockHash h.updated
  rw [List.length_map] at hnumber
  constructor
  case confirmedNumber => exact hnumber
  case confirmedBlockHash =>
    refine hhash.trans ?_
    cases chain with
    | nil => rfl
    | cons block chain => rfl
  case executedNumber => rfl
  case maxExecutionGap => exact h.maxExecutionGap.symm
  case getHeader => exact h.getHeader
  case hashTransaction => exact h.hashTransaction.symm
  case validateTransaction =>
    funext txHash tx
    exact (h.validateTransaction txHash tx).symm
  case buildBlock =>
    intro build hbuild
    refine h.buildBlock hbuild ?_
    change build.number = state.confirmedNumber + 1 at hbuild
    rwa [hbuild, hnumber]
  case blockHash => exact fun _ => rfl

end Serves

/-! ## The nodes behind an engine -/

variable {backend : Backend} {txs : List Transaction} {timestamp : Nat} {node : Node}

/-- What a node answers an engine. -/
def Node.support (node : Node) (backend : Backend) (basic : Basic M) (genesisHeader : Header) :
    Consensus.Support M B where
  basic := { basic with hash := backend.hashHeader }
  genesisHeader := genesisHeader
  maxExecutionGap _ := node.current.systemMeta.maxExecutionGap
  hashTransaction := backend.hashTransaction
  validateTransaction _ txHash tx :=
    backend.validateTransaction node.db node.current txHash tx true
  execute _ params := (backend.buildBlock node.db params).map executed

/-- A node that has read its current state serves the engine that keeps its blocks, with
whatever proofs. -/
theorem Reach.serves (h : Reach backend backend.Builds txs timestamp node)
    (hupdated : backend.Updated node.db node.current) (basic : Basic M) {block : Prepared → B}
    (hblockHash : ∀ p, Confirmed.blockHash (block p) = p.params.blockHash)
    (hheader : ∀ p, Confirmed.header (block p) = p.params.header) {genesis : Prepared}
    {later : List Prepared} (hchain : node.chain = genesis :: later) :
    Serves backend node.db node.current
      (node.support backend basic genesis.params.header : Consensus.Support M B)
      (later.map block).reverse where
  blocks := by
    have hgenesis : genesis.params.blockHash = backend.hashHeader genesis.params.header :=
      h.blockHash_eq genesis (hchain ▸ List.mem_cons_self)
    have hcontained := h.contained fun _ _ _ hbuilds => hbuilds.grounded.2
    refine .of_chained h.chained hcontained ?_
    rw [hchain, List.map_cons, hgenesis, List.map_reverse, List.reverse_reverse, List.map_map]
    simp only [Function.comp_def, hblockHash, hheader]
    rfl
  updated := hupdated
  hash := rfl
  maxExecutionGap := rfl
  hashTransaction := rfl
  validateTransaction _ _ := rfl
  execute _ := rfl

end Serves

section Engines

variable {backend : Backend} {db : DB} {state : CurrentState}

/-- HotStuff accepts the proposals that pass `verify_proposal` over the backend, with the
same block, and refuses the others with the same error. -/
theorem verifyProposal_hotstuff {support : Hotstuff.Support} {chain : Hotstuff.Chain}
    (h : Serves backend db state support.toSupport chain) (hbound : chain.length + 1 < 2 ^ 64)
    (proposal : Hotstuff.Proposal) :
    (backend.verifyProposal db state proposal.toConsensus).map
        ChainCommitBlockParams.toCommitBlockParams =
      Hotstuff.Verifier.verifyProposal support chain state.executedNumber proposal :=
  (h.maps hbound).verifyProposal _

/-- So does Raft. -/
theorem verifyProposal_raft {support : Raft.Support} {chain : Raft.Chain}
    (h : Serves backend db state support.toSupport chain) (hbound : chain.length + 1 < 2 ^ 64)
    (proposal : Raft.Proposal) :
    (backend.verifyProposal db state proposal.toConsensus).map
        ChainCommitBlockParams.toCommitBlockParams =
      Raft.Verifier.verifyProposal support chain state.executedNumber proposal :=
  (h.maps hbound).verifyProposal _

end Engines

end Finastate.Chain
