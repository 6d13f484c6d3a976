import Finastate.Chain.Prepare

/-!
# Proposals of honest nodes

A node that prepares and builds a block has found its transactions valid, on its
own current state. Another node with the same blocks repeats these tests on a
state of its own, which was opened at another time, and it tests the numbers and
the lists in ways that `prepare_block` does not.
-/

namespace Finastate

open Executor Contract Vm

namespace Chain

/-! ## The hashes of the blocks -/

section Blocks

variable {backend : Backend} {Prepares : DB → CurrentState → Prepared → Prop}
  {txs : List Transaction} {timestamp : Nat} {node node' : Node} {Q : Prepared → Prop}

theorem Step.forall_blocks (h : Step backend Prepares node node')
    (hprepares : ∀ db state p, Prepares db state p → Q p)
    (hnode : ∀ p ∈ node.prepared ++ node.chain, Q p) :
    ∀ p ∈ node'.prepared ++ node'.chain, Q p := by
  cases h with
  | prepare h =>
      intro q hq
      rcases List.mem_cons.1 hq with rfl | hq
      · exact hprepares _ _ _ h
      · exact hnode q hq
  | commit now hp =>
      rcases node.commit_cases backend now _ with heq | ⟨-, uninserted, -, heq⟩
      · rwa [heq]
      · rw [heq]
        intro q hq
        rw [← List.append_assoc] at hq
        rcases List.mem_append.1 hq with hq | hq
        · exact hnode q hq
        · rw [List.mem_singleton.1 hq]
          exact hnode _ (List.mem_append_left _ hp)
  | restart h => exact fun q hq => hnode q (List.mem_append_right _ hq)
  | insert h => exact hnode
  | lose task => exact hnode
  | take hidle hqueue h => exact hnode
  | build hwork hbuilt h => exact hnode
  | store hwork hbuilt => exact hnode
  | fail => exact hnode
  | refresh h => exact hnode

/-- What holds of the genesis block and of every block that is prepared holds of
the blocks of the chain. -/
theorem Reach.forall_blocks (h : Reach backend Prepares txs timestamp node)
    (hgenesis : ∀ context current, Q (backend.genesisPrepared timestamp context current))
    (hprepares : ∀ db state p, Prepares db state p → Q p) : ∀ p ∈ node.chain, Q p := by
  suffices hall : ∀ p ∈ node.prepared ++ node.chain, Q p from
    fun p hp => hall p (List.mem_append_right _ hp)
  induction h with
  | genesis hspec hexecute h =>
      intro p hp
      rw [List.mem_singleton.1 hp]
      exact hgenesis _ _
  | step hreach h ih => exact h.forall_blocks hprepares ih

theorem Reach.blockHash_eq (h : Reach backend backend.Builds txs timestamp node) :
    ∀ p ∈ node.chain, p.params.blockHash = backend.hashHeader p.params.header := by
  refine h.forall_blocks (fun context current => rfl) ?_
  intro db state p hbuilds
  obtain ⟨params, built, hbuilt, -, -, heq⟩ := hbuilds.built
  obtain ⟨parentHash, parentHeader, execution, essence, -, hon⟩ := Backend.buildBlock_eq_ok hbuilt
  obtain ⟨context, -, hhash, -⟩ := Backend.buildOn_eq_ok hon
  rw [heq]
  exact hhash

/-- A block with the next number is not in the database yet. -/
theorem Reach.getHeader_eq_none (h : Reach backend backend.Builds txs timestamp node)
    (hheader : ∀ header header', backend.hashHeader header = backend.hashHeader header' →
      header.number = header'.number)
    {number : BlockNumber} (hconfirmed : node.db.confirmedNumber = some number) {header : Header}
    (hnumber : header.number = number + 1) :
    node.db.getHeader (backend.hashHeader header) = none := by
  have hchain := h.chained
  rw [← Option.not_isSome_iff_eq_none]
  intro hsome
  obtain ⟨p, hp, hhash⟩ :=
    (h.contained fun _ _ _ hbuilds => hbuilds.grounded.2).header _ hsome
  obtain ⟨k, hk⟩ := List.getElem?_of_mem hp
  obtain ⟨number', hconfirmed', hlength⟩ := hchain.confirmed
  obtain rfl := Option.some.inj (hconfirmed'.symm.trans hconfirmed)
  have hsame := hheader _ _ ((h.blockHash_eq p hp).symm.trans hhash)
  rw [hchain.number k p hk, hnumber] at hsame
  have hlt := (List.getElem?_eq_some_iff.1 hk).1
  rw [hlength, hsame] at hlt
  exact lt_irrefl _ hlt

end Blocks

/-! ## The picked transactions -/

namespace Backend

section Pool

variable (backend : Backend) (db : DB) (state : CurrentState)

/-- Whether `prepare_block` picks the transaction for the list of this kind. -/
def picks (isMeta : Bool) (tx : FullTransaction) : Bool :=
  decide (backend.isInvalid db state tx = .ok false) &&
    decide (backend.isMetaCall tx.tx.call = .ok isMeta)

/-- No two valid transactions of one kind in the pool have the same hash. -/
def Distinct (txs : List FullTransaction) : Prop :=
  txs.Pairwise fun tx tx' => ∀ isMeta, backend.picks db state isMeta tx →
    backend.picks db state isMeta tx' → tx.txHash ≠ tx'.txHash

variable {backend db state} {txs : List FullTransaction}

theorem sortTxs_eq_ok {poolTxs : PoolTxs} (h : backend.sortTxs db state txs = .ok poolTxs) :
    poolTxs.metaTxs = txs.filter (backend.picks db state true) ∧
      poolTxs.payloadTxs = txs.filter (backend.picks db state false) := by
  induction txs generalizing poolTxs with
  | nil =>
      cases h
      exact ⟨rfl, rfl⟩
  | cons tx txs ih =>
      obtain ⟨invalid, hinvalid, h⟩ := Result.bind_eq_ok.1 h
      cases invalid with
      | true =>
          obtain ⟨rest, hrest, h⟩ := Result.bind_eq_ok.1 h
          cases h
          simp [picks, hinvalid, ih hrest]
      | false =>
          obtain ⟨isMeta, hmeta, h⟩ := Result.bind_eq_ok.1 h
          cases isMeta with
          | true =>
              obtain ⟨rest, hrest, h⟩ := Result.bind_eq_ok.1 h
              cases h
              simp [picks, hinvalid, hmeta, ih hrest]
          | false =>
              obtain ⟨rest, hrest, h⟩ := Result.bind_eq_ok.1 h
              cases h
              simp [picks, hinvalid, hmeta, ih hrest]

/-- Every valid transaction is picked for one of the lists. -/
theorem exists_picks {poolTxs : PoolTxs} (h : backend.sortTxs db state txs = .ok poolTxs)
    {tx : FullTransaction} (htx : tx ∈ txs) (hvalid : backend.isInvalid db state tx = .ok false) :
    ∃ isMeta, backend.picks db state isMeta tx = true := by
  induction txs generalizing poolTxs with
  | nil => cases htx
  | cons tx' txs ih =>
      obtain ⟨invalid, hinvalid, h⟩ := Result.bind_eq_ok.1 h
      cases invalid with
      | true =>
          obtain ⟨rest, hrest, -⟩ := Result.bind_eq_ok.1 h
          rcases List.mem_cons.1 htx with rfl | htx
          · cases hvalid.symm.trans hinvalid
          · exact ih hrest htx
      | false =>
          obtain ⟨isMeta, hmeta, h⟩ := Result.bind_eq_ok.1 h
          rcases List.mem_cons.1 htx with rfl | htx
          · exact ⟨isMeta, by simp [picks, hinvalid, hmeta]⟩
          · cases isMeta with
            | true =>
                obtain ⟨rest, hrest, -⟩ := Result.bind_eq_ok.1 h
                exact ih hrest htx
            | false =>
                obtain ⟨rest, hrest, -⟩ := Result.bind_eq_ok.1 h
                exact ih hrest htx

theorem distinct_iff :
    backend.Distinct db state txs ↔
      ((txs.filter (backend.picks db state true)).map FullTransaction.txHash).Nodup ∧
        ((txs.filter (backend.picks db state false)).map FullTransaction.txHash).Nodup := by
  simp only [Distinct, List.Nodup, List.pairwise_map, List.pairwise_filter]
  rw [← List.pairwise_and_iff]
  refine List.Pairwise.iff fun tx tx' => ?_
  simp [Bool.forall_bool, and_comm]

theorem isInvalid_eq_ok_false_iff {tx : FullTransaction} :
    backend.isInvalid db state tx = .ok false ↔
      backend.validateTransaction db state tx.txHash tx.tx true = .ok () := by
  unfold isInvalid
  cases backend.validateTransaction db state tx.txHash tx.tx true with
  | ok u => simp
  | error e => cases e <;> simp

/-- The picked transactions of one kind, as they stand in a proposal. -/
def picked (backend : Backend) (db : DB) (state : CurrentState) (isMeta : Bool)
    (pool : List Transaction) : List Transaction :=
  pool.filter fun tx => backend.picks db state isMeta (backend.fullTx tx)

theorem filter_picks (isMeta : Bool) (pool : List Transaction) :
    (pool.map backend.fullTx).filter (backend.picks db state isMeta) =
      (backend.picked db state isMeta pool).map backend.fullTx := by
  rw [List.filter_map]
  rfl

theorem validateTransaction_of_mem_picked {isMeta : Bool} {pool : List Transaction}
    {tx : Transaction} (h : tx ∈ backend.picked db state isMeta pool) :
    backend.validateTransaction db state (backend.hashTransaction tx) tx true = .ok () := by
  obtain ⟨-, hpicks⟩ := List.mem_filter.1 h
  rw [picks, Bool.and_eq_true, decide_eq_true_eq, isInvalid_eq_ok_false_iff] at hpicks
  exact hpicks.1

/-- The picked transactions pass the tests of their own node if their hashes
differ. -/
theorem admits_picked_iff {isMeta : Bool} {pool : List Transaction} :
    backend.Admits db state (backend.picked db state isMeta pool) ↔
      ((backend.picked db state isMeta pool).map backend.hashTransaction).Nodup := by
  refine ⟨Admits.nodup, fun hnodup => ⟨fun tx htx => ?_, fun tx htx => ?_, hnodup⟩⟩
  · exact (validateTransaction_eq_ok_iff.1 (validateTransaction_of_mem_picked htx)).1
  · exact (validateTransaction_eq_ok_iff.1 (validateTransaction_of_mem_picked htx)).2.1

theorem valid_picked (isMeta : Bool) (pool : List Transaction) :
    backend.Valid state (backend.picked db state isMeta pool) := fun _ htx =>
  (validateTransaction_eq_ok_iff.1 (validateTransaction_of_mem_picked htx)).2.2

theorem mem_picked_iff {poolTxs : PoolTxs} {pool : List Transaction}
    (h : backend.sortTxs db state (pool.map backend.fullTx) = .ok poolTxs) {tx : Transaction} :
    (tx ∈ backend.picked db state true pool ∨ tx ∈ backend.picked db state false pool) ↔
      tx ∈ pool ∧
        backend.validateTransaction db state (backend.hashTransaction tx) tx true = .ok () := by
  constructor
  · rintro (htx | htx)
    · exact ⟨(List.mem_filter.1 htx).1, validateTransaction_of_mem_picked htx⟩
    · exact ⟨(List.mem_filter.1 htx).1, validateTransaction_of_mem_picked htx⟩
  · rintro ⟨htx, hvalid⟩
    obtain ⟨isMeta, hpicks⟩ := exists_picks h (List.mem_map_of_mem htx)
      (isInvalid_eq_ok_false_iff.2 hvalid)
    cases isMeta with
    | true => exact .inl (List.mem_filter.2 ⟨htx, hpicks⟩)
    | false => exact .inr (List.mem_filter.2 ⟨htx, hpicks⟩)

theorem distinct_map_iff {pool : List Transaction} :
    backend.Distinct db state (pool.map backend.fullTx) ↔
      backend.Admits db state (backend.picked db state true pool) ∧
        backend.Admits db state (backend.picked db state false pool) := by
  have hhash : ∀ txs : List Transaction,
      (txs.map backend.fullTx).map FullTransaction.txHash = txs.map backend.hashTransaction := by
    intro txs
    rw [List.map_map]
    rfl
  rw [distinct_iff, admits_picked_iff, admits_picked_iff, filter_picks, filter_picks, hhash, hhash]

end Pool

end Backend

/-! ## The verdict of another node -/

/-- `create_proposal`, once the block is built. -/
def createProposal (params : BuildBlockParams) (built : ChainCommitBlockParams) : Consensus.Proposal where
  parentHash := some built.header.parentHash
  blockHash := built.blockHash
  number := params.number
  timestamp := params.timestamp
  metaTxs := params.metaTxs.map FullTransaction.tx
  payloadTxs := params.payloadTxs.map FullTransaction.tx
  executionNumber := params.executionNumber

section Honest

variable {backend : Backend} {txs : List Transaction} {timestamp : Nat} {node₁ node₂ : Node}
  {pool : List Transaction} {now : Nat} {params : BuildBlockParams}
  {built : ChainCommitBlockParams}

theorem proposalParams_createProposal
    (hprepare : (backend.prepareBlock node₁.db node₁.current (pool.map backend.fullTx) now).2 =
      .ok params) (built : ChainCommitBlockParams) :
    (createProposal params built).metaTxs = backend.picked node₁.db node₁.current true pool ∧
      (createProposal params built).payloadTxs =
        backend.picked node₁.db node₁.current false pool ∧
      backend.proposalParams (createProposal params built) = params := by
  obtain ⟨poolTxs, hsort, -, rfl⟩ := Backend.prepareBlock_eq_ok hprepare
  obtain ⟨hmeta, hpayload⟩ := Backend.sortTxs_eq_ok hsort
  rw [Backend.filter_picks] at hmeta hpayload
  have hback : ∀ txs : List Transaction,
      (txs.map backend.fullTx).map FullTransaction.tx = txs := by
    intro txs
    rw [List.map_map]
    exact List.map_id txs
  simp only [createProposal, Backend.proposalParams, hmeta, hpayload, hback, and_self]

/-- The tests of another node on the numbers and the place of the proposal. -/
theorem Twins.best_iff (h : Twins backend txs timestamp node₁ node₂)
    (hfree : backend.CollisionFree)
    (hexecuted : node₁.current.executedNumber = node₂.current.executedNumber)
    (hnumber : node₁.current.confirmedNumber + 1 < 2 ^ 64)
    (hprepare : (backend.prepareBlock node₁.db node₁.current (pool.map backend.fullTx) now).2 =
      .ok params)
    (hbuild : backend.buildBlock node₁.db params = .ok built) :
    (∃ confirmedHeader,
      Consensus.Verifier.verifyBest (backend.verifierSupport node₂.db node₂.current)
        (createProposal params built).number (createProposal params built).parentHash =
          .ok confirmedHeader ∧
      Consensus.Verifier.verifyExecution (backend.verifierSupport node₂.db node₂.current)
        (createProposal params built).number (createProposal params built).executionNumber
          confirmedHeader = .ok ()) ↔
    1 ≤ Backend.executionGap (node₁.current.confirmedNumber + 1) node₁.current.executedNumber ∧
      ∀ header, node₁.db.getHeader node₁.current.confirmedBlockHash = some header →
        executionNumber header ≤ node₁.current.executedNumber := by
  obtain ⟨hagree, hstate⟩ := h.agree hfree (Nat.zero_le _) (Nat.zero_le _)
  obtain ⟨now₁, hcurrent₁⟩ := h.current₁
  have hupdated₁ := Backend.updated_of_updateCurrentState hcurrent₁
  obtain ⟨header, hheader, -⟩ := hupdated₁.metaState
  obtain ⟨poolTxs, -, hmax, rfl⟩ := Backend.prepareBlock_eq_ok hprepare
  have hparent : built.header.parentHash = node₂.current.confirmedBlockHash := by
    obtain ⟨parentHash, parentHeader, execution, essence, hfound, hon⟩ :=
      Backend.buildBlock_eq_ok hbuild
    obtain ⟨context, -, -, hbuilt, -⟩ := Backend.buildOn_eq_ok hon
    have hget := hfound.getParentHash
    rw [wrapSub_of_le hnumber (Nat.succ_le_succ (Nat.zero_le _)), Nat.add_sub_cancel,
      hupdated₁.confirmedBlockHash] at hget
    rw [hbuilt, ← hstate.confirmedBlockHash]
    exact (Option.some.inj hget).symm
  have hbest : Consensus.Verifier.verifyBest (backend.verifierSupport node₂.db node₂.current)
      (node₁.current.confirmedNumber + 1) (some built.header.parentHash) = .ok header := by
    refine Consensus.Verifier.verifyBest_eq_ok_iff.2 ⟨?_, ?_, hparent⟩
    · change node₂.db.getHeader node₂.current.confirmedBlockHash = some header
      rw [← hagree.header, ← hstate.confirmedBlockHash, hheader]
    · exact congrArg (· + 1) hstate.confirmedNumber
  have hmax₂ : Backend.executionGap (node₁.current.confirmedNumber + 1)
      node₁.current.executedNumber ≤ node₂.current.systemMeta.maxExecutionGap :=
    hstate.systemMeta ▸ hmax
  simp only [createProposal, hbest, Except.ok.injEq, exists_eq_left',
    Consensus.Verifier.verifyExecution_eq_ok_iff, hheader, Option.some.injEq, forall_eq']
  exact and_congr_right fun _ =>
    ⟨fun htests => htests.2.1, fun hconfirmed => ⟨hmax₂, hconfirmed, hexecuted.le⟩⟩

end Honest

section Contracts

variable {lib : Library} {programs : Option Address → Call → Program (ModuleResult Bytes)}
  {algorithms : Backend}

/-- Another node accepts what a node has prepared and built, exactly if the gap
has not become negative, the confirmed block does not name a later execution, no
transaction is twice in the proposal, and the contracts that are called accept
it in the context of the other node too. -/
theorem honest_accepted_iff (hfree : (lib.backend programs algorithms).CollisionFree)
    (hheader : ∀ header header', algorithms.hashHeader header = algorithms.hashHeader header' →
      header.number = header'.number)
    {txs : List Transaction} {timestamp : Nat} {node₁ node₂ : Node}
    (h : Twins (lib.backend programs algorithms) txs timestamp node₁ node₂)
    (hexecuted : node₁.current.executedNumber = node₂.current.executedNumber)
    (hnumber : node₁.current.confirmedNumber + 1 < 2 ^ 64) {pool : List Transaction} {now : Nat}
    {params : BuildBlockParams} {built : ChainCommitBlockParams}
    (hprepare : ((lib.backend programs algorithms).prepareBlock node₁.db node₁.current
      (pool.map (lib.backend programs algorithms).fullTx) now).2 = .ok params)
    (hbuild : (lib.backend programs algorithms).buildBlock node₁.db params = .ok built) :
    node₂.verifyProposal (lib.backend programs algorithms) (createProposal params built) =
        .ok built ↔
      1 ≤ Backend.executionGap (node₁.current.confirmedNumber + 1) node₁.current.executedNumber ∧
      (∀ header, node₁.db.getHeader node₁.current.confirmedBlockHash = some header →
        executionNumber header ≤ node₁.current.executedNumber) ∧
      (lib.backend programs algorithms).Distinct node₁.db node₁.current
        (pool.map (lib.backend programs algorithms).fullTx) ∧
      ∀ tx ∈ pool, (lib.backend programs algorithms).validateTransaction node₁.db node₁.current
          ((lib.backend programs algorithms).hashTransaction tx) tx true = .ok () →
        lib.ContractAccepts (lib.backend programs algorithms).validator
          node₂.current.contextEssence.context tx := by
  obtain ⟨hagree, hstate⟩ := h.agree hfree (le_refl _) hexecuted.le
  obtain ⟨hagree', hstate'⟩ := h.symm.agree hfree (Nat.zero_le _) (Nat.zero_le _)
  obtain ⟨poolTxs, hsort, -, hparams⟩ := Backend.prepareBlock_eq_ok hprepare
  obtain ⟨now₂, hcurrent₂⟩ := h.current₂
  obtain ⟨hmetaTxs, hpayloadTxs, hproposal⟩ := proposalParams_createProposal hprepare built
  have hfresh : (node₂.db.getHeader built.blockHash).isSome = false := by
    obtain ⟨parentHash, parentHeader, execution, essence, -, hon⟩ :=
      Backend.buildBlock_eq_ok hbuild
    obtain ⟨context, -, hhash, -⟩ := Backend.buildOn_eq_ok hon
    have hbuiltNumber : built.header.number = node₂.current.confirmedNumber + 1 := by
      rw [(Backend.header_of_buildBlock hbuild).1, hparams, ← hstate.confirmedNumber]
    rw [hhash, h.reach₂.getHeader_eq_none hheader
      (Backend.updated_of_updateCurrentState hcurrent₂).confirmedNumber hbuiltNumber]
    rfl
  have hadmits : ∀ blockTxs,
      (lib.backend programs algorithms).Admits node₂.db node₂.current blockTxs ↔
        (lib.backend programs algorithms).Admits node₁.db node₁.current blockTxs :=
    fun _ => ⟨fun hchecks => hchecks.of_agree hagree' hstate',
      fun hchecks => hchecks.of_agree hagree hstate⟩
  have hvalid : ∀ isMeta, (lib.backend programs algorithms).Valid node₂.current
      ((lib.backend programs algorithms).picked node₁.db node₁.current isMeta pool) ↔
        ∀ tx ∈ (lib.backend programs algorithms).picked node₁.db node₁.current isMeta pool,
          lib.ContractAccepts (lib.backend programs algorithms).validator
            node₂.current.contextEssence.context tx := by
    intro isMeta
    have hpicked : (lib.backend programs algorithms).Valid node₁.current
        ((lib.backend programs algorithms).picked node₁.db node₁.current isMeta pool) :=
      Backend.valid_picked isMeta pool
    have hstatic := (valid_iff.1 hpicked).1
    rw [hstate.genesisHash] at hstatic
    rw [valid_iff, and_iff_right hstatic]
  have hbuild₂ : (lib.backend programs algorithms).buildBlock node₂.db params = .ok built ∧
      built.blockHash = (createProposal params built).blockHash := by
    rw [← hagree.buildBlock (by rw [hparams])]
    exact ⟨hbuild, rfl⟩
  have haccepts : (∀ tx ∈ pool, (lib.backend programs algorithms).validateTransaction node₁.db
        node₁.current ((lib.backend programs algorithms).hashTransaction tx) tx true = .ok () →
      lib.ContractAccepts (lib.backend programs algorithms).validator
        node₂.current.contextEssence.context tx) ↔
      (∀ tx ∈ (lib.backend programs algorithms).picked node₁.db node₁.current true pool,
        lib.ContractAccepts (lib.backend programs algorithms).validator
          node₂.current.contextEssence.context tx) ∧
      ∀ tx ∈ (lib.backend programs algorithms).picked node₁.db node₁.current false pool,
        lib.ContractAccepts (lib.backend programs algorithms).validator
          node₂.current.contextEssence.context tx := by
    rw [← forall_and]
    refine forall_congr' fun tx => ?_
    rw [← and_imp, ← Backend.mem_picked_iff hsort, or_imp]
  rw [Node.verifyProposal, Backend.verifyProposal_eq_ok_iff,
    h.best_iff hfree hexecuted hnumber hprepare hbuild, hmetaTxs, hpayloadTxs, hproposal,
    hadmits, hadmits, hvalid, hvalid, Backend.distinct_map_iff, haccepts,
    and_iff_right (show (node₂.db.getHeader (createProposal params built).blockHash).isSome = false
      from hfresh), and_iff_left hbuild₂]
  constructor
  · rintro ⟨⟨hgap, hconfirmed⟩, ⟨hmeta, hmetaAccepts⟩, ⟨hpayload, hpayloadAccepts⟩⟩
    exact ⟨hgap, hconfirmed, ⟨hmeta, hpayload⟩, hmetaAccepts, hpayloadAccepts⟩
  · rintro ⟨hgap, hconfirmed, ⟨hmeta, hpayload⟩, hmetaAccepts, hpayloadAccepts⟩
    exact ⟨⟨hgap, hconfirmed⟩, ⟨hmeta, hmetaAccepts⟩, ⟨hpayload, hpayloadAccepts⟩⟩

end Contracts

/-! Two nodes after the genesis, whose current states were opened at the times 0
and 1. Contracts can only be created at the time 0. -/

namespace Sample

def clock : Library where
  util := Contract.Sample.util
  run := fun _ _ func =>
    if func = Mode.init.validateFunc then
      .call .envBlockTimestamp fun
        | .value 0 => .done (.ok ())
        | _ => .done (.error (.contract (.user "Too late")))
    else .done (.ok ())

/-- The number of a header can be read from its hash. -/
def numbered : Backend :=
  { backend with
    hashHeader := fun header =>
      ⟨markNat header.number ++ (header.metaTxsRoot.bytes ++ header.payloadTxsRoot.bytes)⟩ }

def clocks : Backend := clock.backend inits numbered

def clockContext : Context := Result.get (clocks.executeGenesis initTxs 0) (by decide +kernel)

def openedAt (now : Nat)
    (h : (clocks.updateCurrentState (clocks.genesisDB 0 clockContext) now).isOk) : Node :=
  .start (clocks.genesisDB 0 clockContext) (Result.get _ h)
    [clocks.genesisPrepared 0 clockContext (Result.get _ h)]

def punctual : Node := openedAt 0 (by decide +kernel)

def delayed : Node := openedAt 1 (by decide +kernel)

def creation : List Transaction := [createTx [1]]

def creationParams : BuildBlockParams :=
  Result.get (clocks.prepareBlock punctual.db punctual.current (creation.map clocks.fullTx) 7).2
    (by decide +kernel)

def creationBuilt : ChainCommitBlockParams :=
  Result.get (clocks.buildBlock punctual.db creationParams) (by decide +kernel)

example : creationBuilt.header.number = 1 ∧ creationBuilt.header.payloadExecutionGap = 1 := by
  decide +kernel

theorem collisionFree_clocks : clocks.CollisionFree :=
  ⟨collisionFree.stateRoot, collisionFree.defaultHash, collisionFree.hashForHash⟩

theorem numbered_hashHeader (header header' : Header)
    (h : numbered.hashHeader header = numbered.hashHeader header') :
    header.number = header'.number :=
  (markNat_append_inj (Hash.mk.inj h)).1

theorem reach_openedAt {now : Nat}
    (h : (clocks.updateCurrentState (clocks.genesisDB 0 clockContext) now).isOk) :
    Reach clocks clocks.Builds initTxs 0 (openedAt now h) := by
  refine .genesis (fun tx htx => ?_) (Result.eq_ok_get _ _)
    (Result.eq_ok_get _ h)
  simp only [initTxs, List.mem_cons, List.not_mem_nil, or_false] at htx
  rcases htx with rfl | rfl
  · rfl
  · rfl

theorem twins_openedAt {now now' : Nat}
    (h : (clocks.updateCurrentState (clocks.genesisDB 0 clockContext) now).isOk)
    (h' : (clocks.updateCurrentState (clocks.genesisDB 0 clockContext) now').isOk) :
    Twins clocks initTxs 0 (openedAt now h) (openedAt now' h') where
  reach₁ := reach_openedAt h
  reach₂ := reach_openedAt h'
  sameChain := rfl
  current₁ := ⟨now, Result.eq_ok_get _ h⟩
  current₂ := ⟨now', Result.eq_ok_get _ h'⟩

end Sample

/-- The contract does not accept the call one millisecond later. -/
theorem not_honest_accepted_delayed :
    ¬ ∀ (lib : Library) (programs : Option Address → Call → Program (ModuleResult Bytes))
      (algorithms : Backend) (txs : List Transaction) (timestamp : Nat) (node₁ node₂ : Node),
      (lib.backend programs algorithms).CollisionFree →
      (∀ header header', algorithms.hashHeader header = algorithms.hashHeader header' →
        header.number = header'.number) →
      Twins (lib.backend programs algorithms) txs timestamp node₁ node₂ →
      node₁.current.executedNumber = node₂.current.executedNumber →
      node₁.current.confirmedNumber + 1 < 2 ^ 64 →
      ∀ (pool : List Transaction) now params built,
        ((lib.backend programs algorithms).prepareBlock node₁.db node₁.current
          (pool.map (lib.backend programs algorithms).fullTx) now).2 = .ok params →
        (lib.backend programs algorithms).buildBlock node₁.db params = .ok built →
        node₂.verifyProposal (lib.backend programs algorithms) (createProposal params built) =
          .ok built := by
  intro h
  have hverify := h Sample.clock Sample.inits Sample.numbered Sample.initTxs 0 Sample.punctual
    Sample.delayed Sample.collisionFree_clocks Sample.numbered_hashHeader
    (Sample.twins_openedAt _ _) (by decide +kernel) (by decide +kernel) Sample.creation 7
    Sample.creationParams Sample.creationBuilt (Result.eq_ok_get _ _)
    (Result.eq_ok_get _ _)
  have hrejected : (Sample.delayed.verifyProposal Sample.clocks
      (createProposal Sample.creationParams Sample.creationBuilt)).isOk = false := by
    decide +kernel
  rw [show Sample.delayed.verifyProposal Sample.clocks _ = _ from hverify] at hrejected
  cases hrejected

/-- A node whose current state was opened at the same time. -/
theorem honest_accepted_punctual :
    Sample.punctual.verifyProposal Sample.clocks
      (createProposal Sample.creationParams Sample.creationBuilt) = .ok Sample.creationBuilt := by
  refine (honest_accepted_iff Sample.collisionFree_clocks Sample.numbered_hashHeader
    (Sample.twins_openedAt _ _) rfl (by decide +kernel) (Result.eq_ok_get _ _)
    (Result.eq_ok_get _ _)).2 ⟨by decide +kernel, ?_, ?_, ?_⟩
  · intro header hheader
    have hall : (Sample.punctual.db.getHeader Sample.punctual.current.confirmedBlockHash).all
        (fun header => executionNumber header ≤ Sample.punctual.current.executedNumber) = true := by
      decide +kernel
    have hget : Sample.punctual.db.getHeader Sample.punctual.current.confirmedBlockHash =
        some header := hheader
    rw [hget] at hall
    exact of_decide_eq_true hall
  · exact List.pairwise_singleton _ _
  · intro tx htx _
    obtain rfl := List.mem_singleton.1 htx
    intro hruns
    decide +kernel

end Chain

end Finastate
