import Finastate.Chain.Run

/-!
# The chain in the database

Whatever blocks the threads of a node prepare, `commit_block` takes only one
that is new and follows the confirmed block. That alone makes the database hold
a single chain, the one `chain` records (`Reach.chained`).
-/

namespace Finastate.Chain

open Executor

/-- The database holds these blocks, in this order from the genesis on. -/
structure DB.Chained (db : DB) (chain : List Prepared) : Prop where
  confirmed : ∃ number, db.confirmedNumber = some number ∧ chain.length = number + 1
  nodup : (db.blockHash.map Prod.fst).Nodup
  blockHash : ∀ k, db.getBlockHash k = chain[k]?.map fun p : Prepared => p.params.blockHash
  header : ∀ p ∈ chain, db.getHeader p.params.blockHash = some p.params.header
  body : ∀ p ∈ chain, db.getBody p.params.blockHash = some p.params.body
  proof : ∀ p ∈ chain, db.getProof p.params.blockHash = some p.params.proof
  number : ∀ (k : ℕ) (p : Prepared), chain[k]? = some p → p.params.header.number = k
  parent : ∀ (k : ℕ) (p q : Prepared), chain[k]? = some p → chain[k + 1]? = some q →
    q.params.header.parentHash = p.params.blockHash

/-- The entries of a list with one more at its end. -/
theorem getElem?_snoc {α : Type} {l : List α} {a b : α} {k : ℕ}
    (h : (l ++ [a])[k]? = some b) : l[k]? = some b ∨ k = l.length ∧ a = b := by
  rw [List.getElem?_append] at h
  split at h
  · exact .inl h
  · next hk =>
    obtain ⟨hlt, hget⟩ := List.getElem?_eq_some_iff.1 h
    rw [List.length_singleton, Nat.lt_one_iff] at hlt
    refine .inr ⟨by omega, ?_⟩
    simpa [hlt] using hget

namespace DB

variable {db : DB} {chain : List Prepared} {p : Prepared}

@[simp] theorem getBlockHash_commitBlock (db : DB) (params : ChainCommitBlockParams)
    (number : BlockNumber) :
    (db.commitBlock params).getBlockHash number =
      if number = params.header.number then some params.blockHash else db.getBlockHash number :=
  AssocMap.get?_insert ..

@[simp] theorem getHeader_commitBlock (db : DB) (params : ChainCommitBlockParams)
    (blockHash : Hash) :
    (db.commitBlock params).getHeader blockHash =
      if blockHash = params.blockHash then some params.header else db.getHeader blockHash :=
  AssocMap.get?_insert ..

@[simp] theorem getBody_commitBlock (db : DB) (params : ChainCommitBlockParams)
    (blockHash : Hash) :
    (db.commitBlock params).getBody blockHash =
      if blockHash = params.blockHash then some params.body else db.getBody blockHash := by
  simp only [getBody, commitBlock, AssocMap.get?_insert]
  by_cases h : blockHash = params.blockHash
  · simp [h]
  · simp [h]

@[simp] theorem getProof_commitBlock (db : DB) (params : ChainCommitBlockParams)
    (blockHash : Hash) :
    (db.commitBlock params).getProof blockHash =
      if blockHash = params.blockHash then some params.proof else db.getProof blockHash :=
  AssocMap.get?_insert ..

namespace Chained

/-- The block hash of a stored block is not that of a new one. -/
theorem ne_of_fresh (h : db.Chained chain) {blockHash : Hash}
    (hfresh : db.getHeader blockHash = none) (hp : p ∈ chain) :
    p.params.blockHash ≠ blockHash := by
  rintro rfl
  rw [h.header p hp] at hfresh
  cases hfresh

/-- The block before the next one. -/
theorem last (h : db.Chained chain) (hplaced : db.Placed p.params) :
    p.params.header.number = chain.length ∧
      ∃ q, chain[chain.length - 1]? = some q ∧
        p.params.header.parentHash = q.params.blockHash := by
  obtain ⟨number, hnumber, hnext, hparent⟩ := hplaced.next
  obtain ⟨number', hnumber', hlength⟩ := h.confirmed
  obtain rfl : number' = number := Option.some.inj (hnumber'.symm.trans hnumber)
  rw [h.blockHash, Option.map_eq_some_iff] at hparent
  obtain ⟨q, hq, heq⟩ := hparent
  refine ⟨hnext.trans hlength.symm, q, ?_, heq.symm⟩
  rw [hlength, Nat.add_sub_cancel]
  exact hq

theorem commitBlock (h : db.Chained chain) (hplaced : db.Placed p.params) :
    (db.commitBlock p.params).Chained (chain ++ [p]) := by
  obtain ⟨hnumber, q, hq, hparent⟩ := h.last hplaced
  have hne : ∀ p' ∈ chain, p'.params.blockHash ≠ p.params.blockHash :=
    fun p' hp' => h.ne_of_fresh hplaced.fresh hp'
  constructor
  case confirmed => exact ⟨p.params.header.number, rfl, by simp [hnumber]⟩
  case nodup => exact AssocMap.nodup_keys_insert _ _ h.nodup
  case blockHash =>
    intro k
    rw [getBlockHash_commitBlock, h.blockHash, hnumber, List.getElem?_append]
    by_cases hk : k < chain.length
    · simp [hk, hk.ne]
    · by_cases hlast : k = chain.length
      · simp [hlast]
      · have hlt : chain.length < k := Nat.lt_of_le_of_ne (not_lt.1 hk) (Ne.symm hlast)
        have hnone : chain[k]? = none := List.getElem?_eq_none hlt.le
        have hone : [p][k - chain.length]? = none :=
          List.getElem?_eq_none (Nat.sub_pos_of_lt hlt)
        rw [if_neg hlast, if_neg hk, hnone, hone]
  case header =>
    intro p' hp'
    rw [getHeader_commitBlock]
    rcases List.mem_append.1 hp' with hp' | hp'
    · rw [if_neg (hne p' hp'), h.header p' hp']
    · obtain rfl := List.mem_singleton.1 hp'
      exact if_pos rfl
  case body =>
    intro p' hp'
    rw [getBody_commitBlock]
    rcases List.mem_append.1 hp' with hp' | hp'
    · rw [if_neg (hne p' hp'), h.body p' hp']
    · obtain rfl := List.mem_singleton.1 hp'
      exact if_pos rfl
  case proof =>
    intro p' hp'
    rw [getProof_commitBlock]
    rcases List.mem_append.1 hp' with hp' | hp'
    · rw [if_neg (hne p' hp'), h.proof p' hp']
    · obtain rfl := List.mem_singleton.1 hp'
      exact if_pos rfl
  case number =>
    intro k p' hk
    rcases getElem?_snoc hk with hk | ⟨rfl, rfl⟩
    · exact h.number k p' hk
    · exact hnumber
  case parent =>
    intro k p' q' hk hsucc
    rcases getElem?_snoc hsucc with hsucc | ⟨hlast, rfl⟩
    · refine h.parent k p' q' ?_ hsucc
      rwa [List.getElem?_append_left (Nat.lt_of_succ_lt (List.getElem?_eq_some_iff.1 hsucc).1)]
        at hk
    · have hpred : k = chain.length - 1 := by omega
      rw [List.getElem?_append_left (by omega), hpred, hq] at hk
      cases hk
      exact hparent

theorem commitExecution (h : db.Chained chain) (params : ChainCommitExecutionParams) :
    (db.commitExecution params).Chained chain :=
  ⟨h.confirmed, h.nodup, h.blockHash, h.header, h.body, h.proof, h.number, h.parent⟩

end Chained

end DB

theorem Backend.chained_genesis (backend : Backend) (timestamp : Nat) (context : Context)
    (current : CurrentState) :
    (backend.genesisDB timestamp context).Chained
      [backend.genesisPrepared timestamp context current] := by
  have hdb : (DB.empty.commitBlock (backend.genesisBlock timestamp context)).Chained
      [backend.genesisPrepared timestamp context current] := by
    have hmem : ∀ p ∈ [backend.genesisPrepared timestamp context current],
        p.params = backend.genesisBlock timestamp context := by
      intro p hp
      rw [List.mem_singleton.1 hp]
      rfl
    constructor
    case confirmed => exact ⟨0, rfl, rfl⟩
    case nodup => exact AssocMap.nodup_keys_insert _ _ List.nodup_nil
    case blockHash =>
      intro k
      rw [DB.getBlockHash_commitBlock]
      cases k with
      | zero => rfl
      | succ k => rfl
    case header =>
      intro p hp
      rw [DB.getHeader_commitBlock, hmem p hp, if_pos rfl]
    case body =>
      intro p hp
      rw [DB.getBody_commitBlock, hmem p hp, if_pos rfl]
    case proof =>
      intro p hp
      rw [DB.getProof_commitBlock, hmem p hp, if_pos rfl]
    case number =>
      intro k p hp
      cases k with
      | zero =>
          cases hp
          rfl
      | succ k => cases hp
    case parent =>
      intro k p q hp hq
      cases hq
  exact hdb.commitExecution _

variable {backend : Backend} {Prepares : DB → CurrentState → Prepared → Prop}
  {txs : List Transaction} {timestamp : Nat} {node node' : Node}

theorem Step.chained (h : Step backend Prepares node node') (hchain : node.db.Chained node.chain) :
    node'.db.Chained node'.chain := by
  cases h with
  | commit now hp =>
      rcases node.commit_cases backend now _ with heq | ⟨hplaced, uninserted, -, heq⟩
      · rwa [heq]
      · rw [heq]
        exact hchain.commitBlock hplaced
  | store hwork hbuilt => exact hchain.commitExecution _
  | prepare h => exact hchain
  | insert h => exact hchain
  | lose task => exact hchain
  | take hidle hqueue h => exact hchain
  | build hwork hbuilt h => exact hchain
  | fail => exact hchain
  | refresh h => exact hchain
  | restart h => exact hchain

theorem Reach.chained (h : Reach backend Prepares txs timestamp node) :
    node.db.Chained node.chain := by
  induction h with
  | genesis hspec hexecute h => exact backend.chained_genesis _ _ _
  | step hreach h ih => exact h.chained ih

/-! ## The lists of the blocks -/

/-- The hashes in a body. -/
def bodyHashes (body : Body) : List Hash := body.metaTxs ++ body.payloadTxs

/-- How the lists of a block come from those it was built with: the hashes are
those of the transactions, the meta list is kept or dropped, the payload list
is kept. -/
structure Backend.Listed (backend : Backend) (p : Prepared) : Prop where
  hashed : ∀ tx ∈ p.metaTxs ++ p.payloadTxs, tx.txHash = backend.hashTransaction tx.tx
  metaTxs : p.params.metaTxs = p.metaTxs ∨ p.params.metaTxs = []
  payloadTxs : p.params.payloadTxs = p.payloadTxs
  body : p.params.body =
    { metaTxs := p.params.metaTxs.map FullTransaction.txHash
      payloadTxs := p.params.payloadTxs.map FullTransaction.txHash }

section Listed

variable {backend : Backend}

theorem DB.getTransaction_commitBlock (db : DB) (params : ChainCommitBlockParams)
    (txHash : Hash) :
    (db.commitBlock params).getTransaction txHash =
      AssocMap.get? (DB.putTxs params.payloadTxs (DB.putTxs params.metaTxs db.tx)) txHash := rfl

/-- What a block stores it has from its lists. -/
theorem Backend.Listed.mem_lists {p : Prepared} (h : backend.Listed p) {tx : FullTransaction}
    (htx : tx ∈ p.params.metaTxs ++ p.params.payloadTxs) : tx ∈ p.metaTxs ++ p.payloadTxs := by
  rcases List.mem_append.1 htx with htx | htx
  · rcases h.metaTxs with heq | heq
    · exact List.mem_append_left _ (heq ▸ htx)
    · rw [heq] at htx
      cases htx
  · exact List.mem_append_right _ (h.payloadTxs ▸ htx)

theorem Backend.Listed.mem_bodyHashes {p : Prepared} (h : backend.Listed p) {txHash : Hash} :
    txHash ∈ bodyHashes p.params.body ↔
      ∃ tx ∈ p.params.metaTxs ++ p.params.payloadTxs, tx.txHash = txHash := by
  rw [bodyHashes, h.body, ← List.map_append, List.mem_map]

/-- Of the transactions with a hash in the body the last one is stored. -/
theorem Backend.Listed.getTransaction {p : Prepared} (h : backend.Listed p) (db : DB)
    {txHash : Hash} (hmem : txHash ∈ bodyHashes p.params.body) :
    ∃ tx ∈ p.metaTxs ++ p.payloadTxs, tx.txHash = txHash ∧
      (db.commitBlock p.params).getTransaction txHash = some tx.tx := by
  rw [DB.getTransaction_commitBlock]
  by_cases hpayload : txHash ∈ p.params.payloadTxs.map FullTransaction.txHash
  · obtain ⟨tx, htx, heq, hget⟩ := DB.get?_putTxs_of_mem hpayload
    exact ⟨tx, h.mem_lists (List.mem_append_right _ htx), heq, hget⟩
  · have hmeta : txHash ∈ p.params.metaTxs.map FullTransaction.txHash := by
      rw [bodyHashes, h.body] at hmem
      exact (List.mem_append.1 hmem).resolve_right hpayload
    obtain ⟨tx, htx, heq, hget⟩ := DB.get?_putTxs_of_mem hmeta
    refine ⟨tx, h.mem_lists (List.mem_append_left _ htx), heq, ?_⟩
    rw [DB.get?_putTxs_of_not_mem hpayload]
    exact hget

/-- A hash that no body of the block has is looked up as before. -/
theorem Backend.Listed.getTransaction_of_not_mem {p : Prepared} (h : backend.Listed p) (db : DB)
    {txHash : Hash} (hmem : txHash ∉ bodyHashes p.params.body) :
    (db.commitBlock p.params).getTransaction txHash = db.getTransaction txHash := by
  rw [bodyHashes, h.body, List.mem_append, not_or] at hmem
  rw [DB.getTransaction_commitBlock, DB.get?_putTxs_of_not_mem hmem.2,
    DB.get?_putTxs_of_not_mem hmem.1]
  rfl

end Listed

/-! ## The genesis block -/

namespace Backend

variable {backend : Backend}

theorem buildGenesis_eq_ok {txs : List Transaction} {metaTxs payloadTxs : List FullTransaction}
    (h : backend.buildGenesis txs = .ok (metaTxs, payloadTxs)) :
    (metaTxs ++ payloadTxs).Perm (txs.map backend.fullTx) ∧
      (∀ tx ∈ metaTxs, backend.dispatcher.isMeta tx.tx.call.module = .ok true) ∧
      ∀ tx ∈ payloadTxs, backend.dispatcher.isMeta tx.tx.call.module = .ok false := by
  induction txs generalizing metaTxs payloadTxs with
  | nil =>
      cases h
      exact ⟨.refl _, nofun, nofun⟩
  | cons tx txs ih =>
      unfold buildGenesis at h
      split at h
      · cases h
      · next isMeta hisMeta =>
        split at h
        · cases h
        · next metaTxs' payloadTxs' hrest =>
          obtain ⟨hperm, hmeta, hpayload⟩ := ih hrest
          cases isMeta with
          | true =>
              cases h
              refine ⟨hperm.cons _, ?_, hpayload⟩
              intro tx' htx'
              rcases List.mem_cons.1 htx' with rfl | htx'
              · exact hisMeta
              · exact hmeta tx' htx'
          | false =>
              cases h
              refine ⟨List.perm_middle.trans (hperm.cons _), hmeta, ?_⟩
              intro tx' htx'
              rcases List.mem_cons.1 htx' with rfl | htx'
              · exact hisMeta
              · exact hpayload tx' htx'

theorem txs_validateGenesis {c c' : Context} {txs : List FullTransaction}
    (h : backend.validateGenesis c txs = .ok c') : c'.txs = c.txs := by
  induction txs generalizing c with
  | nil =>
      cases h
      rfl
  | cons tx txs ih =>
      obtain ⟨isMeta, hkeeps⟩ :=
        backend.validates.validateTx backend.defaultHash c tx.tx false
      unfold validateGenesis at h
      generalize backend.validator.validateTx _ _ _ _ = out at h hkeeps
      obtain ⟨c₁, result⟩ := out
      cases result with
      | error e => cases h
      | ok u => exact (ih h).trans hkeeps.txs

/-- The genesis block has the transactions of the spec, each in the list of its
kind. -/
theorem executeGenesis_eq_ok {txs : List Transaction} {timestamp : Nat} {context : Context}
    (h : backend.executeGenesis txs timestamp = .ok context) :
    (context.metaTxs ++ context.payloadTxs).Perm (txs.map backend.fullTx) := by
  obtain ⟨⟨metaTxs, payloadTxs⟩, hbuild, h⟩ := Result.bind_eq_ok.1 h
  obtain ⟨c₁, hvalidMeta, h⟩ := Result.bind_eq_ok.1 h
  obtain ⟨c₂, hvalidPayload, h⟩ := Result.bind_eq_ok.1 h
  obtain ⟨hperm, hmeta, hpayload⟩ := buildGenesis_eq_ok hbuild
  have htxs : c₂.txs = (Context.new { number := 0, timestamp } [] []).txs :=
    (txs_validateGenesis hvalidPayload).trans (txs_validateGenesis hvalidMeta)
  simp only at h
  split at h
  · cases h
  · next c₃ _ hexecuteMeta =>
    split at h
    · cases h
    · next c₄ _ hexecutePayload =>
      cases h
      obtain ⟨hmetaTxs, hotherTxs⟩ :=
        Executor.executeTxs_txs backend.modular hmeta hexecuteMeta
      obtain ⟨hpayloadTxs, hkeptTxs⟩ :=
        Executor.executeTxs_txs backend.modular hpayload hexecutePayload
      have hmetaTxs' : context.metaTxs = metaTxs := by
        have h₄ : context.metaTxs = c₃.metaTxs := hkeptTxs
        have h₃ : c₃.metaTxs = c₂.txs true ++ metaTxs := hmetaTxs
        rw [h₄, h₃, htxs]
        rfl
      have hpayloadTxs' : context.payloadTxs = payloadTxs := by
        have h₄ : context.payloadTxs = c₃.txs false ++ payloadTxs := hpayloadTxs
        have h₃ : c₃.txs false = c₂.txs false := hotherTxs
        rw [h₄, h₃, htxs]
        rfl
      rw [hmetaTxs', hpayloadTxs']
      exact hperm

end Backend

theorem hashed_of_perm {backend : Backend} {txs : List Transaction} {fullTxs : List FullTransaction}
    (h : fullTxs.Perm (txs.map backend.fullTx)) :
    ∀ tx ∈ fullTxs, tx.txHash = backend.hashTransaction tx.tx := by
  intro tx htx
  obtain ⟨tx', -, rfl⟩ := List.mem_map.1 (h.subset htx)
  rfl

theorem Backend.listed_genesisPrepared {backend : Backend} {txs : List Transaction}
    {timestamp : Nat} {context : Context} (current : CurrentState)
    (h : backend.executeGenesis txs timestamp = .ok context) :
    backend.Listed (backend.genesisPrepared timestamp context current) :=
  ⟨hashed_of_perm (executeGenesis_eq_ok h), .inl rfl, rfl, rfl⟩

theorem Backend.Listed.of_proof {backend : Backend} {p : Prepared} (h : backend.Listed p)
    (proof : Proof) : backend.Listed { p with params := { p.params with proof } } :=
  ⟨h.hashed, h.metaTxs, h.payloadTxs, h.body⟩

/-! ## The stored transactions -/

/-- Every transaction of the chain is stored, under its hash. -/
structure Node.Stored (backend : Backend) (node : Node) : Prop where
  prepared : ∀ p ∈ node.prepared, backend.Listed p
  chain : ∀ p ∈ node.chain, backend.Listed p
  stored : ∀ p ∈ node.chain, ∀ txHash ∈ bodyHashes p.params.body,
    (node.db.getTransaction txHash).isSome
  hashed : ∀ txHash tx, node.db.getTransaction txHash = some tx →
    backend.hashTransaction tx = txHash

theorem Node.Stored.commit {backend : Backend} {node : Node} (h : node.Stored backend)
    {p : Prepared} (hp : p ∈ node.prepared) (uninserted : List ExecuteTask) :
    Node.Stored backend
      { node with
        db := node.db.commitBlock p.params
        uninserted := uninserted
        chain := node.chain ++ [p] } := by
  have hlisted := h.prepared p hp
  constructor
  case prepared => exact h.prepared
  case chain =>
    intro q hq
    rcases List.mem_append.1 hq with hq | hq
    · exact h.chain q hq
    · obtain rfl := List.mem_singleton.1 hq
      exact hlisted
  case stored =>
    intro q hq txHash hmem
    rcases List.mem_append.1 hq with hq | hq
    · exact DB.isSome_putTxs (DB.isSome_putTxs (h.stored q hq txHash hmem))
    · obtain rfl := List.mem_singleton.1 hq
      obtain ⟨tx, -, -, hget⟩ := hlisted.getTransaction node.db hmem
      rw [hget]
      rfl
  case hashed =>
    intro txHash tx hget
    by_cases hmem : txHash ∈ bodyHashes p.params.body
    · obtain ⟨tx', htx', rfl, hget'⟩ := hlisted.getTransaction node.db hmem
      obtain rfl := Option.some.inj (hget'.symm.trans hget)
      exact (hlisted.hashed tx' htx').symm
    · rw [hlisted.getTransaction_of_not_mem node.db hmem] at hget
      exact h.hashed txHash tx hget

theorem Node.Stored.of_genesis {backend : Backend} {txs : List Transaction} {timestamp : Nat}
    {context : Context} (current : CurrentState)
    (h : backend.executeGenesis txs timestamp = .ok context) :
    Node.Stored backend
      (.start (backend.genesisDB timestamp context) current
        [backend.genesisPrepared timestamp context current]) := by
  have hlisted := Backend.listed_genesisPrepared current h
  constructor
  case prepared => rintro _ ⟨⟩
  case chain =>
    intro p hp
    rw [List.mem_singleton.1 hp]
    exact hlisted
  case stored =>
    intro p hp txHash hmem
    obtain rfl := List.mem_singleton.1 hp
    obtain ⟨tx, -, -, hget⟩ := hlisted.getTransaction .empty hmem
    exact Option.isSome_iff_exists.2 ⟨tx.tx, hget⟩
  case hashed =>
    intro txHash tx hget
    by_cases hmem : txHash ∈ bodyHashes (backend.genesisBlock timestamp context).body
    · obtain ⟨tx', htx', rfl, hget'⟩ := hlisted.getTransaction .empty hmem
      obtain rfl := Option.some.inj (hget'.symm.trans hget)
      exact (hlisted.hashed tx' htx').symm
    · have hnone := hlisted.getTransaction_of_not_mem .empty hmem
      cases hnone.symm.trans hget

section Stored

variable {backend : Backend} {Prepares : DB → CurrentState → Prepared → Prop}
  {txs : List Transaction} {timestamp : Nat} {node node' : Node}

theorem Step.stored (h : Step backend Prepares node node')
    (hlisted : ∀ db state p, Prepares db state p → backend.Listed p)
    (hstored : node.Stored backend) : node'.Stored backend := by
  cases h with
  | prepare h =>
      refine { hstored with prepared := fun q hq => ?_ }
      rcases List.mem_cons.1 hq with rfl | hq
      · exact hlisted _ _ _ h
      · exact hstored.prepared q hq
  | commit now hp =>
      rcases node.commit_cases backend now _ with heq | ⟨-, uninserted, -, heq⟩
      · rwa [heq]
      · rw [heq]
        exact hstored.commit hp uninserted
  | restart h => exact { hstored with prepared := List.forall_mem_nil _ }
  | insert h => exact { hstored with }
  | lose task => exact { hstored with }
  | take hidle hqueue h => exact { hstored with }
  | build hwork hbuilt h => exact { hstored with }
  | store hwork hbuilt => exact { hstored with }
  | fail => exact { hstored with }
  | refresh h => exact { hstored with }

theorem Reach.stored (h : Reach backend Prepares txs timestamp node)
    (hlisted : ∀ db state p, Prepares db state p → backend.Listed p) : node.Stored backend := by
  induction h with
  | genesis hspec hexecute h => exact .of_genesis _ hexecute
  | step hreach h ih => exact h.stored hlisted ih

end Stored

end Finastate.Chain
