import Finastate.Chain.Deferred

/-!
# Nodes with the same chain

A database has no headers and no transactions but those of its chain, and its
executions are those of the sequential run. So two nodes with the same chain
read the same wherever the payload blocks were executed on both, and differ only
in how far that is.
-/

namespace Finastate.Chain

open Executor

/-- The headers and the transactions in the database are those of the chain. -/
structure DB.Contained (db : DB) (chain : List Prepared) : Prop where
  header : ∀ blockHash, (db.getHeader blockHash).isSome →
    ∃ p ∈ chain, p.params.blockHash = blockHash
  tx : ∀ txHash, (db.getTransaction txHash).isSome →
    ∃ p ∈ chain, txHash ∈ bodyHashes p.params.body

theorem DB.contained_empty : DB.empty.Contained [] := by
  constructor
  · intro blockHash hsome
    cases hsome
  · intro txHash hsome
    cases hsome

theorem DB.Contained.commitBlock {backend : Backend} {db : DB} {chain : List Prepared}
    {p : Prepared} (h : db.Contained chain) (hlisted : backend.Listed p) :
    (db.commitBlock p.params).Contained (chain ++ [p]) := by
  constructor
  · intro blockHash hsome
    rw [getHeader_commitBlock] at hsome
    split at hsome
    · next heq => exact ⟨p, by simp, heq.symm⟩
    · obtain ⟨q, hq, heq⟩ := h.header blockHash hsome
      exact ⟨q, List.mem_append_left _ hq, heq⟩
  · intro txHash hsome
    by_cases hmem : txHash ∈ bodyHashes p.params.body
    · exact ⟨p, by simp, hmem⟩
    · rw [hlisted.getTransaction_of_not_mem db hmem] at hsome
      obtain ⟨q, hq, hmem⟩ := h.tx txHash hsome
      exact ⟨q, List.mem_append_left _ hq, hmem⟩

section Contained

variable {backend : Backend} {Prepares : DB → CurrentState → Prepared → Prop}
  {txs : List Transaction} {timestamp : Nat} {node node' : Node}

theorem Step.contained (h : Step backend Prepares node node') (hstored : node.Stored backend)
    (hnode : node.db.Contained node.chain) : node'.db.Contained node'.chain := by
  cases h with
  | commit now hp =>
      rcases node.commit_cases backend now _ with heq | ⟨-, uninserted, -, heq⟩
      · rwa [heq]
      · rw [heq]
        exact hnode.commitBlock (hstored.prepared _ hp)
  | store hwork hbuilt => exact ⟨hnode.header, hnode.tx⟩
  | prepare h => exact hnode
  | insert h => exact hnode
  | lose task => exact hnode
  | take hidle hqueue h => exact hnode
  | build hwork hbuilt h => exact hnode
  | fail => exact hnode
  | refresh h => exact hnode
  | restart h => exact hnode

theorem Reach.contained (h : Reach backend Prepares txs timestamp node)
    (hlisted : ∀ db state p, Prepares db state p → backend.Listed p) :
    node.db.Contained node.chain := by
  induction h with
  | @genesis context now current hspec hexecute h =>
      have hlisted : backend.Listed (backend.genesisPrepared timestamp context current) :=
        backend.listed_genesisPrepared current hexecute
      have hempty := DB.contained_empty.commitBlock hlisted
      exact ⟨hempty.header, hempty.tx⟩
  | step hreach h ih => exact h.contained (hreach.stored hlisted) ih

end Contained

/-! ## What the databases say of the chain -/

/-- What makes a block: its hash, header and body. -/
def Prepared.block (p : Prepared) : Hash × Header × Body :=
  (p.params.blockHash, p.params.header, p.params.body)

def Node.SameChain (node₁ node₂ : Node) : Prop :=
  node₁.chain.map Prepared.block = node₂.chain.map Prepared.block

namespace Node.SameChain

variable {node₁ node₂ : Node} {p : Prepared} {k : ℕ}

theorem symm (h : node₁.SameChain node₂) : node₂.SameChain node₁ := Eq.symm h

theorem length_eq (h : node₁.SameChain node₂) : node₁.chain.length = node₂.chain.length := by
  simpa using congrArg List.length h

theorem getElem? (h : node₁.SameChain node₂) (hp : node₁.chain[k]? = some p) :
    ∃ q, node₂.chain[k]? = some q ∧ q.block = p.block := by
  have hk : (node₂.chain.map Prepared.block)[k]? = some p.block := by
    rw [← h, List.getElem?_map, hp]
    rfl
  rwa [List.getElem?_map, Option.map_eq_some_iff] at hk

theorem mem (h : node₁.SameChain node₂) (hp : p ∈ node₁.chain) :
    ∃ q ∈ node₂.chain, q.block = p.block := by
  obtain ⟨k, hk⟩ := List.mem_iff_getElem?.1 hp
  obtain ⟨q, hq, hblock⟩ := h.getElem? hk
  exact ⟨q, List.mem_of_getElem? hq, hblock⟩

theorem getBlockHash (h : node₁.SameChain node₂) (hchain₁ : node₁.db.Chained node₁.chain)
    (hchain₂ : node₂.db.Chained node₂.chain) (number : BlockNumber) :
    node₁.db.getBlockHash number = node₂.db.getBlockHash number := by
  have hhashes : node₁.chain.map (fun p => p.params.blockHash) =
      node₂.chain.map (fun p => p.params.blockHash) := by
    simpa [Prepared.block, Function.comp_def] using congrArg (List.map Prod.fst) h
  rw [hchain₁.blockHash, hchain₂.blockHash, ← List.getElem?_map, ← List.getElem?_map, hhashes]

/-- A header of one database is in the other. -/
theorem getHeader_of_some (h : node₁.SameChain node₂) (hchain₁ : node₁.db.Chained node₁.chain)
    (hcontained₁ : node₁.db.Contained node₁.chain) (hchain₂ : node₂.db.Chained node₂.chain)
    {blockHash : Hash} {header : Header} (hheader : node₁.db.getHeader blockHash = some header) :
    node₂.db.getHeader blockHash = some header := by
  obtain ⟨p, hp, rfl⟩ := hcontained₁.header blockHash (by rw [hheader]; rfl)
  obtain ⟨q, hq, hblock⟩ := h.mem hp
  obtain ⟨hhash, hrest⟩ := Prod.mk.inj hblock
  obtain ⟨hsame, -⟩ := Prod.mk.inj hrest
  rw [hchain₁.header p hp] at hheader
  rw [← hhash, hchain₂.header q hq, hsame, hheader]

theorem isSome_getTransaction (h : node₁.SameChain node₂) {backend : Backend}
    (hcontained₁ : node₁.db.Contained node₁.chain) (hstored₂ : node₂.Stored backend)
    {txHash : Hash} (hsome : (node₁.db.getTransaction txHash).isSome) :
    (node₂.db.getTransaction txHash).isSome := by
  obtain ⟨p, hp, hmem⟩ := hcontained₁.tx txHash hsome
  obtain ⟨q, hq, hblock⟩ := h.mem hp
  obtain ⟨-, hrest⟩ := Prod.mk.inj hblock
  obtain ⟨-, hbody⟩ := Prod.mk.inj hrest
  exact hstored₂.stored q hq txHash (hbody ▸ hmem)

end Node.SameChain

namespace Backend

variable {backend : Backend}

/-- Under one root two columns have the same state. -/
theorem Rooted.prepareGet_inj (hfree : backend.CollisionFree) {column₁ column₂ : List (Hash × StateMap)}
    (h₁ : backend.Rooted column₁) (h₂ : backend.Rooted column₂) {root : Hash} {m₁ m₂ : StateMap}
    (hget₁ : backend.prepareGet column₁ root = .ok m₁)
    (hget₂ : backend.prepareGet column₂ root = .ok m₂) : m₁ = m₂ := by
  unfold prepareGet at hget₁ hget₂
  split at hget₁
  · next hdefault =>
    rw [if_pos hdefault] at hget₂
    exact Except.ok.inj (hget₁.symm.trans hget₂)
  · next hdefault =>
    rw [if_neg hdefault] at hget₂
    split at hget₁
    · next hm₁ =>
      split at hget₂
      · next hm₂ =>
        cases hget₁
        cases hget₂
        exact hfree.stateRoot ((h₁ root m₁ hm₁).symm.trans (h₂ root m₂ hm₂))
      · cases hget₂
    · cases hget₁

/-- Blocks with the same body have the same payload transactions, but for the
signatures. -/
theorem Listed.covered_eq (hfree : backend.CollisionFree) {p q : Prepared}
    (hp : backend.Listed p) (hq : backend.Listed q) (hbody : p.params.body = q.params.body) :
    p.params.payloadTxs.map covered = q.params.payloadTxs.map covered := by
  have hhashes : p.params.payloadTxs.map FullTransaction.txHash =
      q.params.payloadTxs.map FullTransaction.txHash := by
    rw [hp.body, hq.body] at hbody
    exact (Body.mk.inj hbody).2
  have hinverse : ∀ {r : Prepared}, backend.Listed r →
      r.params.payloadTxs.map (fun tx => (backend.hashForHash tx.tx.forHash, tx.txHash)) =
        (r.params.payloadTxs.map FullTransaction.txHash).map fun txHash => (txHash, txHash) := by
    intro r hr
    rw [List.map_map]
    refine List.map_congr_left fun tx htx => ?_
    have hhash := hr.hashed tx (hr.mem_lists (List.mem_append_right _ htx))
    exact Prod.ext hhash.symm rfl
  have hinjective : Function.Injective
      (fun t : TransactionForHash × Hash => (backend.hashForHash t.1, t.2)) := by
    intro t t' h
    obtain ⟨hforHash, htxHash⟩ := Prod.mk.inj h
    exact Prod.ext (hfree.hashForHash hforHash) htxHash
  apply List.map_injective_iff.2 hinjective
  rw [List.map_map, List.map_map]
  exact (hinverse hp).trans ((congrArg _ hhashes).trans (hinverse hq).symm)

end Backend

section Nodes

variable {backend : Backend} {txs : List Transaction} {timestamp : Nat}
  {genesis : StateMap × Execution} {node₁ node₂ : Node}

/-- The sequential run of the same blocks ends in the same state. -/
theorem Node.SameChain.sequence_unique (hfree : backend.CollisionFree)
    (h : node₁.SameChain node₂) (hstored₁ : node₁.Stored backend)
    (hstored₂ : node₂.Stored backend) (hlinked₁ : node₁.Linked backend)
    (hlinked₂ : node₂.Linked backend) (hdeferred₁ : node₁.Deferred backend genesis)
    (hdeferred₂ : node₂.Deferred backend genesis) {k : ℕ} {m m' : StateMap}
    {execution execution' : Execution}
    (hsequence : backend.Sequence genesis node₁.chain k m execution)
    (hsequence' : backend.Sequence genesis node₂.chain k m' execution') :
    m = m' ∧ execution = execution' := by
  induction hsequence generalizing m' execution' with
  | genesis =>
      cases hsequence'
      exact ⟨rfl, rfl⟩
  | block hbefore hp hexecute ih =>
      cases hsequence' with
      | @block _ q _ _ _ _ hbefore' hq hexecute' =>
          obtain ⟨rfl, -⟩ := ih hbefore'
          obtain ⟨q', hq', hblock⟩ := h.getElem? hp
          obtain rfl := Option.some.inj (hq'.symm.trans hq)
          obtain ⟨-, hrest⟩ := Prod.mk.inj hblock
          obtain ⟨hheader, hbody⟩ := Prod.mk.inj hrest
          have hmem₁ := List.mem_of_getElem? hp
          have hmem₂ := List.mem_of_getElem? hq
          have hmetaState := hdeferred₂.metaState _ hmem₂
          rw [hheader] at hmetaState
          have hstate := hlinked₁.metaState.prepareGet_inj hfree hlinked₂.metaState
            (hdeferred₁.metaState _ hmem₁) hmetaState
          have hcovered := (hstored₁.chain _ hmem₁).covered_eq hfree (hstored₂.chain _ hmem₂)
            hbody.symm
          rw [Backend.executeBlock_congr hcovered, hstate, ← hheader, hexecute'] at hexecute
          obtain ⟨rfl, rfl⟩ := Prod.mk.inj (Except.ok.inj hexecute)
          exact ⟨rfl, rfl⟩

/-- The databases agree on the chain, and on the executions of the blocks that
were executed on both. -/
structure DB.Agree (backend : Backend) (db₁ db₂ : DB) (executed : BlockNumber) : Prop where
  confirmedNumber : db₁.confirmedNumber = db₂.confirmedNumber
  blockHash : ∀ number, db₁.getBlockHash number = db₂.getBlockHash number
  header : ∀ blockHash, db₁.getHeader blockHash = db₂.getHeader blockHash
  tx : ∀ txHash, (db₁.getTransaction txHash).isSome = (db₂.getTransaction txHash).isSome
  metaState : ∀ blockHash header, db₁.getHeader blockHash = some header →
    backend.prepareGet db₁.metaState header.metaStateRoot =
      backend.prepareGet db₂.metaState header.metaStateRoot
  execution : ∀ number blockHash, number ≤ executed → db₁.getBlockHash number = some blockHash →
    db₁.getExecution blockHash = db₂.getExecution blockHash
  payloadState : ∀ number blockHash execution, number ≤ executed →
    db₁.getBlockHash number = some blockHash → db₁.getExecution blockHash = some execution →
    backend.prepareGet db₁.payloadState execution.payloadExecutionStateRoot =
      backend.prepareGet db₂.payloadState execution.payloadExecutionStateRoot

/-- Nodes from one genesis with the same chain. -/
theorem Node.SameChain.agree (hfree : backend.CollisionFree)
    (h₁ : Reach backend backend.Builds txs timestamp node₁)
    (h₂ : Reach backend backend.Builds txs timestamp node₂) (h : node₁.SameChain node₂)
    {executed executed₁ executed₂ : BlockNumber}
    (hexecuted₁ : node₁.db.executionNumber = some executed₁)
    (hexecuted₂ : node₂.db.executionNumber = some executed₂)
    (hle₁ : executed ≤ executed₁) (hle₂ : executed ≤ executed₂) :
    node₁.db.Agree backend node₂.db executed := by
  have hlisted : ∀ db state p, backend.Builds db state p → backend.Listed p :=
    fun _ _ _ hbuilds => hbuilds.grounded.2
  have hchain₁ := h₁.chained
  have hchain₂ := h₂.chained
  have hstored₁ := h₁.stored hlisted
  have hstored₂ := h₂.stored hlisted
  have hcontained₁ := h₁.contained hlisted
  have hcontained₂ := h₂.contained hlisted
  have hlinked₁ := h₁.linked hfree
  have hlinked₂ := h₂.linked hfree
  obtain ⟨context, hcontext, hdeferred₁⟩ := h₁.deferred hfree
  obtain ⟨context', hcontext', hdeferred₂⟩ := h₂.deferred hfree
  obtain rfl := Except.ok.inj (hcontext.symm.trans hcontext')
  have hheader : ∀ blockHash, node₁.db.getHeader blockHash = node₂.db.getHeader blockHash := by
    intro blockHash
    apply Option.ext
    intro header
    exact ⟨h.getHeader_of_some hchain₁ hcontained₁ hchain₂,
      h.symm.getHeader_of_some hchain₂ hcontained₂ hchain₁⟩
  -- The executions up to `executed` are there on both nodes.
  have hexecution : ∀ number blockHash, number ≤ executed →
      node₁.db.getBlockHash number = some blockHash →
      ∃ execution m, node₁.db.getExecution blockHash = some execution ∧
        node₂.db.getExecution blockHash = some execution ∧
        backend.prepareGet node₁.db.payloadState execution.payloadExecutionStateRoot = .ok m ∧
        backend.prepareGet node₂.db.payloadState execution.payloadExecutionStateRoot = .ok m := by
    intro number blockHash hle hhash
    obtain ⟨number₁, hexecuting₁⟩ := h₁.executing
    obtain ⟨number₂, hexecuting₂⟩ := h₂.executing
    obtain rfl := Option.some.inj (hexecuting₁.stored.symm.trans hexecuted₁)
    obtain rfl := Option.some.inj (hexecuting₂.stored.symm.trans hexecuted₂)
    obtain ⟨p, hp, hsome₁⟩ := hexecuting₁.executions number (hle.trans hle₁)
    obtain ⟨q, hq, hsome₂⟩ := hexecuting₂.executions number (hle.trans hle₂)
    obtain ⟨execution, hget₁⟩ := Option.isSome_iff_exists.1 hsome₁
    obtain ⟨execution', hget₂⟩ := Option.isSome_iff_exists.1 hsome₂
    obtain ⟨m, hsequence₁, hstate₁⟩ := hdeferred₁.execution number p hp execution hget₁
    obtain ⟨m', hsequence₂, hstate₂⟩ := hdeferred₂.execution number q hq execution' hget₂
    obtain ⟨rfl, rfl⟩ := h.sequence_unique hfree hstored₁ hstored₂ hlinked₁ hlinked₂ hdeferred₁
      hdeferred₂ hsequence₁ hsequence₂
    have hhash₂ := hhash
    rw [h.getBlockHash hchain₁ hchain₂, hchain₂.blockHash, hq] at hhash₂
    rw [hchain₁.blockHash, hp] at hhash
    obtain rfl : p.params.blockHash = blockHash := Option.some.inj hhash
    have heq : q.params.blockHash = p.params.blockHash := Option.some.inj hhash₂
    rw [heq] at hget₂
    exact ⟨execution, m, hget₁, hget₂, hstate₁, hstate₂⟩
  constructor
  case confirmedNumber =>
    obtain ⟨number₁, hnumber₁, hlength₁⟩ := hchain₁.confirmed
    obtain ⟨number₂, hnumber₂, hlength₂⟩ := hchain₂.confirmed
    have hlength := h.length_eq
    rw [hlength₁, hlength₂] at hlength
    rw [hnumber₁, hnumber₂, Nat.succ.inj hlength]
  case blockHash => exact h.getBlockHash hchain₁ hchain₂
  case header => exact hheader
  case tx =>
    intro txHash
    exact Bool.eq_iff_iff.2 ⟨h.isSome_getTransaction hcontained₁ hstored₂,
      h.symm.isSome_getTransaction hcontained₂ hstored₁⟩
  case metaState =>
    intro blockHash header hget
    have hget₂ := hget
    rw [hheader] at hget₂
    obtain ⟨p, hp, rfl⟩ := hcontained₁.header blockHash (by rw [hget]; rfl)
    obtain ⟨q, hq, hhash⟩ := hcontained₂.header p.params.blockHash (by rw [hget₂]; rfl)
    rw [hchain₁.header p hp] at hget
    rw [← hhash, hchain₂.header q hq] at hget₂
    obtain rfl := Option.some.inj hget
    have hstate₁ := hdeferred₁.metaState p hp
    have hstate₂ := hdeferred₂.metaState q hq
    rw [Option.some.inj hget₂] at hstate₂
    rw [hstate₁, hstate₂, hlinked₁.metaState.prepareGet_inj hfree hlinked₂.metaState hstate₁ hstate₂]
  case execution =>
    intro number blockHash hle hhash
    obtain ⟨execution, m, hget₁, hget₂, -, -⟩ := hexecution number blockHash hle hhash
    rw [hget₁, hget₂]
  case payloadState =>
    intro number blockHash execution hle hhash hget
    obtain ⟨execution', m, hget₁, -, hstate₁, hstate₂⟩ := hexecution number blockHash hle hhash
    obtain rfl := Option.some.inj (hget₁.symm.trans hget)
    rw [hstate₁, hstate₂]

end Nodes

end Finastate.Chain
