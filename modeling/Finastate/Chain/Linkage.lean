import Finastate.Executor.Covered
import Finastate.Chain.Replay

/-!
# Linked blocks

A block is built on whatever the database held at that moment, and committed
on what it holds later. What the block was built from is still there: blocks
are only added, and a state column can only grow as long as no two states have
the same root. So what holds when a block is built holds when it is committed,
and ever after.
-/

namespace Finastate.Chain

open Executor

namespace Backend

/-- No two states have the same root, none but the empty one that of zeros, and
no two transactions have the same hash but for their signatures. -/
structure CollisionFree (backend : Backend) : Prop where
  stateRoot : Function.Injective backend.stateRoot
  defaultHash : ∀ m, backend.stateRoot m = backend.defaultHash → m = .empty
  hashForHash : Function.Injective backend.hashForHash

/-- The states of a column are under their roots. -/
def Rooted (backend : Backend) (column : List (Hash × StateMap)) : Prop :=
  ∀ root m, AssocMap.get? column root = some m → root = backend.stateRoot m

variable {backend : Backend} {column column' : List (Hash × StateMap)} {m : StateMap}

theorem Rooted.insert (h : backend.Rooted column) (m : StateMap) :
    backend.Rooted (AssocMap.insert column (backend.stateRoot m) m) := by
  intro root m' hget
  rw [AssocMap.get?_insert] at hget
  split at hget
  · next heq =>
    rw [heq, Option.some.inj hget]
  · exact h root m' hget

theorem Rooted.extends_insert (h : backend.Rooted column) (hfree : backend.CollisionFree)
    (m : StateMap) :
    AssocMap.Extends column (AssocMap.insert column (backend.stateRoot m) m) :=
  .insert fun m' hget => (hfree.stateRoot (h _ m' hget)).symm

theorem prepareGet_of_extends (h : AssocMap.Extends column column') {root : Hash}
    (hget : backend.prepareGet column root = .ok m) :
    backend.prepareGet column' root = .ok m := by
  unfold prepareGet at hget ⊢
  split at hget
  · next hroot =>
    rw [if_pos hroot]
    exact hget
  · next hroot =>
    rw [if_neg hroot]
    split at hget
    · next m' hm' =>
      cases hget
      rw [h root m hm']
    · cases hget

end Backend

namespace DB

/-- What was read of headers and states can still be read. -/
structure Grows (db db' : DB) : Prop where
  header : AssocMap.Extends db.header db'.header
  metaState : AssocMap.Extends db.metaState db'.metaState
  payloadState : AssocMap.Extends db.payloadState db'.payloadState

namespace Grows

variable {backend : Backend} {db db' : DB}

theorem refl (db : DB) : Grows db db := ⟨.refl _, .refl _, .refl _⟩

theorem contextEssence (h : Grows db db') {env : ContextEnv}
    {metaStateRoot payloadStateRoot : Hash} {essence : ContextEssence}
    (hessence : backend.contextEssence db env metaStateRoot payloadStateRoot = .ok essence) :
    backend.contextEssence db' env metaStateRoot payloadStateRoot = .ok essence := by
  obtain ⟨henv, hmeta, hpayload⟩ := Backend.contextEssence_eq_ok hessence
  rw [← henv]
  exact Backend.contextEssence_of_prepareGet (Backend.prepareGet_of_extends h.metaState hmeta)
    (Backend.prepareGet_of_extends h.payloadState hpayload)

theorem commitBlock (hfree : backend.CollisionFree) (hrooted : backend.Rooted db.metaState)
    {params : ChainCommitBlockParams} (hfresh : db.getHeader params.blockHash = none)
    (hroot : params.metaTransaction.1 = backend.stateRoot params.metaTransaction.2) :
    Grows db (db.commitBlock params) := by
  constructor
  · refine AssocMap.Extends.insert fun header hheader => ?_
    rw [DB.getHeader, hheader] at hfresh
    cases hfresh
  · change AssocMap.Extends _ (AssocMap.insert _ params.metaTransaction.1 _)
    rw [hroot]
    exact hrooted.extends_insert hfree _
  · exact .refl _

theorem commitExecution (hfree : backend.CollisionFree) (hrooted : backend.Rooted db.payloadState)
    {params : ChainCommitExecutionParams}
    (hroot : params.payloadTransaction.1 = backend.stateRoot params.payloadTransaction.2) :
    Grows db (db.commitExecution params) := by
  constructor
  · exact .refl _
  · exact .refl _
  · change AssocMap.Extends _ (AssocMap.insert _ params.payloadTransaction.1 _)
    rw [hroot]
    exact hrooted.extends_insert hfree _

end Grows

end DB

/-! ## Built blocks -/

namespace Backend

variable (backend : Backend)

/-- A thread has built the block on the database of the node. The transactions
come with their hashes, and the block gets its proof afterwards. -/
structure Builds (db : DB) (state : CurrentState) (p : Prepared) : Prop where
  hashed : ∀ tx ∈ p.metaTxs ++ p.payloadTxs, tx.txHash = backend.hashTransaction tx.tx
  state : p.state = state
  built : ∃ params built, backend.buildBlock db params = .ok built ∧
    params.metaTxs = p.metaTxs ∧ params.payloadTxs = p.payloadTxs ∧
    p.params = { built with proof := p.params.proof }

/-- The meta state of a block comes from that of its parent through the given
transactions, and the context they leave. -/
structure MetaRun (db : DB) (parent header : Header) (txs : List FullTransaction)
    (m : StateMap) (context : Context) : Prop where
  executed : ∃ essence, backend.contextEssence db
      { number := header.number, timestamp := header.timestamp } parent.metaStateRoot
      header.payloadExecutionStateRoot = .ok essence ∧
    backend.executor.executeTxs essence.context txs = (context, .ok ()) ∧
    m = essence.metaState.update context.metaState.buffer
  root : header.metaStateRoot = backend.stateRoot m

/-- What a block was built from, as far as the database keeps it. -/
structure Grounded (db : DB) (p : Prepared) : Prop where
  parent : ∃ parent context, db.getHeader p.params.header.parentHash = some parent ∧
    backend.MetaRun db parent p.params.header p.metaTxs p.params.metaTransaction.2 context ∧
    p.params.metaTxs = context.metaTxs
  root : p.params.metaTransaction.1 = backend.stateRoot p.params.metaTransaction.2

variable {backend} {db db' : DB} {state : CurrentState} {p : Prepared}

theorem Grounded.mono (h : backend.Grounded db p) (hgrows : db.Grows db') :
    backend.Grounded db' p := by
  obtain ⟨parent, context, hparent, ⟨⟨essence, hessence, hexecuted⟩, hroot⟩, hmetaTxs⟩ := h.parent
  exact ⟨⟨parent, context, hgrows.header _ _ hparent,
    ⟨⟨essence, hgrows.contextEssence hessence, hexecuted⟩, hroot⟩, hmetaTxs⟩, h.root⟩

theorem Builds.grounded (h : backend.Builds db state p) :
    backend.Grounded db p ∧ backend.Listed p := by
  obtain ⟨params, built, hbuilt, hmeta, hpayload, hparams⟩ := h.built
  obtain ⟨parentHash, parentHeader, execution, essence, hfound, hbuilt⟩ := buildBlock_eq_ok hbuilt
  obtain ⟨context, hexecute, -, hheader, hbody, hmetaTxs, -, hpayloadTxs, htransaction⟩ :=
    buildOn_eq_ok hbuilt
  have hrun : backend.MetaRun db parentHeader built.header p.metaTxs
      (essence.metaState.update context.metaState.buffer) context := by
    constructor
    · refine ⟨essence, ?_, hmeta ▸ hexecute, rfl⟩
      rw [hheader, ← hfound.env]
      exact contextEssence_of_prepareGet hfound.metaState hfound.payloadState
    · rw [hheader]
  have hgrounded : backend.Grounded db p := by
    constructor
    case parent =>
      rw [hparams]
      simp only [htransaction]
      refine ⟨parentHeader, context, ?_, hrun, hmetaTxs⟩
      rw [hheader]
      exact hfound.getParentHeader
    case root =>
      rw [hparams]
      simp only [htransaction, hrun.root]
  obtain ⟨isMeta, receipts, hbatched, -⟩ :=
    Executor.executeTxs_eq_ok backend.modular (Context.idle_new _ _ _) hexecute
  refine ⟨hgrounded, h.hashed, ?_, ?_, ?_⟩
  all_goals rw [hparams]
  · -- The executor keeps the meta list, or drops it.
    simp only [hmetaTxs, ← hmeta]
    cases isMeta with
    | true => exact .inl hbatched.appended
    | false => exact .inr hbatched.otherTxs
  · simp only [hpayloadTxs, hpayload]
  · simp only [hbody, hmetaTxs, hpayloadTxs]

/-- The meta transactions in the body are those that make the meta state. -/
theorem Grounded.metaRun (h : backend.Grounded db p) :
    ∃ parent context, db.getHeader p.params.header.parentHash = some parent ∧
      backend.MetaRun db parent p.params.header p.params.metaTxs p.params.metaTransaction.2
        context := by
  obtain ⟨parent, context, hparent, hrun, hmetaTxs⟩ := h.parent
  obtain ⟨⟨essence, hessence, hexecute, hm⟩, hroot⟩ := hrun
  obtain ⟨isMeta, receipts, hbatched, -⟩ :=
    Executor.executeTxs_eq_ok backend.modular (Context.idle_new _ _ _) hexecute
  cases isMeta with
  | true =>
      have hkept : context.metaTxs = p.metaTxs := hbatched.appended
      rw [hmetaTxs, hkept]
      exact ⟨parent, context, hparent, ⟨essence, hessence, hexecute, hm⟩, hroot⟩
  | false =>
      have hdropped : context.metaTxs = [] := hbatched.otherTxs
      have hstate : context.metaState = essence.context.metaState := hbatched.other
      rw [hmetaTxs, hdropped]
      refine ⟨parent, essence.context, hparent, ⟨essence, hessence, rfl, ?_⟩, hroot⟩
      rw [hm, hstate]

end Backend

/-! ## Runs -/

section Runs

variable {backend : Backend} {txs : List Transaction} {timestamp : Nat} {node node' : Node}

/-- What the blocks of a node were built from is in its database. -/
structure Node.Linked (backend : Backend) (node : Node) : Prop where
  metaState : backend.Rooted node.db.metaState
  payloadState : backend.Rooted node.db.payloadState
  prepared : ∀ p ∈ node.prepared, backend.Grounded node.db p
  chain : ∀ p ∈ node.chain.tail, backend.Grounded node.db p
  built : ∀ work, node.work = some work → ∀ params, work.built = some params →
    params.payloadTransaction.1 = backend.stateRoot params.payloadTransaction.2

/-- A built execution has the root of its state. -/
theorem Backend.root_of_buildNumber {db : DB} {number : BlockNumber} {task : Option ExecuteTask}
    {params : ChainCommitExecutionParams} (h : backend.buildNumber db number task = .ok params) :
    params.payloadTransaction.1 = backend.stateRoot params.payloadTransaction.2 := by
  obtain ⟨task, -, h⟩ := Result.bind_eq_ok.1 h
  obtain ⟨execution, -, hbuilt⟩ := executeTask_eq_ok h
  obtain ⟨essence, -, -, -, hbuilt⟩ := buildExecution_eq_ok hbuilt
  obtain ⟨context, -, -, -, hexecution, htransaction⟩ := executeOn_eq_ok hbuilt
  rw [htransaction, hexecution]

theorem Node.Linked.commit (hfree : backend.CollisionFree) (h : node.Linked backend)
    (hchain : node.db.Chained node.chain) {p : Prepared} (hp : p ∈ node.prepared)
    (hplaced : node.db.Placed p.params) (uninserted : List ExecuteTask) :
    Node.Linked backend
      { node with
        db := node.db.commitBlock p.params
        uninserted := uninserted
        chain := node.chain ++ [p] } := by
  have hroot := (h.prepared p hp).root
  have hgrows : node.db.Grows (node.db.commitBlock p.params) :=
    .commitBlock hfree h.metaState hplaced.fresh hroot
  have hne : node.chain ≠ [] := by
    obtain ⟨number, -, hlength⟩ := hchain.confirmed
    exact List.ne_nil_of_length_pos (hlength ▸ Nat.succ_pos number)
  constructor
  case metaState =>
    change backend.Rooted (AssocMap.insert _ p.params.metaTransaction.1 _)
    rw [hroot]
    exact h.metaState.insert _
  case payloadState => exact h.payloadState
  case prepared => exact fun q hq => (h.prepared q hq).mono hgrows
  case chain =>
    intro q hq
    simp only [List.tail_append_of_ne_nil hne] at hq
    rcases List.mem_append.1 hq with hq | hq
    · exact (h.chain q hq).mono hgrows
    · obtain rfl := List.mem_singleton.1 hq
      exact (h.prepared q hp).mono hgrows
  case built => exact h.built

theorem Node.Linked.store (hfree : backend.CollisionFree) (h : node.Linked backend) {work : Work}
    {params : ChainCommitExecutionParams} (hwork : node.work = some work)
    (hbuilt : work.built = some params) : (node.store work params).Linked backend := by
  have hroot := h.built work hwork params hbuilt
  have hgrows : node.db.Grows (node.db.commitExecution params) :=
    .commitExecution hfree h.payloadState hroot
  constructor
  case metaState => exact h.metaState
  case payloadState =>
    change backend.Rooted (AssocMap.insert _ params.payloadTransaction.1 _)
    rw [hroot]
    exact h.payloadState.insert _
  case prepared => exact fun q hq => (h.prepared q hq).mono hgrows
  case chain => exact fun q hq => (h.chain q hq).mono hgrows
  case built =>
    intro work' hwork' params' hbuilt'
    simp only [Node.store] at hwork'
    split at hwork'
    · cases hwork'
    · cases hwork'
      cases hbuilt'

theorem Step.linked (hfree : backend.CollisionFree) (h : Step backend backend.Builds node node')
    (hchain : node.db.Chained node.chain) (hlinked : node.Linked backend) :
    node'.Linked backend := by
  cases h with
  | prepare h =>
      refine { hlinked with prepared := fun q hq => ?_ }
      rcases List.mem_cons.1 hq with rfl | hq
      · exact h.grounded.1
      · exact hlinked.prepared q hq
  | commit now hp =>
      rcases node.commit_cases backend now _ with heq | ⟨hplaced, uninserted, -, heq⟩
      · rwa [heq]
      · rw [heq]
        exact hlinked.commit hfree hchain hp hplaced uninserted
  | store hwork hbuilt => exact hlinked.store hfree hwork hbuilt
  | build hwork hbuilt h =>
      refine { hlinked with built := fun work' hwork' params' hbuilt' => ?_ }
      cases hwork'
      cases hbuilt'
      exact backend.root_of_buildNumber h
  | take hidle hqueue h =>
      refine { hlinked with built := fun work' hwork' params' hbuilt' => ?_ }
      cases hwork'
      cases hbuilt'
  | restart h => exact { hlinked with prepared := List.forall_mem_nil _, built := by rintro _ ⟨⟩ }
  | fail => exact { hlinked with built := by rintro _ ⟨⟩ }
  | insert h => exact { hlinked with }
  | lose task => exact { hlinked with }
  | refresh h => exact { hlinked with }

theorem Node.Linked.of_genesis (timestamp : Nat) (context : Context) (current : CurrentState) :
    Node.Linked backend
      (.start (backend.genesisDB timestamp context) current
        [backend.genesisPrepared timestamp context current]) := by
  have hnil : backend.Rooted [] := by rintro _ _ ⟨⟩
  exact ⟨hnil.insert _, hnil.insert _, List.forall_mem_nil _, List.forall_mem_nil _, by rintro _ ⟨⟩⟩

theorem Reach.linked (hfree : backend.CollisionFree)
    (h : Reach backend backend.Builds txs timestamp node) : node.Linked backend := by
  induction h with
  | genesis hspec hexecute h => exact .of_genesis _ _ _
  | step hreach h ih => exact h.linked hfree hreach.chained ih

end Runs

/-! ## The chain in the database is linked -/

/-- The transactions of the hashes, as the database has them. -/
def DB.Loads (db : DB) (txs : List FullTransaction) (hashes : List Hash) : Prop :=
  txs.map FullTransaction.txHash = hashes ∧ ∀ tx ∈ txs, db.getTransaction tx.txHash = some tx.tx

/-- The database has block `number` with all that belongs to it: one hash, its
header, body and proof, and its transactions. It follows the block before it,
and its meta state is that of this block after its own meta transactions. -/
def DB.LinkedAt (backend : Backend) (db : DB) (number : BlockNumber) : Prop :=
  ∃ blockHash header body, (∀ hash, (number, hash) ∈ db.blockHash ↔ hash = blockHash) ∧
    db.getHeader blockHash = some header ∧ header.number = number ∧
    db.getBody blockHash = some body ∧ (db.getProof blockHash).isSome ∧
    (∀ txHash ∈ bodyHashes body, ∃ tx, db.getTransaction txHash = some tx ∧
      backend.hashTransaction tx = txHash) ∧
    (number ≠ 0 → db.getBlockHash (number - 1) = some header.parentHash ∧
      ∃ parent metaTxs m context, db.getHeader header.parentHash = some parent ∧
        db.Loads metaTxs body.metaTxs ∧ backend.MetaRun db parent header metaTxs m context)

section Linkage

variable {backend : Backend} {txs : List Transaction} {timestamp : Nat} {node node' : Node}

/-- The stored transactions are those of the block but for their signatures. -/
theorem Node.Stored.loads (hfree : backend.CollisionFree) (h : node.Stored backend)
    {fullTxs : List FullTransaction}
    (hmem : ∀ tx ∈ fullTxs, tx.txHash = backend.hashTransaction tx.tx ∧
      (node.db.getTransaction tx.txHash).isSome) :
    ∃ loaded, node.db.Loads loaded (fullTxs.map FullTransaction.txHash) ∧
      loaded.map covered = fullTxs.map covered := by
  induction fullTxs with
  | nil => exact ⟨[], ⟨rfl, nofun⟩, rfl⟩
  | cons tx fullTxs ih =>
      obtain ⟨loaded, ⟨hhashes, hloaded⟩, hcovered⟩ :=
        ih fun tx' htx' => hmem tx' (List.mem_cons_of_mem _ htx')
      obtain ⟨hhash, hsome⟩ := hmem tx List.mem_cons_self
      obtain ⟨stored, hstored⟩ := Option.isSome_iff_exists.1 hsome
      have hforHash : stored.forHash = tx.tx.forHash :=
        hfree.hashForHash ((h.hashed _ _ hstored).trans hhash)
      refine ⟨{ tx := stored, txHash := tx.txHash } :: loaded, ⟨?_, ?_⟩, ?_⟩
      · rw [List.map_cons, List.map_cons, hhashes]
      · intro tx' htx'
        rcases List.mem_cons.1 htx' with rfl | htx'
        · exact hstored
        · exact hloaded tx' htx'
      · rw [List.map_cons, List.map_cons, hcovered, covered, covered, hforHash]

theorem Backend.MetaRun.congr {db : DB} {parent header : Header} {m : StateMap}
    {context : Context} {metaTxs metaTxs' : List FullTransaction}
    (h : backend.MetaRun db parent header metaTxs m context)
    (hcovered : metaTxs'.map covered = metaTxs.map covered) :
    ∃ context', backend.MetaRun db parent header metaTxs' m context' := by
  obtain ⟨⟨essence, hessence, hexecute, hm⟩, hroot⟩ := h
  obtain ⟨hresult, hstate, -⟩ :
      (backend.executor.executeTxs essence.context metaTxs').2 = _ ∧ _ ∧ _ :=
    Executor.executeTxs_congr hcovered
  rw [hexecute] at hresult hstate
  refine ⟨(backend.executor.executeTxs essence.context metaTxs').1,
    ⟨essence, hessence, Prod.ext rfl hresult, ?_⟩, hroot⟩
  rw [hm]
  exact congrArg (fun s : ContextState => essence.metaState.update s.buffer)
    (congrFun hstate true).symm

theorem Node.Linked.linkedAt (hfree : backend.CollisionFree) (h : node.Linked backend)
    (hchain : node.db.Chained node.chain) (hstored : node.Stored backend) {k : ℕ} {p : Prepared}
    (hp : node.chain[k]? = some p) : node.db.LinkedAt backend k := by
  have hmemChain := List.mem_of_getElem? hp
  have hhash : node.db.getBlockHash k = some p.params.blockHash := by
    rw [hchain.blockHash, hp]
    rfl
  refine ⟨p.params.blockHash, p.params.header, p.params.body, ?_, hchain.header p hmemChain,
    hchain.number k p hp, hchain.body p hmemChain, ?_, ?_, ?_⟩
  · intro hash
    rw [← AssocMap.get?_eq_some_iff hchain.nodup]
    constructor
    · intro hget
      exact Option.some.inj (hget.symm.trans hhash)
    · rintro rfl
      exact hhash
  · rw [hchain.proof p hmemChain]
    rfl
  · intro txHash hmem
    obtain ⟨tx, htx⟩ := Option.isSome_iff_exists.1 (hstored.stored p hmemChain txHash hmem)
    exact ⟨tx, htx, hstored.hashed txHash tx htx⟩
  · intro hk
    obtain ⟨j, rfl⟩ := Nat.exists_eq_succ_of_ne_zero hk
    have hlt := (List.getElem?_eq_some_iff.1 hp).1
    obtain ⟨q, hq⟩ : ∃ q, node.chain[j]? = some q :=
      ⟨_, List.getElem?_eq_getElem (Nat.lt_of_succ_lt hlt)⟩
    have hmemTail : p ∈ node.chain.tail := by
      rw [← List.getElem?_tail] at hp
      exact List.mem_of_getElem? hp
    obtain ⟨parent, context, hparent, hrun⟩ := (h.chain p hmemTail).metaRun
    have hlisted := hstored.chain p hmemChain
    have hmeta : ∀ tx ∈ p.params.metaTxs, tx.txHash = backend.hashTransaction tx.tx ∧
        (node.db.getTransaction tx.txHash).isSome := by
      intro tx htx
      have hlists := List.mem_append_left p.params.payloadTxs htx
      exact ⟨hlisted.hashed tx (hlisted.mem_lists hlists),
        hstored.stored p hmemChain _ (hlisted.mem_bodyHashes.2 ⟨tx, hlists, rfl⟩)⟩
    obtain ⟨loaded, hloads, hcovered⟩ := hstored.loads hfree hmeta
    obtain ⟨context', hrun'⟩ := hrun.congr hcovered
    refine ⟨?_, parent, loaded, _, context', hparent, ?_, hrun'⟩
    · rw [hchain.parent j q p hq hp, Nat.succ_sub_one, hchain.blockHash, hq]
      rfl
    · rw [hlisted.body]
      exact hloads

/-- `update_current_state` has no error of `commit_block`. -/
theorem Backend.updateCurrentState_ne_error (db : DB) (now : Nat) (e : CommitBlockError) :
    backend.updateCurrentState db now ≠ .error (.commitBlockError e) := by
  have horData : ∀ {α : Type} (msg : String) (o : Option α),
      orData msg o ≠ .error (.commitBlockError e) := by
    intro α msg o
    cases o with
    | none => simp [orData]
    | some x => simp [orData]
  have hprepareGet : ∀ (column : List (Hash × StateMap)) (root : Hash),
      backend.prepareGet column root ≠ .error (.commitBlockError e) := by
    intro column root
    unfold prepareGet
    split
    · simp
    · split
      · simp
      · simp
  have hmetaValue : ∀ {V : Type} (decode : Codec.Decoder V) (m : StateMap) (field : String),
      metaValue decode m field ≠ .error (.commitBlockError e) := by
    intro V decode m field
    unfold metaValue
    split
    · simp
    · split
      · simp
      · simp
  have hok : ∀ {α : Type} (a : α), (Except.ok a : Except ErrorKind α) ≠
      .error (.commitBlockError e) := by simp
  have hcontextEssence : ∀ env metaStateRoot payloadStateRoot,
      backend.contextEssence db env metaStateRoot payloadStateRoot ≠
        .error (.commitBlockError e) := by
    intro env metaStateRoot payloadStateRoot
    refine Result.bind_ne_error (hprepareGet _ _) fun _ => ?_
    exact Result.bind_ne_error (hprepareGet _ _) fun _ => hok _
  have hgetMeta : ∀ m, getMeta m ≠ .error (.commitBlockError e) := by
    intro m
    refine Result.bind_ne_error (hmetaValue _ _ _) fun _ => ?_
    refine Result.bind_ne_error (hmetaValue _ _ _) fun _ => ?_
    refine Result.bind_ne_error (hmetaValue _ _ _) fun _ => ?_
    refine Result.bind_ne_error (hmetaValue _ _ _) fun _ => ?_
    exact Result.bind_ne_error (hmetaValue _ _ _) fun _ => hok _
  refine Result.bind_ne_error (horData _ _) fun _ => ?_
  refine Result.bind_ne_error (horData _ _) fun _ => ?_
  refine Result.bind_ne_error (horData _ _) fun _ => ?_
  refine Result.bind_ne_error (horData _ _) fun _ => ?_
  refine Result.bind_ne_error (horData _ _) fun _ => ?_
  refine Result.bind_ne_error (horData _ _) fun _ => ?_
  refine Result.bind_ne_error (hcontextEssence _ _ _) fun _ => ?_
  refine Result.bind_ne_error (hgetMeta _) fun _ => ?_
  exact Result.bind_ne_error (horData _ _) fun _ => hok _

/-- A call that is refused as duplicated or not best leaves the database as it
is. -/
theorem Backend.commitBlock_refused (backend : Backend) {db db' : DB} {now : Nat}
    {params : ChainCommitBlockParams} {e : CommitBlockError}
    (h : backend.commitBlock db now params = (db', .error (.commitBlockError e))) : db' = db := by
  rcases backend.commitBlock_cases db now params with ⟨-, hcommit⟩ | ⟨e', hcommit⟩
  · rw [hcommit] at h
    obtain ⟨-, hresult⟩ := Prod.mk.inj h
    generalize hstate : backend.updateCurrentState (db.commitBlock params) now = result at hresult
    cases result with
    | error e' =>
        cases hresult
        exact absurd hstate (updateCurrentState_ne_error _ _ _)
    | ok state => cases hresult
  · rw [hcommit] at h
    exact (Prod.mk.inj h).1.symm

/-- After every run the database holds a single linked chain up to the confirmed
number, and a refused block changes nothing. -/
theorem chain_linkage (hfree : backend.CollisionFree)
    (h : Reach backend backend.Builds txs timestamp node) :
    (∃ number, node.db.confirmedNumber = some number ∧
      (∀ k, (∃ hash, (k, hash) ∈ node.db.blockHash) ↔ k ≤ number) ∧
      ∀ k ≤ number, node.db.LinkedAt backend k) ∧
    ∀ now params e db', backend.commitBlock node.db now params =
      (db', .error (.commitBlockError e)) → db' = node.db := by
  have hchain := h.chained
  have hstored := h.stored fun _ _ _ hbuilds => hbuilds.grounded.2
  have hlinked := h.linked hfree
  obtain ⟨number, hnumber, hlength⟩ := hchain.confirmed
  refine ⟨⟨number, hnumber, fun k => ?_, fun k hk => ?_⟩,
    fun now params e db' => backend.commitBlock_refused⟩
  · have hmem : (∃ hash, (k, hash) ∈ node.db.blockHash) ↔ (node.chain[k]?).isSome := by
      simp only [← AssocMap.get?_eq_some_iff hchain.nodup]
      rw [← Option.isSome_iff_exists]
      change (node.db.getBlockHash k).isSome ↔ _
      rw [hchain.blockHash, Option.isSome_map]
    rw [hmem, isSome_getElem?, hlength]
    exact Nat.lt_succ_iff
  · obtain ⟨p, hp⟩ : ∃ p, node.chain[k]? = some p :=
      ⟨_, List.getElem?_eq_getElem (hlength ▸ Nat.lt_succ_of_le hk)⟩
    exact hlinked.linkedAt hfree hchain hstored hp

end Linkage

/-! Block 1 of the small chain, as a thread builds it. -/

namespace Sample

theorem collisionFree : backend.CollisionFree where
  stateRoot := stateRoot_injective
  defaultHash := by
    rintro ⟨entries, sorted⟩ h
    cases entries with
    | nil => rfl
    | cons e entries =>
        obtain ⟨key, value⟩ := e
        have hbytes := Hash.mk.inj h
        cases key with
        | nil => cases (List.cons.inj hbytes).1
        | cons b key => cases (List.cons.inj hbytes).1
  hashForHash := hashForHash_injective

def prepared (metaTxs payloadTxs : List Transaction) (h : (built metaTxs payloadTxs).isOk) :
    Prepared where
  metaTxs := metaTxs.map backend.fullTx
  payloadTxs := payloadTxs.map backend.fullTx
  state := state
  params := Result.get (built metaTxs payloadTxs) h

theorem builds_prepared {metaTxs payloadTxs : List Transaction}
    (h : (built metaTxs payloadTxs).isOk) :
    backend.Builds genesis state (prepared metaTxs payloadTxs h) := by
  refine ⟨fun tx htx => ?_, rfl, _, _, Result.eq_ok_get (built metaTxs payloadTxs) h, rfl, rfl,
    rfl⟩
  rw [prepared, ← List.map_append] at htx
  obtain ⟨tx', -, rfl⟩ := List.mem_map.1 htx
  rfl

/-- A meta and a payload transaction. -/
def firstBlock : Prepared := prepared [signedTx] [entryTx "put" 1 5] (by decide +kernel)

theorem reach_firstBlock : Reach backend backend.Builds [systemTx] 0 (second firstBlock) :=
  reach_second (builds_prepared _)

end Sample

theorem chain_linkage_firstBlock :
    (Sample.second Sample.firstBlock).db.confirmedNumber = some 1 ∧
      (Sample.second Sample.firstBlock).db.LinkedAt Sample.backend 1 := by
  obtain ⟨⟨number, hnumber, -, hlinked⟩, -⟩ :=
    chain_linkage Sample.collisionFree Sample.reach_firstBlock
  have hone : (Sample.second Sample.firstBlock).db.confirmedNumber = some 1 := by
    decide +kernel
  obtain rfl := Option.some.inj (hnumber.symm.trans hone)
  exact ⟨hone, hlinked 1 le_rfl⟩

end Finastate.Chain
