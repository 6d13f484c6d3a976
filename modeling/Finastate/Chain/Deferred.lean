import Finastate.Chain.Executed

/-!
# Deferred and sequential execution

The task loop executes a block long after it was committed, from the task of
its commit or from one rebuilt from the database, on the payload state that it
finds recorded for the parent. The reference, `sequential`, executes the blocks
one after the other from the payload state of the genesis and looks at no record
but that of the genesis.
-/

namespace Finastate.Chain

open Executor

namespace Backend

variable (backend : Backend)

/-- The payload state after a block, and the execution that is recorded for it,
from the states before it. -/
def executeBlock (metaState payloadState : StateMap) (env : ContextEnv)
    (payloadTxs : List FullTransaction) : Except ErrorKind (StateMap × Execution) :=
  match backend.executor.executeTxs (.new env metaState.entries payloadState.entries) payloadTxs with
  | (_, .error e) => .error (.executor (.common e))
  | (context, .ok _) =>
      let (root, m) := prepareUpdate backend.stateRoot payloadState context.payloadState.buffer
      .ok (m,
        { payloadExecutionStateRoot := root
          payloadExecutionReceiptsRoot := backend.getReceiptsRoot context.payloadReceipts })

/-- The blocks up to a number executed one after the other, each with its own
number, timestamp and meta state. -/
def sequential (db : DB) : ℕ → Except ErrorKind (StateMap × Execution)
  | 0 => do
      let blockHash ← orData (noNumber 0) (db.getBlockHash 0)
      let execution ← orData (notExecution blockHash) (db.getExecution blockHash)
      let m ← backend.prepareGet db.payloadState execution.payloadExecutionStateRoot
      return (m, execution)
  | number + 1 => do
      let (m, _) ← sequential db number
      let blockHash ← orData (noNumber (number + 1)) (db.getBlockHash (number + 1))
      let header ← orData (noHash blockHash) (db.getHeader blockHash)
      let body ← orData (noHash blockHash) (db.getBody blockHash)
      let payloadTxs ← loadTxs db body.payloadTxs
      let metaState ← backend.prepareGet db.metaState header.metaStateRoot
      backend.executeBlock metaState m { number := number + 1, timestamp := header.timestamp }
        payloadTxs

variable {backend}

theorem executeBlock_congr {metaState payloadState : StateMap} {env : ContextEnv}
    {payloadTxs payloadTxs' : List FullTransaction}
    (h : payloadTxs.map covered = payloadTxs'.map covered) :
    backend.executeBlock metaState payloadState env payloadTxs =
      backend.executeBlock metaState payloadState env payloadTxs' := by
  obtain ⟨hresult, hstate, hreceipts⟩ :
      (backend.executor.executeTxs (.new env metaState.entries payloadState.entries)
        payloadTxs).2 = _ ∧ _ ∧ _ := Executor.executeTxs_congr h
  have hstate := congrFun hstate false
  have hreceipts := congrFun hreceipts false
  unfold executeBlock
  generalize backend.executor.executeTxs _ payloadTxs = out at hresult hstate hreceipts ⊢
  generalize backend.executor.executeTxs _ payloadTxs' = out' at hresult hstate hreceipts ⊢
  obtain ⟨c, result⟩ := out
  obtain ⟨c', result'⟩ := out'
  simp only at hresult
  subst hresult
  cases result with
  | error e => rfl
  | ok u =>
      have hpayload : c.payloadState = c'.payloadState := hstate
      have hpayloadReceipts : c.payloadReceipts = c'.payloadReceipts := hreceipts
      simp only [hpayload, hpayloadReceipts]

theorem executeBlock_eq_ok {metaState payloadState m : StateMap} {env : ContextEnv}
    {payloadTxs : List FullTransaction} {execution : Execution}
    (h : backend.executeBlock metaState payloadState env payloadTxs = .ok (m, execution)) :
    execution.payloadExecutionStateRoot = backend.stateRoot m := by
  unfold executeBlock at h
  split at h
  · cases h
  · cases h
    rfl

/-- What `build_execution` builds is the block executed on the states that it
finds under the roots. -/
theorem executeBlock_of_executeOn {essence : ContextEssence} {params : BuildExecutionParams}
    {built : ChainCommitExecutionParams} (h : backend.executeOn essence params = .ok built) :
    ∃ m, backend.executeBlock essence.metaState essence.payloadState essence.env
        params.payloadTxs = .ok (m, built.execution) ∧
      built.payloadTransaction = (backend.stateRoot m, m) := by
  obtain ⟨context, hexecute, -, -, hexecution, htransaction⟩ := executeOn_eq_ok h
  refine ⟨essence.payloadState.update context.payloadState.buffer, ?_, ?_⟩
  · have hcontext : Context.new essence.env essence.metaState.entries
        essence.payloadState.entries = essence.context := rfl
    rw [executeBlock, hcontext, hexecute, hexecution]
    rfl
  · rw [htransaction, hexecution]

theorem executeOn_congr {essence : ContextEssence} {params : BuildExecutionParams}
    {payloadTxs : List FullTransaction}
    (h : payloadTxs.map covered = params.payloadTxs.map covered) :
    backend.executeOn essence { params with payloadTxs } = backend.executeOn essence params := by
  obtain ⟨hresult, hstate, hreceipts⟩ :
      (backend.executor.executeTxs essence.context payloadTxs).2 = _ ∧ _ ∧ _ :=
    Executor.executeTxs_congr h
  have hstate := congrFun hstate false
  have hreceipts := congrFun hreceipts false
  simp only [executeOn]
  generalize backend.executor.executeTxs _ params.payloadTxs = out at hresult hstate hreceipts ⊢
  generalize backend.executor.executeTxs _ payloadTxs = out' at hresult hstate hreceipts ⊢
  obtain ⟨c, result⟩ := out
  obtain ⟨c', result'⟩ := out'
  simp only at hresult
  subst hresult
  cases result' with
  | error e => rfl
  | ok u =>
      have hpayload : c'.payloadState = c.payloadState := hstate
      have hpayloadReceipts : c'.payloadReceipts = c.payloadReceipts := hreceipts
      simp only [hpayload, hpayloadReceipts]

/-- A task with other signatures gives the same. -/
theorem executeTask_congr {db : DB} {task : ExecuteTask} {payloadTxs : List FullTransaction}
    (h : payloadTxs.map covered = task.payloadTxs.map covered) :
    backend.executeTask db { task with payloadTxs } = backend.executeTask db task := by
  have hbuild : ∀ params : BuildExecutionParams,
      params.payloadTxs.map covered = payloadTxs.map covered →
      backend.buildExecution db { params with payloadTxs } = backend.buildExecution db params := by
    intro params hcovered
    simp only [buildExecution, executeOn_congr hcovered.symm]
  have hon := fun execution : Execution => hbuild
    { number := task.number
      timestamp := task.timestamp
      blockHash := task.blockHash
      metaStateRoot := task.metaStateRoot
      payloadStateRoot := execution.payloadExecutionStateRoot
      payloadTxs := task.payloadTxs } h.symm
  simp only at hon
  simp only [executeTask, hon]

end Backend

/-! ## Rebuilt tasks -/

theorem loadTxs_eq_ok_iff {db : DB} {hashes : List Hash} {loaded : List FullTransaction} :
    loadTxs db hashes = .ok loaded ↔ db.Loads loaded hashes := by
  induction hashes generalizing loaded with
  | nil =>
      constructor
      · rintro ⟨⟩
        exact ⟨rfl, nofun⟩
      · rintro ⟨hhashes, -⟩
        rw [List.map_eq_nil_iff.1 hhashes]
        rfl
  | cons txHash hashes ih =>
      constructor
      · intro h
        obtain ⟨tx, htx, h⟩ := Result.bind_eq_ok.1 h
        obtain ⟨rest, hrest, h⟩ := Result.bind_eq_ok.1 h
        cases h
        obtain ⟨hhashes, hloaded⟩ := ih.1 hrest
        refine ⟨by rw [List.map_cons, hhashes], fun tx' htx' => ?_⟩
        rcases List.mem_cons.1 htx' with rfl | htx'
        · exact orQueue_eq_ok.1 htx
        · exact hloaded tx' htx'
      · rintro ⟨hhashes, hloaded⟩
        cases loaded with
        | nil => cases hhashes
        | cons tx loaded =>
            obtain ⟨rfl, htail⟩ := List.cons.inj hhashes
            have hrest := ih.2 ⟨htail, fun tx' htx' => hloaded tx' (List.mem_cons_of_mem _ htx')⟩
            refine Result.bind_eq_ok.2
              ⟨tx.tx, orQueue_eq_ok.2 (hloaded tx List.mem_cons_self), ?_⟩
            exact Result.bind_eq_ok.2 ⟨loaded, hrest, rfl⟩

section Tasks

variable {backend : Backend} {node : Node} {k : ℕ} {p : Prepared}

theorem Node.Stored.loadTxs (hfree : backend.CollisionFree) (h : node.Stored backend)
    (hp : p ∈ node.chain) :
    ∃ payloadTxs, Chain.loadTxs node.db p.params.body.payloadTxs = .ok payloadTxs ∧
      payloadTxs.map covered = p.params.payloadTxs.map covered := by
  have hlisted := h.chain p hp
  have hpayload : ∀ tx ∈ p.params.payloadTxs, tx.txHash = backend.hashTransaction tx.tx ∧
      (node.db.getTransaction tx.txHash).isSome := by
    intro tx htx
    have hlists := List.mem_append_right p.params.metaTxs htx
    exact ⟨hlisted.hashed tx (hlisted.mem_lists hlists),
      h.stored p hp _ (hlisted.mem_bodyHashes.2 ⟨tx, hlists, rfl⟩)⟩
  obtain ⟨payloadTxs, hloads, hcovered⟩ := h.loads hfree hpayload
  refine ⟨payloadTxs, ?_, hcovered⟩
  rw [hlisted.body]
  exact loadTxs_eq_ok_iff.2 hloads

/-- A rebuilt task is that of the commit but for the signatures. -/
theorem Node.Stored.rebuildTask (hfree : backend.CollisionFree) (h : node.Stored backend)
    (hchain : node.db.Chained node.chain) (hp : node.chain[k]? = some p) :
    ∃ payloadTxs,
      Chain.rebuildTask node.db k = .ok { ExecuteTask.ofParams p.params with payloadTxs } ∧
      payloadTxs.map covered = p.params.payloadTxs.map covered := by
  have hmem := List.mem_of_getElem? hp
  obtain ⟨payloadTxs, hload, hcovered⟩ := h.loadTxs hfree hmem
  refine ⟨payloadTxs, ?_, hcovered⟩
  have hhash : node.db.getBlockHash k = some p.params.blockHash := by
    rw [hchain.blockHash, hp]
    rfl
  refine Result.bind_eq_ok.2 ⟨_, orQueue_eq_ok.2 hhash, ?_⟩
  refine Result.bind_eq_ok.2 ⟨_, orQueue_eq_ok.2 (hchain.header p hmem), ?_⟩
  refine Result.bind_eq_ok.2 ⟨_, orQueue_eq_ok.2 (hchain.body p hmem), ?_⟩
  refine Result.bind_eq_ok.2 ⟨_, hload, ?_⟩
  rw [ExecuteTask.ofParams, hchain.number k p hp]
  rfl

/-- Whatever the task loop is at, it executes the task of the commit. -/
theorem Node.Executing.buildNumber_eq (hfree : backend.CollisionFree) {number : BlockNumber}
    (h : node.Executing number) (hchain : node.db.Chained node.chain)
    (hstored : node.Stored backend) {work : Work} (hwork : node.work = some work) :
    ∃ k p, node.chain[k + 1]? = some p ∧ work.due.1 = k + 1 ∧
      backend.buildNumber node.db work.due.1 work.due.2 =
        backend.executeTask node.db (.ofParams p.params) := by
  obtain ⟨p, hp, htask⟩ := h.tasks work.task (.inr (.inr ⟨work, hwork, rfl⟩))
  obtain ⟨j, hj⟩ := List.mem_iff_getElem?.1 hp
  rw [List.getElem?_tail] at hj
  have hnumber : work.task.number = j + 1 := by
    rw [htask]
    exact hchain.number _ p hj
  rcases h.due_cases hwork with ⟨hnumbers, hdue, -⟩ | ⟨hnumbers, hdue, hlt⟩
  · refine ⟨j, p, hj, hdue.trans hnumber, ?_⟩
    have hcurrent : currentTask node.db work.due.1 work.due.2 = .ok (.ofParams p.params) := by
      rw [Work.due, hnumbers]
      simp only [currentTask, if_true, htask]
    rw [Backend.buildNumber, hcurrent]
    rfl
  · -- Between the executed number and the task every number is one of the chain.
    have hlt' : number + 1 < node.chain.length :=
      (hlt.trans_eq hnumber).trans (List.getElem?_eq_some_iff.1 hj).1
    obtain ⟨q, hq⟩ : ∃ q, node.chain[number + 1]? = some q :=
      ⟨_, List.getElem?_eq_getElem hlt'⟩
    obtain ⟨payloadTxs, hrebuild, hcovered⟩ := hstored.rebuildTask hfree hchain hq
    refine ⟨number, q, hq, hdue, ?_⟩
    have hcurrent : currentTask node.db work.due.1 work.due.2 =
        .ok { ExecuteTask.ofParams q.params with payloadTxs } := by
      rw [Work.due, hnumbers]
      exact hrebuild
    rw [Backend.buildNumber, hcurrent]
    exact Backend.executeTask_congr hcovered

end Tasks

/-! ## The recorded executions -/

/-- The blocks of the chain executed one after the other, from the state and
the execution of the genesis. -/
inductive Backend.Sequence (backend : Backend) (genesis : StateMap × Execution)
    (chain : List Prepared) : ℕ → StateMap → Execution → Prop where
  | genesis : Sequence backend genesis chain 0 genesis.1 genesis.2
  | block {k : ℕ} {p : Prepared} {m m' : StateMap} {execution execution' : Execution}
      (h : Sequence backend genesis chain k m execution) (hp : chain[k + 1]? = some p)
      (hexecute : backend.executeBlock p.params.metaTransaction.2 m
        { number := k + 1, timestamp := p.params.header.timestamp } p.params.payloadTxs =
          .ok (m', execution')) :
      Sequence backend genesis chain (k + 1) m' execution'

section Runs

variable {backend : Backend} {genesis : StateMap × Execution} {txs : List Transaction}
  {timestamp : Nat} {node node' : Node}

theorem Backend.Sequence.append {chain : List Prepared} {k : ℕ} {m : StateMap}
    {execution : Execution} (h : backend.Sequence genesis chain k m execution) (p : Prepared) :
    backend.Sequence genesis (chain ++ [p]) k m execution := by
  induction h with
  | genesis => exact .genesis
  | block h hp hexecute ih =>
      refine .block ih ?_ hexecute
      rwa [List.getElem?_append_left (List.getElem?_eq_some_iff.1 hp).1]

/-- The executions that are recorded, or built, are those of the blocks executed
one after the other, and the states are under their roots. -/
structure Node.Deferred (backend : Backend) (genesis : StateMap × Execution) (node : Node) :
    Prop where
  execution : ∀ (k : ℕ) (p : Prepared), node.chain[k]? = some p → ∀ execution,
    node.db.getExecution p.params.blockHash = some execution →
    ∃ m, backend.Sequence genesis node.chain k m execution ∧
      backend.prepareGet node.db.payloadState execution.payloadExecutionStateRoot = .ok m
  recorded : ∀ blockHash, (node.db.getExecution blockHash).isSome →
    ∃ p ∈ node.chain, p.params.blockHash = blockHash
  metaState : ∀ p ∈ node.chain,
    backend.prepareGet node.db.metaState p.params.header.metaStateRoot =
      .ok p.params.metaTransaction.2
  built : ∀ work, node.work = some work → ∀ params, work.built = some params →
    ∃ (k : ℕ) (p : Prepared) (m : StateMap), node.chain[k]? = some p ∧
      params.blockHash = p.params.blockHash ∧
      backend.Sequence genesis node.chain k m params.execution ∧
      params.payloadTransaction = (backend.stateRoot m, m) ∧
      params.execution.payloadExecutionStateRoot = backend.stateRoot m

/-- Every state can be read under its root. -/
theorem Backend.CollisionFree.prepareGet_insert (hfree : backend.CollisionFree)
    (column : List (Hash × StateMap)) (m : StateMap) :
    backend.prepareGet (AssocMap.insert column (backend.stateRoot m) m) (backend.stateRoot m) =
      .ok m := by
  unfold Backend.prepareGet
  split
  · next hdefault => rw [hfree.defaultHash m hdefault]
  · rw [AssocMap.get?_insert_self]

theorem DB.Chained.getElem?_inj {db : DB} {chain : List Prepared} (h : db.Chained chain)
    {j k : ℕ} {p q : Prepared} (hp : chain[j]? = some p) (hq : chain[k]? = some q)
    (heq : p.params.blockHash = q.params.blockHash) : j = k := by
  have hheader : p.params.header = q.params.header := by
    apply Option.some.inj
    rw [← h.header p (List.mem_of_getElem? hp), heq, h.header q (List.mem_of_getElem? hq)]
  rw [← h.number j p hp, ← h.number k q hq, hheader]

/-- The execution of the next block is built on that of its parent. -/
theorem Node.Deferred.of_executeTask (h : node.Deferred backend genesis)
    (hchain : node.db.Chained node.chain) {k : ℕ} {p : Prepared}
    (hp : node.chain[k + 1]? = some p) {params : ChainCommitExecutionParams}
    (hbuild : backend.executeTask node.db (.ofParams p.params) = .ok params) :
    ∃ (k : ℕ) (p : Prepared) (m : StateMap), node.chain[k]? = some p ∧
      params.blockHash = p.params.blockHash ∧
      backend.Sequence genesis node.chain k m params.execution ∧
      params.payloadTransaction = (backend.stateRoot m, m) ∧
      params.execution.payloadExecutionStateRoot = backend.stateRoot m := by
  obtain ⟨execution, hexecution, hbuild⟩ := Backend.executeTask_eq_ok hbuild
  obtain ⟨essence, henv, hmeta, hpayload, hbuild⟩ := Backend.buildExecution_eq_ok hbuild
  obtain ⟨m, hexecute, htransaction⟩ := Backend.executeBlock_of_executeOn hbuild
  obtain ⟨context, -, hblockHash, -, -, -⟩ := Backend.executeOn_eq_ok hbuild
  have hlt := (List.getElem?_eq_some_iff.1 hp).1
  obtain ⟨q, hq⟩ : ∃ q, node.chain[k]? = some q :=
    ⟨_, List.getElem?_eq_getElem (Nat.lt_of_succ_lt hlt)⟩
  have hparent : p.params.header.parentHash = q.params.blockHash := hchain.parent k q p hq hp
  have hexecution' : node.db.getExecution q.params.blockHash = some execution := hparent ▸ hexecution
  obtain ⟨m₀, hsequence, hget⟩ := h.execution k q hq execution hexecution'
  have hmetaState : essence.metaState = p.params.metaTransaction.2 :=
    Except.ok.inj (hmeta.symm.trans (h.metaState p (List.mem_of_getElem? hp)))
  have hpayloadState : essence.payloadState = m₀ := Except.ok.inj (hpayload.symm.trans hget)
  have hnumber : p.params.header.number = k + 1 := hchain.number _ p hp
  rw [hmetaState, hpayloadState, henv] at hexecute
  simp only [ExecuteTask.ofParams, hnumber] at hexecute
  exact ⟨k + 1, p, m, hp, hblockHash, .block hsequence hp hexecute, htransaction,
    Backend.executeBlock_eq_ok hexecute⟩

theorem Node.Deferred.store (hfree : backend.CollisionFree) (h : node.Deferred backend genesis)
    (hchain : node.db.Chained node.chain) (hlinked : node.Linked backend) {work : Work}
    (hwork : node.work = some work) {params : ChainCommitExecutionParams}
    (hbuilt : work.built = some params) : (node.store work params).Deferred backend genesis := by
  obtain ⟨k, p, m, hp, hhash, hsequence, htransaction, hroot⟩ := h.built work hwork params hbuilt
  have hpayloadState : (node.store work params).db.payloadState =
      AssocMap.insert node.db.payloadState (backend.stateRoot m) m := by
    simp only [Node.store, DB.commitExecution, htransaction]
  have hextends := hlinked.payloadState.extends_insert hfree m
  have hget : ∀ blockHash, (node.store work params).db.getExecution blockHash =
      if blockHash = params.blockHash then some params.execution
      else node.db.getExecution blockHash := fun _ => AssocMap.get?_insert ..
  constructor
  case execution =>
    intro j q hq execution hexecution
    rw [hget] at hexecution
    rw [hpayloadState]
    split at hexecution
    · next heq =>
      obtain rfl := Option.some.inj hexecution
      obtain rfl : j = k := hchain.getElem?_inj hq hp (heq.trans hhash)
      refine ⟨m, hsequence, ?_⟩
      rw [hroot]
      exact hfree.prepareGet_insert _ m
    · obtain ⟨m', hsequence', hget'⟩ := h.execution j q hq execution hexecution
      exact ⟨m', hsequence', Backend.prepareGet_of_extends hextends hget'⟩
  case recorded =>
    intro blockHash hsome
    rw [hget] at hsome
    split at hsome
    · next heq => exact ⟨p, List.mem_of_getElem? hp, (heq.trans hhash).symm⟩
    · exact h.recorded blockHash hsome
  case metaState => exact h.metaState
  case built =>
    intro work' hwork' params' hbuilt'
    simp only [Node.store] at hwork'
    split at hwork'
    · cases hwork'
    · cases hwork'
      cases hbuilt'

theorem Node.Deferred.commit (hfree : backend.CollisionFree) (h : node.Deferred backend genesis)
    (hchain : node.db.Chained node.chain) (hlinked : node.Linked backend) {p : Prepared}
    (hp : p ∈ node.prepared) (hplaced : node.db.Placed p.params)
    (uninserted : List ExecuteTask) :
    Node.Deferred backend genesis
      { node with
        db := node.db.commitBlock p.params
        uninserted := uninserted
        chain := node.chain ++ [p] } := by
  have hgrounded := hlinked.prepared p hp
  obtain ⟨parent, context, -, hrun, -⟩ := hgrounded.parent
  have hmetaState : (node.db.commitBlock p.params).metaState =
      AssocMap.insert node.db.metaState (backend.stateRoot p.params.metaTransaction.2)
        p.params.metaTransaction.2 := by
    rw [← hgrounded.root]
    rfl
  have hextends := hlinked.metaState.extends_insert hfree p.params.metaTransaction.2
  constructor
  case execution =>
    intro k q hq execution hexecution
    rcases getElem?_snoc hq with hq | ⟨-, rfl⟩
    · obtain ⟨m, hsequence, hget⟩ := h.execution k q hq execution hexecution
      exact ⟨m, hsequence.append p, hget⟩
    · -- Nothing is recorded for a new block.
      obtain ⟨q, hq, heq⟩ := h.recorded p.params.blockHash (Option.isSome_iff_exists.2 ⟨_, hexecution⟩)
      exact absurd heq (hchain.ne_of_fresh hplaced.fresh hq)
  case recorded =>
    intro blockHash hsome
    obtain ⟨q, hq, heq⟩ := h.recorded blockHash hsome
    exact ⟨q, List.mem_append_left _ hq, heq⟩
  case metaState =>
    intro q hq
    simp only [hmetaState]
    rcases List.mem_append.1 hq with hq | hq
    · exact Backend.prepareGet_of_extends hextends (h.metaState q hq)
    · obtain rfl := List.mem_singleton.1 hq
      rw [hrun.root]
      exact hfree.prepareGet_insert _ _
  case built =>
    intro work hwork params hbuilt
    obtain ⟨k, q, m, hq, hhash, hsequence, hrest⟩ := h.built work hwork params hbuilt
    refine ⟨k, q, m, ?_, hhash, hsequence.append p, hrest⟩
    rwa [List.getElem?_append_left (List.getElem?_eq_some_iff.1 hq).1]

theorem Step.deferred (hfree : backend.CollisionFree)
    (hreach : Reach backend backend.Builds txs timestamp node)
    (h : Step backend backend.Builds node node') (hnode : node.Deferred backend genesis) :
    node'.Deferred backend genesis := by
  have hchain := hreach.chained
  cases h with
  | commit now hp =>
      rcases node.commit_cases backend now _ with heq | ⟨hplaced, uninserted, -, heq⟩
      · rwa [heq]
      · rw [heq]
        exact hnode.commit hfree hchain (hreach.linked hfree) hp hplaced uninserted
  | store hwork hbuilt => exact hnode.store hfree hchain (hreach.linked hfree) hwork hbuilt
  | build hwork hbuilt h =>
      refine { hnode with built := fun work' hwork' params' hbuilt' => ?_ }
      cases hwork'
      cases hbuilt'
      obtain ⟨number, hexecuting⟩ := hreach.executing
      have hstored := hreach.stored fun _ _ _ hbuilds => hbuilds.grounded.2
      obtain ⟨k, p, hp, -, heq⟩ := hexecuting.buildNumber_eq hfree hchain hstored hwork
      rw [heq] at h
      exact hnode.of_executeTask hchain hp h
  | take hidle hqueue h =>
      refine { hnode with built := fun work' hwork' params' hbuilt' => ?_ }
      cases hwork'
      cases hbuilt'
  | fail => exact { hnode with built := by rintro _ ⟨⟩ }
  | restart h => exact { hnode with built := by rintro _ ⟨⟩ }
  | prepare h => exact { hnode with }
  | insert h => exact { hnode with }
  | lose task => exact { hnode with }
  | refresh h => exact { hnode with }

/-- The payload state and the execution of the genesis block. -/
def Backend.genesisState (backend : Backend) (timestamp : Nat) (context : Context) :
    StateMap × Execution :=
  let execution := backend.genesisExecution (backend.genesisBlock timestamp context).blockHash context
  (execution.payloadTransaction.2, execution.execution)

theorem Node.Deferred.of_genesis (hfree : backend.CollisionFree) (timestamp : Nat)
    (context : Context) (current : CurrentState) :
    Node.Deferred backend (backend.genesisState timestamp context)
      (.start (backend.genesisDB timestamp context) current
        [backend.genesisPrepared timestamp context current]) := by
  obtain ⟨block, hblock⟩ : ∃ block, block = backend.genesisBlock timestamp context := ⟨_, rfl⟩
  obtain ⟨execution, hexecution⟩ :
      ∃ execution, execution = backend.genesisExecution block.blockHash context := ⟨_, rfl⟩
  have hget : ∀ blockHash, (backend.genesisDB timestamp context).getExecution blockHash =
      if blockHash = block.blockHash then some execution.execution else none := by
    intro blockHash
    rw [hexecution, hblock]
    exact AssocMap.get?_insert ..
  have hgenesis : backend.genesisState timestamp context =
      (execution.payloadTransaction.2, execution.execution) := by
    rw [hexecution, hblock]
    rfl
  rw [hgenesis]
  constructor
  case execution =>
    intro k p hp execution' hexecution'
    cases k with
    | succ k => cases hp
    | zero =>
        cases hp
        have hhash : (backend.genesisPrepared timestamp context current).params.blockHash =
            block.blockHash := by rw [hblock]; rfl
        simp only [Node.start, hget, hhash, if_true] at hexecution'
        obtain rfl := Option.some.inj hexecution'
        refine ⟨_, .genesis, ?_⟩
        rw [hexecution]
        exact hfree.prepareGet_insert _ _
  case recorded =>
    intro blockHash hsome
    simp only [Node.start, hget] at hsome
    split at hsome
    · next heq =>
      refine ⟨_, List.mem_cons_self, ?_⟩
      rw [heq, hblock]
      rfl
    · cases hsome
  case metaState =>
    intro p hp
    obtain rfl := List.mem_singleton.1 hp
    exact hfree.prepareGet_insert _ _
  case built => rintro _ ⟨⟩

theorem Reach.deferred (hfree : backend.CollisionFree)
    (h : Reach backend backend.Builds txs timestamp node) :
    ∃ context, backend.executeGenesis txs timestamp = .ok context ∧
      node.Deferred backend (backend.genesisState timestamp context) := by
  induction h with
  | genesis hspec hexecute h => exact ⟨_, hexecute, .of_genesis hfree _ _ _⟩
  | step hreach h ih =>
      obtain ⟨context, hexecute, hnode⟩ := ih
      exact ⟨context, hexecute, h.deferred hfree hreach hnode⟩

/-- The blocks of the chain are the blocks in the database. -/
theorem Backend.Sequence.sequential (hfree : backend.CollisionFree)
    (hchain : node.db.Chained node.chain) (hstored : node.Stored backend)
    (hdeferred : node.Deferred backend genesis) {p₀ : Prepared} (hp₀ : node.chain[0]? = some p₀)
    (hexecuted : (node.db.getExecution p₀.params.blockHash).isSome) {k : ℕ} {m : StateMap}
    {execution : Execution} (h : backend.Sequence genesis node.chain k m execution) :
    backend.sequential node.db k = .ok (m, execution) := by
  have hhash : ∀ (k : ℕ) (p : Prepared), node.chain[k]? = some p →
      node.db.getBlockHash k = some p.params.blockHash := by
    intro k p hp
    rw [hchain.blockHash, hp]
    rfl
  induction h with
  | genesis =>
      obtain ⟨execution, hexecution⟩ := Option.isSome_iff_exists.1 hexecuted
      obtain ⟨m, hsequence, hget⟩ := hdeferred.execution 0 p₀ hp₀ execution hexecution
      cases hsequence
      refine Result.bind_eq_ok.2 ⟨_, orData_eq_ok.2 (hhash 0 p₀ hp₀), ?_⟩
      refine Result.bind_eq_ok.2 ⟨_, orData_eq_ok.2 hexecution, ?_⟩
      exact Result.bind_eq_ok.2 ⟨_, hget, rfl⟩
  | @block k p m m' execution execution' _ hp hexecute ih =>
      have hmem := List.mem_of_getElem? hp
      obtain ⟨payloadTxs, hload, hcovered⟩ := hstored.loadTxs hfree hmem
      refine Result.bind_eq_ok.2 ⟨_, ih, ?_⟩
      refine Result.bind_eq_ok.2 ⟨_, orData_eq_ok.2 (hhash _ p hp), ?_⟩
      refine Result.bind_eq_ok.2 ⟨_, orData_eq_ok.2 (hchain.header p hmem), ?_⟩
      refine Result.bind_eq_ok.2 ⟨_, orData_eq_ok.2 (hchain.body p hmem), ?_⟩
      refine Result.bind_eq_ok.2 ⟨_, hload, ?_⟩
      refine Result.bind_eq_ok.2 ⟨_, hdeferred.metaState p hmem, ?_⟩
      exact (executeBlock_congr hcovered).trans hexecute

/-- Whatever failed, got lost or was restarted, a recorded execution is that of
the sequential run, and a rebuilt task gives what the original one gives. -/
theorem deferred_execution (hfree : backend.CollisionFree)
    (h : Reach backend backend.Builds txs timestamp node) :
    (∀ number blockHash execution, node.db.getBlockHash number = some blockHash →
      node.db.getExecution blockHash = some execution →
      ∃ m, backend.sequential node.db number = .ok (m, execution)) ∧
    ∀ task, node.Has task → ∃ rebuilt, rebuildTask node.db task.number = .ok rebuilt ∧
      backend.executeTask node.db rebuilt = backend.executeTask node.db task := by
  have hchain := h.chained
  have hstored := h.stored fun _ _ _ hbuilds => hbuilds.grounded.2
  obtain ⟨executed, hexecuting⟩ := h.executing
  obtain ⟨context, -, hdeferred⟩ := h.deferred hfree
  constructor
  · intro number blockHash execution hhash hexecution
    rw [hchain.blockHash, Option.map_eq_some_iff] at hhash
    obtain ⟨p, hp, rfl⟩ := hhash
    obtain ⟨m, hsequence, -⟩ := hdeferred.execution number p hp execution hexecution
    obtain ⟨p₀, hp₀, hexecuted⟩ := hexecuting.executions 0 (Nat.zero_le _)
    exact ⟨m, hsequence.sequential hfree hchain hstored hdeferred hp₀ hexecuted⟩
  · intro task htask
    obtain ⟨p, hp, rfl⟩ := hexecuting.tasks task htask
    obtain ⟨k, hk⟩ := List.mem_iff_getElem?.1 (List.mem_of_mem_tail hp)
    have hnumber : (ExecuteTask.ofParams p.params).number = k := hchain.number k p hk
    obtain ⟨payloadTxs, hrebuild, hcovered⟩ := hstored.rebuildTask hfree hchain hk
    rw [hnumber]
    exact ⟨_, hrebuild, Backend.executeTask_congr hcovered⟩

end Runs

/-- Block 2 of the small chain is executed after block 1 was rebuilt. -/
theorem deferred_execution_overtaken :
    ∃ blockHash execution m, Sample.overtaken.db.getBlockHash 2 = some blockHash ∧
      Sample.overtaken.db.getExecution blockHash = some execution ∧
      Sample.backend.sequential Sample.overtaken.db 2 = .ok (m, execution) := by
  have hreach : Reach Sample.backend Sample.backend.Builds [Sample.systemTx] 0 Sample.overtaken :=
    Sample.reach_late.loops (Option.some_get _).symm
  obtain ⟨execution, hrecorded⟩ := Option.isSome_iff_exists.1
    (show ((Sample.overtaken.db.getBlockHash 2).bind
      Sample.overtaken.db.getExecution).isSome by decide +kernel)
  obtain ⟨blockHash, hhash, hexecution⟩ := Option.bind_eq_some_iff.1 hrecorded
  obtain ⟨m, hm⟩ := (deferred_execution Sample.collisionFree hreach).1 2 _ _ hhash hexecution
  exact ⟨blockHash, execution, m, hhash, hexecution, hm⟩

end Finastate.Chain
