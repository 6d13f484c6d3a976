import Finastate.Chain.Execute

/-!
# Runs of a node

What happens to the database of a node: threads build blocks, commit them one
at a time under a lock and insert the execute tasks afterwards, each when it
gets to it, and the task loop processes the queue. `Step` lets all of this
interleave, and with it the failures: a task may fail at any point, or get
lost, and a restart leaves nothing but the database.
-/

namespace Finastate.Chain

open Executor

/-- A block that was built, with the lists and the current state it was built
with. -/
structure Prepared where
  metaTxs : List FullTransaction
  payloadTxs : List FullTransaction
  state : CurrentState
  params : ChainCommitBlockParams

/-- What the task loop is at: the task, the numbers to catch up with before it,
and an execution that is built and not committed yet. -/
structure Work where
  task : ExecuteTask
  numbers : List BlockNumber
  built : Option ChainCommitExecutionParams

/-- A node: its database and current state, the blocks its threads have built,
the tasks of committed blocks that are not inserted yet, the queue, and the
task loop. `chain` keeps the record of the committed blocks from the genesis
on; no step looks at it. -/
structure Node where
  db : DB
  current : CurrentState
  prepared : List Prepared
  uninserted : List ExecuteTask
  queue : List ExecuteTask
  work : Option Work
  chain : List Prepared

namespace Node

variable (node : Node)

/-- A thread calls `commit_block`. If that succeeds its task is left to be
inserted. -/
def commit (backend : Backend) (now : Nat) (p : Prepared) : Node :=
  let (db, result) := backend.commitBlock node.db now p.params
  { node with
    db := db
    uninserted :=
      match result with
      | .ok () => .ofParams p.params :: node.uninserted
      | .error _ => node.uninserted
    chain :=
      if db.confirmedNumber = node.db.confirmedNumber then node.chain else node.chain ++ [p] }

/-- The task loop takes the first task of the queue. -/
def take (task : ExecuteTask) (queue : List ExecuteTask) (executionNumber : BlockNumber) : Node :=
  { node with
    queue := queue
    work := some { task, numbers := catchUp executionNumber task.number, built := none } }

/-- The execution is written, and the next number is due. -/
def store (work : Work) (params : ChainCommitExecutionParams) : Node :=
  { node with
    db := node.db.commitExecution params
    work :=
      match work.numbers with
      | [] => none
      | _ :: numbers => some { work with numbers, built := none } }

/-- A node that starts with a database: no thread, no task. -/
def start (db : DB) (current : CurrentState) (chain : List Prepared) : Node where
  db := db
  current := current
  prepared := []
  uninserted := []
  queue := []
  work := none
  chain := chain

end Node

/-- The number the task loop is at, and the task if it is that of the task. -/
def Work.due (work : Work) : BlockNumber × Option ExecuteTask :=
  match work.numbers with
  | [] => (work.task.number, some work.task)
  | number :: _ => (number, none)

section Step

variable (backend : Backend) (Prepares : DB → CurrentState → Prepared → Prop)

/-- One step of a node whose threads prepare blocks in the given way. -/
inductive Step : Node → Node → Prop where
  | prepare {node : Node} {p : Prepared} (h : Prepares node.db node.current p) :
      Step node { node with prepared := p :: node.prepared }
  | commit {node : Node} {p : Prepared} (now : Nat) (hp : p ∈ node.prepared) :
      Step node (node.commit backend now p)
  | insert {node : Node} {task : ExecuteTask} (h : task ∈ node.uninserted) :
      Step node
        { node with uninserted := node.uninserted.erase task, queue := node.queue ++ [task] }
  | lose {node : Node} (task : ExecuteTask) :
      Step node { node with uninserted := node.uninserted.erase task }
  | take {node : Node} {task : ExecuteTask} {queue : List ExecuteTask}
      {executionNumber : BlockNumber} (hidle : node.work = none)
      (hqueue : node.queue = task :: queue) (h : node.db.executionNumber = some executionNumber) :
      Step node (node.take task queue executionNumber)
  | build {node : Node} {work : Work} {params : ChainCommitExecutionParams}
      (hwork : node.work = some work) (hbuilt : work.built = none)
      (h : backend.buildNumber node.db work.due.1 work.due.2 = .ok params) :
      Step node { node with work := some { work with built := some params } }
  | store {node : Node} {work : Work} {params : ChainCommitExecutionParams}
      (hwork : node.work = some work) (hbuilt : work.built = some params) :
      Step node (node.store work params)
  | fail {node : Node} : Step node { node with work := none }
  | refresh {node : Node} {now : Nat} {current : CurrentState}
      (h : backend.updateCurrentState node.db now = .ok current) :
      Step node { node with current := current }
  | restart {node : Node} {now : Nat} {current : CurrentState}
      (h : backend.updateCurrentState node.db now = .ok current) :
      Step node (.start node.db current node.chain)

/-- The genesis block as the first of the chain. -/
def Backend.genesisPrepared (timestamp : Nat) (context : Context) (current : CurrentState) :
    Prepared where
  metaTxs := context.metaTxs
  payloadTxs := context.payloadTxs
  state := current
  params := backend.genesisBlock timestamp context

/-- The nodes that come about from the genesis of the transactions, which come
from the spec without a witness. -/
inductive Reach (txs : List Transaction) (timestamp : Nat) : Node → Prop where
  | genesis {context : Context} {now : Nat} {current : CurrentState}
      (hspec : ∀ tx ∈ txs, tx.witness = none)
      (hexecute : backend.executeGenesis txs timestamp = .ok context)
      (h : backend.updateCurrentState (backend.genesisDB timestamp context) now = .ok current) :
      Reach txs timestamp
        (.start (backend.genesisDB timestamp context) current
          [backend.genesisPrepared timestamp context current])
  | step {node node' : Node} (hreach : Reach txs timestamp node)
      (h : Step backend Prepares node node') : Reach txs timestamp node'

end Step

/-! ## What a call of `commit_block` does -/

/-- The test of `commit_block`: the block is new and follows the confirmed
one. -/
structure DB.Placed (db : DB) (params : ChainCommitBlockParams) : Prop where
  fresh : db.getHeader params.blockHash = none
  next : ∃ number, db.confirmedNumber = some number ∧ params.header.number = number + 1 ∧
    db.getBlockHash number = some params.header.parentHash

/-- `commit_block` writes a block that passes its test, and nothing else. -/
theorem Backend.commitBlock_cases (backend : Backend) (db : DB) (now : Nat)
    (params : ChainCommitBlockParams) :
    (db.Placed params ∧ backend.commitBlock db now params =
      (db.commitBlock params,
        (backend.updateCurrentState (db.commitBlock params) now).map fun _ => ())) ∨
    ∃ e, backend.commitBlock db now params = (db, .error e) := by
  unfold commitBlock
  split
  · exact .inr ⟨_, rfl⟩
  · next hfresh =>
    split
    · exact .inr ⟨_, rfl⟩
    · next number hnumber =>
      split
      · exact .inr ⟨_, rfl⟩
      · next hash hhash =>
        split
        · next hnext =>
          refine .inl ⟨⟨?_, number, hnumber, hnext.1, ?_⟩, rfl⟩
          · simpa using hfresh
          · rw [hnext.2, hhash]
        · exact .inr ⟨_, rfl⟩

/-- A call of `commit_block` changes nothing, or it commits the block. -/
theorem Node.commit_cases (backend : Backend) (node : Node) (now : Nat) (p : Prepared) :
    node.commit backend now p = node ∨
    node.db.Placed p.params ∧ ∃ uninserted,
      (∀ task ∈ uninserted, task ∈ node.uninserted ∨ task = .ofParams p.params) ∧
      node.commit backend now p =
        { node with
          db := node.db.commitBlock p.params
          uninserted := uninserted
          chain := node.chain ++ [p] } := by
  rcases backend.commitBlock_cases node.db now p.params with ⟨hplaced, h⟩ | ⟨e, h⟩
  · obtain ⟨number, hnumber, hnext, -⟩ := hplaced.next
    have hchanged : (node.db.commitBlock p.params).confirmedNumber ≠ node.db.confirmedNumber := by
      simp [DB.commitBlock, hnumber, hnext]
    refine .inr ⟨hplaced, _, ?_, by rw [commit, h]; simp only [if_neg hchanged]; rfl⟩
    split
    · intro task htask
      exact (List.mem_cons.1 htask).symm
    · exact fun task htask => .inl htask
  · refine .inl ?_
    rw [commit, h]
    simp

theorem Reach.spec {backend : Backend} {Prepares : DB → CurrentState → Prepared → Prop}
    {txs : List Transaction} {timestamp : Nat} {node : Node}
    (h : Reach backend Prepares txs timestamp node) : ∀ tx ∈ txs, tx.witness = none := by
  induction h with
  | genesis hspec hexecute h => exact hspec
  | step hreach h ih => exact ih

/-! Block 1 of the small chain, from its verification to its commit. -/

namespace Sample

def first : Node :=
  .start genesis state [backend.genesisPrepared 0 genesisContext state]

/-- Block 1 with these lists, as it passes `verify_block`. -/
def verified (metaTxs payloadTxs : List Transaction) (h : (received metaTxs payloadTxs).isOk) :
    Prepared where
  metaTxs := metaTxs.map backend.fullTx
  payloadTxs := payloadTxs.map backend.fullTx
  state := state
  params := Result.get (received metaTxs payloadTxs) h

/-- The node after it has committed the block. -/
def second (p : Prepared) : Node := { first with prepared := [p] }.commit backend 1 p

theorem reach_first (Prepares : DB → CurrentState → Prepared → Prop) :
    Reach backend Prepares [systemTx] 0 first := by
  have hexecute := Result.eq_ok_get (backend.executeGenesis [systemTx] 0) (by decide +kernel)
  have hstate := Result.eq_ok_get (backend.updateCurrentState genesis 0) (by decide +kernel)
  refine .genesis (fun tx htx => ?_) hexecute hstate
  rw [List.mem_singleton.1 htx]
  rfl

theorem reach_second {Prepares : DB → CurrentState → Prepared → Prop} {p : Prepared}
    (h : Prepares genesis state p) : Reach backend Prepares [systemTx] 0 (second p) :=
  .step (.step (reach_first Prepares) (.prepare h)) (.commit 1 List.mem_cons_self)

/-- The second node has no other block than the given one. -/
theorem tail_second {p q : Prepared} (h : q ∈ (second p).chain.tail) : q = p := by
  rcases Node.commit_cases backend { first with prepared := [p] } 1 p with heq |
    ⟨-, uninserted, -, heq⟩
  · rw [second, heq] at h
    cases h
  · rw [second, heq] at h
    exact List.mem_singleton.1 h

end Sample

/-! ## The task loop -/

section ProcessTask

variable {backend : Backend} {Prepares : DB → CurrentState → Prepared → Prop}

/-- A number that is due is built and stored, or the task fails. -/
theorem Step.processNumber (now : Nat) (node : Node) (work : Work) :
    Relation.ReflTransGen (Step backend Prepares)
        { node with work := some { work with built := none } }
        { node with
          db := (backend.processNumber node.db now work.due.1 work.due.2).1
          work := none } ∧
      ((backend.processNumber node.db now work.due.1 work.due.2).2.isOk →
        ∃ params, (backend.processNumber node.db now work.due.1 work.due.2).1 =
            node.db.commitExecution params ∧
          Relation.ReflTransGen (Step backend Prepares)
            { node with work := some { work with built := none } } (node.store work params)) := by
  rw [Backend.processNumber]
  cases hbuild : backend.buildNumber node.db work.due.1 work.due.2 with
  | error e => exact ⟨.single .fail, nofun⟩
  | ok params =>
      have hbuilt : Step backend Prepares { node with work := some { work with built := none } }
          { node with work := some { work with built := some params } } :=
        @Step.build backend Prepares _ { work with built := none } params rfl rfl hbuild
      have hstored : Step backend Prepares
          { node with work := some { work with built := some params } } (node.store work params) :=
        @Step.store backend Prepares _ { work with built := some params } params rfl rfl
      have hsteps := (Relation.ReflTransGen.single hbuilt).tail hstored
      exact ⟨hsteps.tail .fail, fun _ => ⟨params, rfl, hsteps⟩⟩

theorem Step.processNumbers (now : Nat) (task : ExecuteTask) (numbers : List BlockNumber)
    (node : Node) :
    Relation.ReflTransGen (Step backend Prepares)
      { node with work := some { task, numbers, built := none } }
      { node with db := (backend.processNumbers now task node.db numbers).1, work := none } := by
  induction numbers generalizing node with
  | nil => exact (Step.processNumber now node { task, numbers := [], built := none }).1
  | cons number numbers ih =>
      obtain ⟨hfailed, hstored⟩ := @Step.processNumber backend Prepares now
        node { task, numbers := number :: numbers, built := none }
      have hdue : Work.due { task, numbers := number :: numbers, built := none } =
          (number, none) := rfl
      rw [hdue] at hfailed hstored
      rw [Backend.processNumbers]
      rcases hresult : backend.processNumber node.db now number none with ⟨db, e | u⟩
      · rw [hresult] at hfailed
        exact hfailed
      · rw [hresult] at hstored
        obtain ⟨params, rfl, hsteps⟩ := hstored rfl
        exact hsteps.trans (ih { node with db := node.db.commitExecution params })

/-- `process_task` is a run of the task loop: it takes the task and builds and stores one number
after the other, up to that of the task or to the first error. -/
theorem Step.processTask {node : Node} {task : ExecuteTask} {queue : List ExecuteTask} (now : Nat)
    (hidle : node.work = none) (hqueue : node.queue = task :: queue)
    (hnumber : node.db.executionNumber.isSome) :
    Relation.ReflTransGen (Step backend Prepares) node
      { node with
        db := (backend.processTask node.db now task).1
        queue := queue
        work := none } := by
  obtain ⟨executionNumber, hexecution⟩ := Option.isSome_iff_exists.1 hnumber
  have htake : Step backend Prepares node (node.take task queue executionNumber) :=
    .take hidle hqueue hexecution
  rw [Backend.processTask, hexecution]
  exact .head htake (Step.processNumbers now task (catchUp executionNumber task.number)
    { node with queue := queue })

end ProcessTask

/-- What the task loop does next if nothing fails. -/
def Node.loop (backend : Backend) (node : Node) : Option Node :=
  match node.work with
  | none =>
      match node.queue, node.db.executionNumber with
      | task :: queue, some executionNumber => some (node.take task queue executionNumber)
      | _, _ => none
  | some work =>
      match work.built with
      | none =>
          match backend.buildNumber node.db work.due.1 work.due.2 with
          | .ok params => some { node with work := some { work with built := some params } }
          | .error _ => none
      | some params => some (node.store work params)

theorem Step.of_loop {backend : Backend} {Prepares : DB → CurrentState → Prepared → Prop}
    {node node' : Node} (h : node.loop backend = some node') : Step backend Prepares node node' := by
  unfold Node.loop at h
  split at h
  · next hidle =>
    split at h
    · next hqueue hnumber =>
      cases h
      exact .take hidle hqueue hnumber
    · cases h
  · next work hwork =>
    split at h
    · next hbuilt =>
      split at h
      · next params hbuild =>
        cases h
        exact .build hwork hbuilt hbuild
      · cases h
    · next params hbuilt =>
      cases h
      exact .store hwork hbuilt

/-- So many steps of the task loop. -/
def Node.loops (backend : Backend) : ℕ → Node → Option Node
  | 0, node => some node
  | n + 1, node => (node.loop backend).bind (Node.loops backend n)

theorem Reach.loops {backend : Backend} {Prepares : DB → CurrentState → Prepared → Prop}
    {txs : List Transaction} {timestamp : Nat} {n : ℕ} {node node' : Node}
    (h : Reach backend Prepares txs timestamp node) (hloops : node.loops backend n = some node') :
    Reach backend Prepares txs timestamp node' := by
  induction n generalizing node with
  | zero =>
      cases hloops
      exact h
  | succ n ih =>
      obtain ⟨next, hnext, hloops⟩ := Option.bind_eq_some_iff.1 hloops
      exact ih (h.step (.of_loop hnext)) hloops

end Finastate.Chain
