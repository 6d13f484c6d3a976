import Mathlib.Logic.Relation
import Finastate.Chain.Linkage

/-!
# The executed number

The task loop stores the number of every execution it commits, whatever number
was stored before. It catches up from the stored number to that of its task, so
the blocks up to the stored number always have an execution. But the number of
the task itself is stored even if it is smaller, so the stored number goes back
when an older task comes late.
-/

namespace Finastate.Chain

open Executor

/-- The tasks a node has, wherever they are. -/
def Node.Has (node : Node) (task : ExecuteTask) : Prop :=
  task ∈ node.uninserted ∨ task ∈ node.queue ∨ ∃ work, node.work = some work ∧ work.task = task

/-- The blocks up to the executed number have their executions, the tasks are
those of the chain, and the task loop is at the number after the executed one
or at the number of its task. -/
structure Node.Executing (node : Node) (number : BlockNumber) : Prop where
  tasks : ∀ task, node.Has task → ∃ p ∈ node.chain.tail, task = .ofParams p.params
  stored : node.db.executionNumber = some number
  confirmed : number < node.chain.length
  executions : ∀ k ≤ number, ∃ p, node.chain[k]? = some p ∧
    (node.db.getExecution p.params.blockHash).isSome
  numbers : ∀ work, node.work = some work → work.numbers = catchUp number work.task.number
  built : ∀ work, node.work = some work → ∀ params, work.built = some params →
    params.number = work.due.1 ∧ ∃ p, node.chain[params.number]? = some p ∧
      params.blockHash = p.params.blockHash

theorem catchUp_of_lt {executionNumber number : ℕ} (h : executionNumber + 1 < number) :
    catchUp executionNumber number =
      (executionNumber + 1) :: catchUp (executionNumber + 1) number := by
  have hcount : number - (executionNumber + 1) = number - (executionNumber + 1 + 1) + 1 := by omega
  rw [catchUp, hcount, List.range'_succ, catchUp]

theorem catchUp_of_le {executionNumber number : ℕ} (h : number ≤ executionNumber + 1) :
    catchUp executionNumber number = [] := by
  rw [catchUp, Nat.sub_eq_zero_of_le h, List.range'_zero]

namespace Node

variable {backend : Backend} {Prepares : DB → CurrentState → Prepared → Prop} {node node' : Node}
  {number : BlockNumber}

/-- The block of the number the task loop is at. -/
theorem Executing.of_buildNumber (h : node.Executing number)
    (hchain : node.db.Chained node.chain) {work : Work} (hwork : node.work = some work)
    {params : ChainCommitExecutionParams}
    (hbuild : backend.buildNumber node.db work.due.1 work.due.2 = .ok params) :
    params.number = work.due.1 ∧ ∃ p, node.chain[params.number]? = some p ∧
      params.blockHash = p.params.blockHash := by
  obtain ⟨task, htask, hbuild⟩ := Result.bind_eq_ok.1 hbuild
  obtain ⟨execution, -, hbuild⟩ := Backend.executeTask_eq_ok hbuild
  obtain ⟨essence, -, -, -, hbuild⟩ := Backend.buildExecution_eq_ok hbuild
  obtain ⟨context, -, hblockHash, hnumber, -, -⟩ := Backend.executeOn_eq_ok hbuild
  have hrebuilt : ∀ k, rebuildTask node.db k = .ok task →
      task.number = k ∧ ∃ p, node.chain[k]? = some p ∧ task.blockHash = p.params.blockHash := by
    intro k hrebuild
    obtain ⟨blockHash, hhash, hrebuild⟩ := Result.bind_eq_ok.1 hrebuild
    obtain ⟨header, -, hrebuild⟩ := Result.bind_eq_ok.1 hrebuild
    obtain ⟨body, -, hrebuild⟩ := Result.bind_eq_ok.1 hrebuild
    obtain ⟨payloadTxs, -, hrebuild⟩ := Result.bind_eq_ok.1 hrebuild
    cases hrebuild
    rw [orQueue_eq_ok, hchain.blockHash, Option.map_eq_some_iff] at hhash
    obtain ⟨p, hp, hhash⟩ := hhash
    exact ⟨rfl, p, hp, hhash.symm⟩
  have hcurrent : task.number = work.due.1 ∧ ∃ p, node.chain[task.number]? = some p ∧
      task.blockHash = p.params.blockHash := by
    unfold Work.due at htask ⊢
    split at htask
    · rw [currentTask, if_pos rfl] at htask
      cases htask
      obtain ⟨p, hp, heq⟩ := h.tasks work.task (.inr (.inr ⟨work, hwork, rfl⟩))
      obtain ⟨k, hk⟩ := List.mem_iff_getElem?.1 (List.mem_of_mem_tail hp)
      refine ⟨rfl, p, ?_, by rw [heq]; rfl⟩
      have hnumber : work.task.number = k := by
        rw [heq]
        exact hchain.number k p hk
      rw [hnumber]
      exact hk
    · next k numbers hnumbers =>
      obtain ⟨hnumber, hp⟩ := hrebuilt k htask
      exact ⟨hnumber, hnumber ▸ hp⟩
  rw [hnumber, hblockHash]
  exact hcurrent

/-- The task loop catches up by one number, or is at the number of its task. -/
theorem Executing.due_cases (h : node.Executing number) {work : Work}
    (hwork : node.work = some work) :
    (work.numbers = [] ∧ work.due.1 = work.task.number ∧ work.task.number ≤ number + 1) ∨
      work.numbers = (number + 1) :: catchUp (number + 1) work.task.number ∧
        work.due.1 = number + 1 ∧ number + 1 < work.task.number := by
  have hnumbers := h.numbers work hwork
  by_cases hlt : number + 1 < work.task.number
  · rw [catchUp_of_lt hlt] at hnumbers
    refine .inr ⟨hnumbers, ?_, hlt⟩
    rw [Work.due, hnumbers]
  · have hle := not_lt.1 hlt
    rw [catchUp_of_le hle] at hnumbers
    refine .inl ⟨hnumbers, ?_, hle⟩
    rw [Work.due, hnumbers]

theorem Executing.store (h : node.Executing number) {work : Work}
    (hwork : node.work = some work) {params : ChainCommitExecutionParams}
    (hbuilt : work.built = some params) : (node.store work params).Executing params.number := by
  obtain ⟨hnumber, p, hp, hhash⟩ := h.built work hwork params hbuilt
  have hle : params.number ≤ number + 1 := by
    rcases h.due_cases hwork with ⟨-, hdue, hle⟩ | ⟨-, hdue, -⟩
    · rwa [hnumber, hdue]
    · rw [hnumber, hdue]
  constructor
  case tasks =>
    intro task htask
    apply h.tasks
    rcases htask with htask | htask | ⟨work', hwork', htask⟩
    · exact .inl htask
    · exact .inr (.inl htask)
    · refine .inr (.inr ⟨work, hwork, ?_⟩)
      simp only [Node.store] at hwork'
      split at hwork'
      · cases hwork'
      · cases hwork'
        exact htask
  case stored => rfl
  case confirmed => exact (List.getElem?_eq_some_iff.1 hp).1
  case executions =>
    intro k hk
    have hget : ∀ blockHash, (node.store work params).db.getExecution blockHash =
        if blockHash = params.blockHash then some params.execution
        else node.db.getExecution blockHash := fun _ => AssocMap.get?_insert ..
    by_cases hlast : k = params.number
    · refine ⟨p, hlast ▸ hp, ?_⟩
      rw [hget, if_pos hhash.symm]
      rfl
    · have hlt : k < params.number := Nat.lt_of_le_of_ne hk hlast
      obtain ⟨q, hq, hexecution⟩ := h.executions k (Nat.le_of_lt_succ (hlt.trans_le hle))
      refine ⟨q, hq, ?_⟩
      rw [hget]
      split
      · rfl
      · exact hexecution
  case numbers =>
    intro work' hwork'
    rcases h.due_cases hwork with ⟨hnumbers, -, -⟩ | ⟨hnumbers, hdue, -⟩
    · simp only [Node.store, hnumbers] at hwork'
      cases hwork'
    · simp only [Node.store, hnumbers] at hwork'
      cases hwork'
      rw [hnumber, hdue]
  case built =>
    intro work' hwork' params' hbuilt'
    simp only [Node.store] at hwork'
    split at hwork'
    · cases hwork'
    · cases hwork'
      cases hbuilt'

/-- The chain only grows at its end. -/
theorem Executing.grow (h : node.Executing number) {p : Prepared} (db : DB)
    (hnumber : db.executionNumber = node.db.executionNumber)
    (hexecution : db.execution = node.db.execution) (uninserted : List ExecuteTask)
    (htasks : ∀ task ∈ uninserted, task ∈ node.uninserted ∨ task = .ofParams p.params) :
    Node.Executing
      { node with
        db := db
        uninserted := uninserted
        chain := node.chain ++ [p] } number := by
  have hgetElem : ∀ (k : ℕ) (q : Prepared), node.chain[k]? = some q →
      (node.chain ++ [p])[k]? = some q := by
    intro k q hq
    rwa [List.getElem?_append_left (List.getElem?_eq_some_iff.1 hq).1]
  constructor
  case tasks =>
    intro task htask
    have hne : node.chain ≠ [] := List.ne_nil_of_length_pos (Nat.zero_lt_of_lt h.confirmed)
    rw [List.tail_append_of_ne_nil hne]
    have hold : node.Has task → ∃ q ∈ node.chain.tail ++ [p], task = .ofParams q.params := by
      intro hhas
      obtain ⟨q, hq, heq⟩ := h.tasks task hhas
      exact ⟨q, List.mem_append_left _ hq, heq⟩
    rcases htask with htask | htask | htask
    · rcases htasks task htask with htask | rfl
      · exact hold (.inl htask)
      · exact ⟨p, List.mem_append_right _ List.mem_cons_self, rfl⟩
    · exact hold (.inr (.inl htask))
    · exact hold (.inr (.inr htask))
  case stored => exact hnumber.trans h.stored
  case confirmed => simpa using Nat.lt_succ_of_lt h.confirmed
  case executions =>
    intro k hk
    obtain ⟨q, hq, hsome⟩ := h.executions k hk
    refine ⟨q, hgetElem k q hq, ?_⟩
    rwa [DB.getExecution, hexecution]
  case numbers => exact h.numbers
  case built =>
    intro work hwork params hbuilt
    obtain ⟨hdue, q, hq, hhash⟩ := h.built work hwork params hbuilt
    exact ⟨hdue, q, hgetElem _ q hq, hhash⟩

end Node

section Runs

variable {backend : Backend} {Prepares : DB → CurrentState → Prepared → Prop}
  {txs : List Transaction} {timestamp : Nat} {node node' : Node} {number : BlockNumber}

theorem Step.executing (h : Step backend Prepares node node')
    (hchain : node.db.Chained node.chain) (hnode : node.Executing number) :
    ∃ number', node'.Executing number' ∧ (number' = number ∨
      ∃ work params, node.work = some work ∧ work.built = some params ∧
        number' = params.number) := by
  cases h with
  | @commit p now hp =>
      refine ⟨number, ?_, .inl rfl⟩
      rcases node.commit_cases backend now _ with heq | ⟨-, uninserted, htasks, heq⟩
      · rwa [heq]
      · rw [heq]
        exact hnode.grow (node.db.commitBlock p.params) rfl rfl uninserted htasks
  | @insert task h =>
      refine ⟨number, { hnode with tasks := fun task' htask' => hnode.tasks task' ?_ }, .inl rfl⟩
      rcases htask' with htask' | htask' | htask'
      · exact .inl (List.mem_of_mem_erase htask')
      · rcases List.mem_append.1 htask' with htask' | htask'
        · exact .inr (.inl htask')
        · rw [List.mem_singleton.1 htask']
          exact .inl h
      · exact .inr (.inr htask')
  | lose task =>
      refine ⟨number, { hnode with tasks := fun task' htask' => hnode.tasks task' ?_ }, .inl rfl⟩
      exact htask'.imp_left List.mem_of_mem_erase
  | @take task queue executionNumber hidle hqueue h =>
      obtain rfl := Option.some.inj (hnode.stored.symm.trans h)
      refine ⟨number,
        { hnode with
          tasks := fun task' htask' => hnode.tasks task' ?_
          numbers := fun work hwork => ?_
          built := fun work hwork params hbuilt => ?_ }, .inl rfl⟩
      · rcases htask' with htask' | htask' | ⟨work, hwork, htask'⟩
        · exact .inl htask'
        · exact .inr (.inl (hqueue ▸ List.mem_cons_of_mem _ htask'))
        · cases hwork
          exact .inr (.inl (hqueue ▸ htask' ▸ List.mem_cons_self))
      · cases hwork
        rfl
      · cases hwork
        cases hbuilt
  | @build work params hwork hbuilt h =>
      refine ⟨number,
        { hnode with
          tasks := fun task' htask' => hnode.tasks task' ?_
          numbers := fun work' hwork' => ?_
          built := fun work' hwork' params' hbuilt' => ?_ }, .inl rfl⟩
      · rcases htask' with htask' | htask' | ⟨work', hwork', htask'⟩
        · exact .inl htask'
        · exact .inr (.inl htask')
        · cases hwork'
          exact .inr (.inr ⟨work, hwork, htask'⟩)
      · cases hwork'
        exact hnode.numbers work hwork
      · cases hwork'
        cases hbuilt'
        exact hnode.of_buildNumber hchain hwork h
  | store hwork hbuilt =>
      exact ⟨_, hnode.store hwork hbuilt, .inr ⟨_, _, hwork, hbuilt, rfl⟩⟩
  | fail =>
      refine ⟨number,
        { hnode with
          tasks := fun task' htask' => hnode.tasks task' ?_
          numbers := by rintro _ ⟨⟩
          built := by rintro _ ⟨⟩ }, .inl rfl⟩
      rcases htask' with htask' | htask' | ⟨work', hwork', htask'⟩
      · exact .inl htask'
      · exact .inr (.inl htask')
      · cases hwork'
  | restart h =>
      refine ⟨number,
        { hnode with
          tasks := fun task' htask' => ?_
          numbers := by rintro _ ⟨⟩
          built := by rintro _ ⟨⟩ }, .inl rfl⟩
      rcases htask' with htask' | htask' | ⟨work', hwork', htask'⟩
      · cases htask'
      · cases htask'
      · cases hwork'
  | prepare h => exact ⟨number, { hnode with }, .inl rfl⟩
  | refresh h => exact ⟨number, { hnode with }, .inl rfl⟩

theorem Node.Executing.of_genesis (timestamp : Nat) (context : Context) (current : CurrentState) :
    Node.Executing
      (.start (backend.genesisDB timestamp context) current
        [backend.genesisPrepared timestamp context current]) 0 := by
  constructor
  case tasks =>
    rintro task (htask | htask | ⟨work, hwork, -⟩)
    · cases htask
    · cases htask
    · cases hwork
  case stored => rfl
  case confirmed => exact Nat.one_pos
  case executions =>
    intro k hk
    obtain rfl := Nat.le_zero.1 hk
    refine ⟨_, rfl, ?_⟩
    rw [Node.start, Backend.genesisDB, DB.getExecution, DB.commitExecution,
      AssocMap.get?_insert]
    exact if_pos rfl ▸ rfl
  case numbers => rintro _ ⟨⟩
  case built => rintro _ ⟨⟩

theorem Reach.executing (h : Reach backend Prepares txs timestamp node) :
    ∃ number, node.Executing number := by
  induction h with
  | genesis hspec hexecute h => exact ⟨0, .of_genesis _ _ _⟩
  | step hreach h ih =>
      obtain ⟨number, hnode⟩ := ih
      obtain ⟨number', hnode', -⟩ := h.executing hreach.chained hnode
      exact ⟨number', hnode'⟩

/-- If the step takes a task, the number of the task is not below the executed
one. -/
def Careful (node node' : Node) : Prop :=
  ∀ work number, node.work = none → node'.work = some work →
    node.db.executionNumber = some number → number ≤ work.task.number

def CarefulStep (backend : Backend) (Prepares : DB → CurrentState → Prepared → Prop)
    (node node' : Node) : Prop :=
  Step backend Prepares node node' ∧ Careful node node'

instance (node node' : Node) : Decidable (Careful node node') :=
  match hwork : node.work, hwork' : node'.work, hnumber : node.db.executionNumber with
  | none, some work, some number =>
      decidable_of_iff (number ≤ work.task.number) (by simp [Careful, hwork, hwork', hnumber])
  | some _, _, _ => isTrue (by simp [Careful, hwork])
  | none, none, _ => isTrue (by simp [Careful, hwork'])
  | none, some _, none => isTrue (by simp [Careful, hnumber])

/-- So many steps of the task loop are careful. -/
def Node.careful (backend : Backend) : ℕ → Node → Bool
  | 0, _ => true
  | n + 1, node =>
      match node.loop backend with
      | none => false
      | some next => decide (Careful node next) && next.careful backend n

theorem CarefulRun.of_loops {n : ℕ} (h : node.loops backend n = some node')
    (hcareful : node.careful backend n = true) :
    Relation.ReflTransGen (CarefulStep backend Prepares) node node' := by
  induction n generalizing node with
  | zero =>
      cases h
      exact .refl
  | succ n ih =>
      obtain ⟨next, hnext, hloops⟩ := Option.bind_eq_some_iff.1 h
      rw [Node.careful, hnext, Bool.and_eq_true] at hcareful
      exact .head ⟨.of_loop hnext, of_decide_eq_true hcareful.1⟩ (ih hloops hcareful.2)

/-- The task at work is not below the executed number. -/
def Node.Ahead (node : Node) (number : BlockNumber) : Prop :=
  ∀ work, node.work = some work → number ≤ work.task.number

/-- A step goes on with the task at work, takes one or leaves the task loop
idle. -/
theorem Step.work_cases (h : Step backend Prepares node node') {work' : Work}
    (hwork' : node'.work = some work') :
    node.work = none ∨ ∃ work, node.work = some work ∧ work'.task = work.task := by
  cases h with
  | commit now hp =>
      rcases node.commit_cases backend now _ with heq | ⟨-, uninserted, -, heq⟩
      · rw [heq] at hwork'
        exact .inr ⟨work', hwork', rfl⟩
      · rw [heq] at hwork'
        exact .inr ⟨work', hwork', rfl⟩
  | take hidle hqueue h => exact .inl hidle
  | build hwork hbuilt h =>
      cases hwork'
      exact .inr ⟨_, hwork, rfl⟩
  | store hwork hbuilt =>
      simp only [Node.store] at hwork'
      split at hwork'
      · cases hwork'
      · cases hwork'
        exact .inr ⟨_, hwork, rfl⟩
  | fail => cases hwork'
  | restart h => cases hwork'
  | prepare h => exact .inr ⟨work', hwork', rfl⟩
  | insert h => exact .inr ⟨work', hwork', rfl⟩
  | lose task => exact .inr ⟨work', hwork', rfl⟩
  | refresh h => exact .inr ⟨work', hwork', rfl⟩

/-- A careful step does not lower the executed number. -/
theorem CarefulStep.executing (h : CarefulStep backend Prepares node node')
    (hchain : node.db.Chained node.chain) (hnode : node.Executing number)
    (hahead : node.Ahead number) :
    ∃ number', node'.Executing number' ∧ node'.Ahead number' ∧ number ≤ number' := by
  obtain ⟨number', hnode', hcases⟩ := h.1.executing hchain hnode
  rcases hcases with rfl | ⟨work, params, hwork, hbuilt, rfl⟩
  · refine ⟨number', hnode', fun work' hwork' => ?_, le_rfl⟩
    rcases h.1.work_cases hwork' with hidle | ⟨work, hwork, htask⟩
    · exact h.2 work' number' hidle hwork' hnode.stored
    · rw [htask]
      exact hahead work hwork
  · have hdue := (hnode.built work hwork params hbuilt).1
    have hle := hahead work hwork
    refine ⟨params.number, hnode', fun work' hwork' => ?_, ?_⟩
    · rcases h.1.work_cases hwork' with hidle | ⟨work'', hwork'', htask⟩
      · rw [hwork] at hidle
        cases hidle
      · obtain rfl := Option.some.inj (hwork.symm.trans hwork'')
        rw [htask, hdue]
        rcases hnode.due_cases hwork with ⟨-, hdue, -⟩ | ⟨-, hdue, hlt⟩
        · exact hdue.le
        · exact hdue.trans_le hlt.le
    · rw [hdue]
      rcases hnode.due_cases hwork with ⟨-, hdue, -⟩ | ⟨-, hdue, -⟩
      · exact hle.trans hdue.ge
      · exact (Nat.le_succ number).trans hdue.ge

theorem CarefulRun.executing {node₁ : Node}
    (h : Relation.ReflTransGen (CarefulStep backend Prepares) node node₁)
    (hreach : Reach backend Prepares txs timestamp node) (hnode : node.Executing number)
    (hahead : node.Ahead number) :
    Reach backend Prepares txs timestamp node₁ ∧
      ∃ number₁, node₁.Executing number₁ ∧ node₁.Ahead number₁ ∧ number ≤ number₁ := by
  induction h with
  | refl => exact ⟨hreach, number, hnode, hahead, le_rfl⟩
  | tail _ hstep ih =>
      obtain ⟨hreach₁, number₁, hnode₁, hahead₁, hle⟩ := ih
      obtain ⟨number₂, hnode₂, hahead₂, hle₂⟩ := hstep.executing hreach₁.chained hnode₁ hahead₁
      exact ⟨.step hreach₁ hstep.1, number₂, hnode₂, hahead₂, hle.trans hle₂⟩

/-- The executed number is at most the confirmed one, and every block up to it
has its execution. It does not go back in a run that takes no task below it,
and it goes back whenever the execution of such a task is stored. -/
theorem executed_number (h : Reach backend Prepares txs timestamp node) :
    (∃ executed confirmed, node.db.executionNumber = some executed ∧
      node.db.confirmedNumber = some confirmed ∧ executed ≤ confirmed ∧
      ∀ k ≤ executed, ∃ blockHash, node.db.getBlockHash k = some blockHash ∧
        (node.db.getExecution blockHash).isSome) ∧
    (node.work = none → ∀ node₁ node₂,
      Relation.ReflTransGen (CarefulStep backend Prepares) node node₁ →
      Relation.ReflTransGen (CarefulStep backend Prepares) node₁ node₂ →
      ∃ executed₁ executed₂, node₁.db.executionNumber = some executed₁ ∧
        node₂.db.executionNumber = some executed₂ ∧ executed₁ ≤ executed₂) ∧
    ∀ work params executed, node.work = some work → work.built = some params →
      node.db.executionNumber = some executed →
      ∃ executed', (node.store work params).db.executionNumber = some executed' ∧
        (executed' < executed ↔ work.task.number < executed) := by
  have hchain := h.chained
  obtain ⟨number, hnode⟩ := h.executing
  refine ⟨?_, ?_, ?_⟩
  · obtain ⟨confirmed, hconfirmed, hlength⟩ := hchain.confirmed
    refine ⟨number, confirmed, hnode.stored, hconfirmed, ?_, fun k hk => ?_⟩
    · exact Nat.le_of_lt_succ (hnode.confirmed.trans_eq hlength)
    · obtain ⟨p, hp, hexecution⟩ := hnode.executions k hk
      refine ⟨p.params.blockHash, ?_, hexecution⟩
      rw [hchain.blockHash, hp]
      rfl
  · intro hidle node₁ node₂ h₁ h₂
    have hahead : node.Ahead number := by
      intro work hwork
      rw [hidle] at hwork
      cases hwork
    obtain ⟨hreach₁, number₁, hnode₁, hahead₁, -⟩ := CarefulRun.executing h₁ h hnode hahead
    obtain ⟨-, number₂, hnode₂, -, hle⟩ := CarefulRun.executing h₂ hreach₁ hnode₁ hahead₁
    exact ⟨number₁, number₂, hnode₁.stored, hnode₂.stored, hle⟩
  · intro work params executed hwork hbuilt hstored
    obtain rfl := Option.some.inj (hnode.stored.symm.trans hstored)
    refine ⟨params.number, rfl, ?_⟩
    rw [(hnode.built work hwork params hbuilt).1]
    rcases hnode.due_cases hwork with ⟨-, hdue, -⟩ | ⟨-, hdue, hlt⟩
    · rw [hdue]
    · rw [hdue]
      exact iff_of_false (Nat.lt_asymm (Nat.lt_succ_self number))
        (Nat.lt_asymm ((Nat.lt_succ_self number).trans hlt))

end Runs

/-! Block 2 of the small chain. Its thread inserts its task before that of
block 1 does. -/

namespace Sample

def secondBlock : Prepared where
  metaTxs := []
  payloadTxs := []
  state := state
  params := Result.get (backend.buildBlock (second firstBlock).db
    { number := 2, timestamp := 2, metaTxs := [], payloadTxs := [], executionNumber := 0 })
    (by decide +kernel)

def third : Node :=
  { second firstBlock with prepared := [secondBlock, firstBlock] }.commit backend 2 secondBlock

/-- The tasks in the queue, the later one first. -/
def late : Node :=
  { third with
    uninserted := (third.uninserted.erase (.ofParams secondBlock.params)).erase
      (.ofParams firstBlock.params)
    queue := third.queue ++ [.ofParams secondBlock.params] ++ [.ofParams firstBlock.params] }

theorem reach_third : Reach backend backend.Builds [systemTx] 0 third := by
  have hbuilds : backend.Builds (second firstBlock).db state secondBlock :=
    ⟨nofun, rfl, _, _, Result.eq_ok_get _ _, rfl, rfl, rfl⟩
  exact .step (.step reach_firstBlock (.prepare hbuilds)) (.commit 2 List.mem_cons_self)

theorem reach_late : Reach backend backend.Builds [systemTx] 0 late :=
  .step (.step reach_third (.insert (by decide +kernel))) (.insert (by decide +kernel))

/-- Block 2 is executed, and the task of block 1 is built again. -/
def overtaken : Node := (late.loops backend 7).get (by decide +kernel)

def lowered : Node := (overtaken.loop backend).get (by decide +kernel)

end Sample

/-- The task of block 1 that comes after that of block 2 lowers the number. -/
theorem not_executed_number_overtaken :
    Reach Sample.backend Sample.backend.Builds [Sample.systemTx] 0 Sample.overtaken ∧
      Step Sample.backend Sample.backend.Builds Sample.overtaken Sample.lowered ∧
      Sample.overtaken.db.executionNumber = some 2 ∧
      Sample.lowered.db.executionNumber = some 1 :=
  ⟨Sample.reach_late.loops (Option.some_get _).symm, .of_loop (Option.some_get _).symm,
    by decide +kernel, by decide +kernel⟩

namespace Sample

/-- The tasks in the queue, in their order. -/
def prompt : Node :=
  { third with
    uninserted := (third.uninserted.erase (.ofParams firstBlock.params)).erase
      (.ofParams secondBlock.params)
    queue := third.queue ++ [.ofParams firstBlock.params] ++ [.ofParams secondBlock.params] }

theorem reach_prompt : Reach backend backend.Builds [systemTx] 0 prompt :=
  .step (.step reach_third (.insert (by decide +kernel))) (.insert (by decide +kernel))

/-- Block 1 is executed, and then block 2. -/
def halfway : Node := (prompt.loops backend 3).get (by decide +kernel)

def caughtUp : Node := (halfway.loops backend 3).get (by decide +kernel)

theorem careful_halfway :
    Relation.ReflTransGen (CarefulStep backend backend.Builds) prompt halfway :=
  CarefulRun.of_loops (Option.some_get _).symm (by decide +kernel)

theorem careful_caughtUp :
    Relation.ReflTransGen (CarefulStep backend backend.Builds) halfway caughtUp :=
  CarefulRun.of_loops (Option.some_get _).symm (by decide +kernel)

end Sample

/-- The executions up to 2 are there when the task of block 1 comes too late, and the number only
grows when it comes in time. -/
theorem executed_number_overtaken :
    (∃ confirmed, Sample.overtaken.db.confirmedNumber = some confirmed ∧ 2 ≤ confirmed ∧
      ∀ k ≤ 2, ∃ blockHash, Sample.overtaken.db.getBlockHash k = some blockHash ∧
        (Sample.overtaken.db.getExecution blockHash).isSome) ∧
    Sample.halfway.db.executionNumber = some 1 ∧ Sample.caughtUp.db.executionNumber = some 2 ∧
    ∃ executed₁ executed₂, Sample.halfway.db.executionNumber = some executed₁ ∧
      Sample.caughtUp.db.executionNumber = some executed₂ ∧ executed₁ ≤ executed₂ := by
  have hreach : Reach Sample.backend Sample.backend.Builds [Sample.systemTx] 0 Sample.overtaken :=
    Sample.reach_late.loops (Option.some_get _).symm
  obtain ⟨⟨executed, confirmed, hexecuted, hconfirmed, hle, hexecutions⟩, -⟩ :=
    executed_number hreach
  have htwo : Sample.overtaken.db.executionNumber = some 2 := by decide +kernel
  obtain rfl := Option.some.inj (hexecuted.symm.trans htwo)
  exact ⟨⟨confirmed, hconfirmed, hle, hexecutions⟩, by decide +kernel, by decide +kernel,
    (executed_number Sample.reach_prompt).2.1 (by rfl) _ _ Sample.careful_halfway
      Sample.careful_caughtUp⟩

end Finastate.Chain
