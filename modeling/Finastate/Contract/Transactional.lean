import Finastate.Contract.Conservation
import Finastate.Library.Savepoint

/-!
# The data of contracts is transactional

The contexts of one transaction keep what contracts write in a stack of
buffers, and a nested call has a buffer of its own over that of its caller.
Here the stack is compared with what it stands for: a nested call works on a
copy of the data and of the events, which becomes its caller's when the call
succeeds and is dropped when it fails (`Savepoint`). The operations of an
execution on the data, with what is read, are read off its states (`ops`,
`Traced`).

The two agree as long as a nested call starts on an empty buffer (`Clean`). A
call that fails below another one that handles the failure leaves its buffer
behind, and the next call of the same depth starts on it. What a failed call
leaves to its caller and to the others is the same in both cases. Balances have
no part in this: a transfer writes past the buffer of the contract that makes it.
-/

namespace Finastate.Contract

open Executor Vm Savepoint

/-- The keys of the data of contracts begin with this. -/
def dataPrefix : Bytes := STORAGE_KEY ++ SEPARATOR ++ CONTRACT_DATA_STORAGE_KEY ++ SEPARATOR

abbrev DataKey := { key : DBKey // dataPrefix <+: key }

/-- The key of a key of a contract. -/
def dataKey (util : Util) (address : Address) (key : Bytes) : DataKey :=
  ⟨moduleKey util address key,
    ⟨(util.hash (address.bytes ++ SEPARATOR ++ key)).bytes, rfl⟩⟩

theorem DataKey.ne_balanceKey (key : DataKey) (account : Address) :
    key.1 ≠ BalanceModule.balance.key account := by
  obtain ⟨_, rest, rfl⟩ := key
  rw [dataPrefix]
  simp only [List.append_assoc]
  exact contractKey_ne_balanceKey _ account

/-- What the executor has of the data, and its events. -/
def contextCopy (context : Context) : Copy DataKey DBValue Event where
  get := fun key => context.payloadGet key.1
  events := context.events

theorem copies_context (context : Context) :
    Savepoint.copies Subtype.val context.payloadGet context.events [] = [contextCopy context] := by
  simp [Savepoint.copies, copy, contextCopy]

theorem events_foldr_payloadSet (context : Context) (items : List (DBKey × Option DBValue)) :
    (items.foldr (fun item context => context.payloadSet item.1 item.2) context).events =
      context.events := by
  induction items with
  | nil => rfl
  | cons item items ih => exact ih

theorem events_foldl_emitEvent (context : Context) (events : List Event) :
    (events.foldl Context.emitEvent context).events = context.events ++ events := by
  induction events generalizing context with
  | nil => simp
  | cons event events ih => simp [ih, Context.emitEvent]

namespace CallStack

variable {vm : VM} {c : HostCall} {s : State} {w w' : CallStack}

def pending (w : CallStack) : List (Pending DBKey DBValue Event) :=
  w.stack.map fun c => (c.payload, c.events)

/-- What the running contract, its callers and the executor have of the data
and the events. -/
def copies (w : CallStack) : List (Copy DataKey DBValue Event) :=
  Savepoint.copies Subtype.val w.executor.payloadGet w.executor.events w.pending

theorem length_copies (w : CallStack) : w.copies.length = w.callers.length + 2 := by
  simp [copies, pending, stack]

/-- What a contract reads is what its copy has. -/
theorem payloadGet_eq_read (w : CallStack) (key : DBKey) :
    w.payloadGet key = Overlay.read w.executor.payloadGet (w.pending.map Prod.fst) key := by
  rw [payloadGet, pending, List.map_map]
  rfl

/-- The entries of a transfer are no data. -/
theorem get?_movedItems_dataKey (w : CallStack) (move : Move) (key : DataKey) :
    AssocMap.get? (w.movedItems move) key.1 = none :=
  get?_movedItems_other w (key.ne_balanceKey _) (key.ne_balanceKey _)

/-- A transfer only emits its event. -/
theorem copies_moved (w : CallStack) (move : Move) :
    (w.moved move).copies =
      (w.emitEvent (BalanceModule.transferred move.sender move.recipient move.value)).copies := by
  have hitems := w.get?_movedItems_dataKey move
  rw [moved]
  generalize w.movedItems move = items at hitems
  obtain ⟨executor, top, callers, nested⟩ := w
  cases callers with
  | nil =>
      have hstore : ∀ key : DataKey,
          (items.foldr (fun item executor => executor.payloadSet item.1 item.2)
            executor).payloadGet key.1 = executor.payloadGet key.1 := by
        intro key
        rw [Context.payloadGet_foldr_payloadSet, hitems, Option.getD_none]
      have hevents := events_foldr_payloadSet executor items
      simp only [copies, moduleApplyEvents, payloadApply, emitEvent, hevents]
      exact Savepoint.copies_congr hstore (.cons (.refl _) .nil)
  | cons caller callers =>
      have hsame : Same (Subtype.val : DataKey → DBKey) (caller.payload, caller.events)
          (AssocMap.extend caller.payload items, caller.events) := by
        refine ⟨fun key => ?_, rfl⟩
        rw [AssocMap.get?_extend, hitems key, Option.none_or]
      refine Savepoint.copies_congr (fun _ => rfl) (.cons (.refl _) (.cons hsame ?_))
      exact List.forall₂_same.2 fun p _ => .refl p

theorem step_emitEvent (w : CallStack) (event : Event) :
    Step w.copies (.emit event) (w.emitEvent event).copies :=
  step_emit w.top.payload w.top.events event

theorem step_payloadSet (w : CallStack) (key : DataKey) (value : Option DBValue) :
    Step w.copies (.write key value) (w.payloadSet key.1 value).copies :=
  step_write Subtype.val_injective w.top.payload w.top.events key value

/-- A host function other than a write emits what it adds to the events. -/
theorem run_emitted (heffect : Effect vm c s w w')
    (hwrite : ∀ key value, c ≠ .storageWrite key value) :
    Run w.copies ((w'.top.events.drop w.top.events.length).map .emit) w'.copies := by
  cases heffect with
  | same =>
      rw [List.drop_length]
      exact .nil _
  | write hcall haddress => exact absurd hcall (hwrite _ _)
  | event event =>
      have hdrop : (w.emitEvent event).top.events.drop w.top.events.length = [event] :=
        List.drop_left
      rw [hdrop]
      exact .single (w.step_emitEvent event)
  | @move move hmove hmovable =>
      have htop : (w.payloadApply (w.movedItems move)).top = w.top := by
        obtain ⟨executor, top, callers, nested⟩ := w
        cases callers with
        | nil => rfl
        | cons caller callers => rfl
      have hevents : (w.moved move).top.events =
          w.top.events ++ [BalanceModule.transferred move.sender move.recipient move.value] := by
        simp only [moved, moduleApplyEvents, htop]
      rw [hevents, List.drop_left, copies_moved]
      exact .single (w.step_emitEvent _)

end CallStack

/-- The operations of a host function. -/
def dataOps (vm : VM) (c : HostCall) (s : State) (w : CallStack) :
    List (Op DataKey DBValue Event) :=
  match c, w.top.contractEnv.contractAddress with
  | .storageRead key _, some address =>
      let key := dataKey vm.util address key
      [.read key (w.payloadGet key.1)]
  | .storageWrite key value, some address => [.write (dataKey vm.util address key) value]
  | c, _ => ((hostCall vm c s w).world.top.events.drop w.top.events.length).map .emit

theorem hostCall_run (vm : VM) (c : HostCall) (s : State) {w : CallStack} (h : w.Idle) :
    Run w.copies (dataOps vm c s w) (hostCall vm c s w).world.copies := by
  have heffect := hostCall_effect vm c s h
  cases c with
  | storageRead key shareId =>
      cases haddress : w.top.contractEnv.contractAddress with
      | none =>
          have hemitted := CallStack.run_emitted heffect (by simp)
          simpa only [dataOps, haddress] using hemitted
      | some address =>
          have hworld : (hostCall vm (.storageRead key shareId) s w).world = w := by
            simp only [hostCall, CallStack.vmToModuleKey, haddress]
            cases w.payloadGet (moduleKey vm.util address key) with
            | none => rfl
            | some value => rfl
          simp only [hworld, dataOps, haddress]
          exact .single (step_read (dataKey vm.util address key) _ (w.payloadGet_eq_read _))
  | storageWrite key value =>
      cases haddress : w.top.contractEnv.contractAddress with
      | none =>
          have hworld : (hostCall vm (.storageWrite key value) s w).world = w := by
            simp only [hostCall, CallStack.vmToModuleKey, haddress]
          simp only [dataOps, haddress, hworld, List.drop_length]
          exact .nil _
      | some address =>
          have hworld : (hostCall vm (.storageWrite key value) s w).world =
              w.payloadSet (dataKey vm.util address key).1 value := by
            simp only [hostCall, CallStack.vmToModuleKey, haddress]
            rfl
          simp only [dataOps, haddress, hworld]
          exact .single (w.step_payloadSet _ value)
  | _ => exact CallStack.run_emitted heffect (by simp)

/-- How a call ends for the copies. -/
def endOp {ε α : Type} : Except ε α → Op DataKey DBValue Event
  | .ok _ => .commit
  | .error _ => .abort

theorem finishNested_run (vm : VM) (c : NestedCall) (s : State) (w : CallStack)
    (n : VMContext) (nested : List VMContext) (result : VMResult Bytes) :
    Step (CallStack.copies { w with top := n, callers := w.stack })
      (endOp (finishExecute vm c s { w with nested := n :: nested } result).2.2)
      (finishNested vm c s { w with nested := n :: nested } result).world.copies := by
  have habort : Step (CallStack.copies { w with top := n, callers := w.stack }) .abort w.copies :=
    step_abort Subtype.val (n.payload, n.events)
  have hcommit : Step (CallStack.copies { w with top := n, callers := w.stack }) .commit
      (CallStack.applied { w with nested := n :: nested } n nested).copies :=
    step_commit w.top.payload n.payload w.top.events n.events
  rw [finishNested]
  rcases finishExecute_cases vm c s { w with nested := n :: nested } result with
    ⟨s', e, heq⟩ | ⟨s', data, n', nested', hok, hnested, heq⟩
  · rw [heq]
    cases c.errorShareId with
    | none => exact habort
    | some errorShareId =>
        simp only [CallStack.nestedDrain, State.makeErrorAware_world]
        exact habort
  · cases hnested
    rw [heq]
    cases c.errorShareId with
    | none => exact hcommit
    | some errorShareId =>
        simp only [State.makeErrorAware_world]
        exact hcommit

/-- A nested call that does not begin. -/
theorem copies_finishNested_error (vm : VM) (c : NestedCall) (s : State) (w : CallStack)
    (e : VMError) : (finishNested vm c s w (.error e)).world.copies = w.copies := by
  rw [finishNested, finishExecute]
  cases c.errorShareId with
  | none => rfl
  | some errorShareId =>
      rcases w.nestedDrain_cases with hpanic | ⟨n, nested, hnested, hdrain⟩
      · simp only [hpanic]
      · simp only [hdrain, State.makeErrorAware_world]
        rfl

theorem Effect.nested_eq {vm : VM} {c : HostCall} {s : State} {w w' : CallStack}
    (h : Effect vm c s w w') : w'.nested = w.nested := by
  cases h with
  | same => rfl
  | write hcall haddress => rfl
  | event event => rfl
  | move hmove hmovable =>
      rw [CallStack.moved, CallStack.moduleApplyEvents, CallStack.payloadApply]
      split
      · rfl
      · rfl

/-- The contexts kept for nested calls are empty, once the buffers of the first
one are applied or dropped. -/
theorem VMContext.forall_drained {n : VMContext} {nested : List VMContext}
    (h : ∀ n ∈ nested, n.payload = [] ∧ n.events = []) :
    ∀ n' ∈ { n with payload := [], events := [] } :: nested,
      n'.payload = [] ∧ n'.events = [] := by
  intro n' hn'
  rcases List.mem_cons.1 hn' with rfl | hn'
  · exact ⟨rfl, rfl⟩
  · exact h n' hn'

theorem Finished.forall_nested {result : VMResult Bytes} {w w' : CallStack}
    (h : Finished result w w') (hnested : ∀ n ∈ w.nested, n.payload = [] ∧ n.events = []) :
    ∀ n ∈ w'.nested, n.payload = [] ∧ n.events = [] := by
  cases h with
  | same => exact hnested
  | apply hok hn =>
      rw [hn] at hnested
      exact VMContext.forall_drained fun n' hn' => hnested n' (List.mem_cons_of_mem _ hn')
  | drain hn =>
      rw [hn] at hnested
      exact VMContext.forall_drained fun n' hn' => hnested n' (List.mem_cons_of_mem _ hn')

namespace Machine

variable {vm : VM} {m m' m'' : Machine}

/-- A nested call finds nothing that a failed one has left. -/
def Clean (m : Machine) : Prop :=
  match m.process with
  | .execute _ _ => ∀ n ∈ m.world.nested.head?, n.payload = [] ∧ n.events = []
  | _ => True

instance (m : Machine) : Decidable m.Clean :=
  match m with
  | ⟨_, _, .call _ _, _⟩ => inferInstanceAs (Decidable True)
  | ⟨w, _, .execute _ _, _⟩ =>
      inferInstanceAs (Decidable (∀ n, w.nested.head? = some n →
        n.payload = [] ∧ n.events = []))
  | ⟨_, _, .done _, _⟩ => inferInstanceAs (Decidable True)

/-- The context of a nested call is empty when it starts. -/
theorem Clean.callee {c : NestedCall} {next : Reply → Process} (h : m.Clean)
    (hprocess : m.process = .execute c next) :
    (m.world.callee c.contractAddress).payload = [] ∧
      (m.world.callee c.contractAddress).events = [] := by
  rw [Clean, hprocess] at h
  rw [CallStack.callee]
  cases hnested : m.world.nested with
  | nil => exact ⟨rfl, rfl⟩
  | cons n nested => exact h n (by rw [hnested]; rfl)

/-- The operations of the next step: those of a host function, the start of a
nested call that begins, or its end. -/
def ops (vm : VM) (m : Machine) : List (Op DataKey DBValue Event) :=
  match m.process with
  | .call c _ => dataOps vm c m.state m.world
  | .execute c _ =>
      match enterNested vm c m.world with
      | (_, .ok _) => [.start]
      | (_, .error _) => []
  | .done r =>
      match m.frames with
      | [] => []
      | f :: _ =>
          [endOp (finishExecute vm f.call f.state m.world.leave
            (r.map fun _ => m.state.output)).2.2]

/-- A step of an execution is a step of the copies, but that a nested call may
start on what its context has been left with. -/
theorem Step.run_or_start (hstep : Step vm m m') (hwf : WF vm m) :
    Run m.world.copies (m.ops vm) m'.world.copies ∨
      m.ops vm = [.start] ∧ ∃ c next, m.process = .execute c next ∧
        m'.world.copies = Savepoint.copies Subtype.val m.world.executor.payloadGet
          m.world.executor.events (((m.world.callee c.contractAddress).payload,
            (m.world.callee c.contractAddress).events) :: m.world.pending) := by
  rw [Machine.Step, step] at hstep
  rw [ops]
  cases hprocess : m.process with
  | call c next =>
      rw [hprocess] at hstep
      cases hstep
      exact Or.inl (hostCall_run vm c m.state hwf.idle)
  | execute c next =>
      simp only [hprocess] at hstep ⊢
      rcases enterNested_cases vm c m.world with
        ⟨w, process, state, heq, hentered⟩ | ⟨w, e, heq, hworld⟩
      · rw [heq] at hstep ⊢
        cases hstep
        refine Or.inr ⟨rfl, c, next, rfl, ?_⟩
        rw [hentered.world]
        rfl
      · rw [heq] at hstep ⊢
        cases hstep
        have hcopies : w.copies = m.world.copies := by
          rcases hworld with rfl | ⟨-, rfl⟩
          · rfl
          · rfl
        rw [resume, copies_finishNested_error, hcopies]
        exact Or.inl (.nil _)
  | done r =>
      simp only [hprocess] at hstep
      cases hframes : m.frames with
      | nil =>
          rw [hframes] at hstep
          cases hstep
      | cons f frames =>
          rw [hframes] at hstep
          cases hstep
          obtain ⟨caller, callers, hcallers, hleave⟩ := hwf.exists_leave hframes
          have hcopies : m.world.copies = CallStack.copies
              { m.world with callers := caller :: callers } := by rw [← hcallers]
          simp only [hleave, hcopies]
          exact Or.inl (.single (finishNested_run vm f.call f.state
            { m.world with top := caller, callers := callers } m.world.top m.world.nested _))

/-- On an empty buffer a nested call starts as a transaction does. -/
theorem Step.run (hstep : Step vm m m') (hwf : WF vm m) (hclean : m.Clean) :
    Run m.world.copies (m.ops vm) m'.world.copies := by
  rcases hstep.run_or_start hwf with hrun | ⟨hops, c, next, hprocess, hcopies⟩
  · exact hrun
  · obtain ⟨hpayload, hevents⟩ := hclean.callee hprocess
    rw [hops, hcopies, hpayload, hevents]
    exact .single step_start

/-- An execution and the operations of its steps. -/
inductive Traced (vm : VM) : Machine → List (Op DataKey DBValue Event) → Machine → Prop
  | refl (m : Machine) : Traced vm m [] m
  | tail {m m' m'' : Machine} {ops : List (Op DataKey DBValue Event)} (h : Traced vm m ops m')
      (hstep : Step vm m' m'') : Traced vm m (ops ++ m'.ops vm) m''

theorem Traced.steps {ops : List (Op DataKey DBValue Event)} (h : Traced vm m ops m') :
    Steps vm m m' := by
  induction h with
  | refl => exact .refl
  | tail h hstep ih => exact ih.tail hstep

theorem exists_traced (h : Steps vm m m') : ∃ ops, Traced vm m ops m' := by
  induction h with
  | refl => exact ⟨[], .refl m⟩
  | tail h hstep ih =>
      obtain ⟨ops, htraced⟩ := ih
      exact ⟨_, htraced.tail hstep⟩

/-- An execution is a run of the copies. -/
theorem Traced.run {ops : List (Op DataKey DBValue Event)} (h : Traced vm m ops m')
    (hwf : WF vm m) (hclean : ∀ m', Steps vm m m' → m'.Clean) :
    Run m.world.copies ops m'.world.copies := by
  induction h with
  | refl => exact .nil _
  | tail h hstep ih => exact ih.append (hstep.run (hwf.steps h.steps) (hclean _ h.steps))

/-- An execution as long as more than `n` callers wait. -/
inductive Within (vm : VM) (n : ℕ) : Machine → Machine → Prop
  | refl {m : Machine} (hdeep : n < m.frames.length) : Within vm n m m
  | head {m m' m'' : Machine} (hdeep : n < m.frames.length) (hstep : Step vm m m')
      (h : Within vm n m' m'') : Within vm n m m''

theorem Within.deep {n : ℕ} (h : Within vm n m m') : n < m.frames.length := by
  cases h with
  | refl hdeep => exact hdeep
  | head hdeep hstep h => exact hdeep

theorem Within.steps {n : ℕ} (h : Within vm n m m') : Steps vm m m' := by
  induction h with
  | refl hdeep => exact .refl
  | head hdeep hstep h ih => exact ih.head hstep

theorem WF.length_copies (h : WF vm m) : m.world.copies.length = m.frames.length + 2 := by
  rw [CallStack.length_copies, h.depth]

/-- Only the end of a run ends a transaction. -/
theorem inner_of_mem_ops {op : Op DataKey DBValue Event} (h : op ∈ m.ops vm)
    (hprocess : ∀ r, m.process ≠ .done r) : op ≠ .commit ∧ op ≠ .abort := by
  rw [ops] at h
  cases hp : m.process with
  | done r => exact absurd hp (hprocess r)
  | call c next =>
      simp only [hp, dataOps] at h
      split at h
      · rw [List.mem_singleton.1 h]
        exact ⟨nofun, nofun⟩
      · rw [List.mem_singleton.1 h]
        exact ⟨nofun, nofun⟩
      · obtain ⟨event, -, rfl⟩ := List.mem_map.1 h
        exact ⟨nofun, nofun⟩
  | execute c next =>
      simp only [hp] at h
      split at h
      · rw [List.mem_singleton.1 h]
        exact ⟨nofun, nofun⟩
      · cases h

theorem Step.loose {op : Op DataKey DBValue Event} (hstep : Step vm m m') (hwf : WF vm m)
    (hop : m.ops vm = [op]) : Loose m.world.copies op m'.world.copies := by
  rcases hstep.run_or_start hwf with hrun | ⟨hops, c, next, -, hcopies⟩
  · rw [hop, run_single_iff] at hrun
    exact .step hrun
  · cases hop.symm.trans hops
    rw [hcopies, Savepoint.copies]
    exact .start _ _

theorem Step.above {n : ℕ} (hstep : Step vm m m') (hwf : WF vm m) (hdeep : n < m.frames.length)
    (hdeep' : n < m'.frames.length) : Above (n + 2) m.world.copies (m.ops vm) m'.world.copies := by
  have hlength := hwf.length_copies
  have hlength' := (hwf.step hstep).length_copies
  by_cases hop : ∃ op, m.ops vm = [op]
  · obtain ⟨op, hop⟩ := hop
    have hloose := hstep.loose hwf hop
    rw [hop]
    exact .single hloose (by omega) (by omega)
  · rcases hstep.run_or_start hwf with hrun | ⟨hops, -⟩
    · refine .of_run hrun (fun op hmem => inner_of_mem_ops hmem fun r hprocess => hop ?_) (by omega)
      -- The end of a run has one operation, the end of its transaction.
      rw [ops, hprocess]
      cases hframes : m.frames with
      | nil => simp [hframes] at hdeep
      | cons f frames => exact ⟨_, rfl⟩
    · exact absurd ⟨_, hops⟩ hop

/-- While the callee of a nested call and its own callees run, they only work
above the copies of the caller. -/
theorem Within.above {n : ℕ} (h : Within vm n m m') (hwf : WF vm m) :
    ∃ ops, Above (n + 2) m.world.copies ops m'.world.copies := by
  induction h with
  | refl hdeep => exact ⟨[], .nil (by rw [hwf.length_copies]; omega)⟩
  | @head m m' m'' hdeep hstep h ih =>
      obtain ⟨ops, habove⟩ := ih (hwf.step hstep)
      exact ⟨_, (hstep.above hwf hdeep h.deep).append habove⟩

/-- A nested call that fails for its caller, at any depth and whatever it and
its own callees have done, leaves the data and the events of all contracts as
they were when it started. -/
theorem copies_of_failed_call {m₁ m₂ : Machine} (hwf : WF vm m) (hstart : m.ops vm = [.start])
    (hstep : Step vm m m₁) (hinside : Within vm m.frames.length m₁ m₂)
    (hfailed : m₂.ops vm = [.abort]) (hend : Step vm m₂ m')
    (hframes : m'.frames.length = m.frames.length) : m'.world.copies = m.world.copies := by
  have hsteps := hinside.steps.head hstep
  have hwf₁ := hwf.step hstep
  have hwf₂ := hwf.steps hsteps
  obtain ⟨c, hcopies⟩ := (hstep.loose hwf hstart).exists_start
  obtain ⟨ops, habove⟩ := hinside.above hwf₁
  have habort := hend.loose hwf₂ hfailed
  rw [hcopies, ← hwf.length_copies] at habove
  refine habove.abort habort ?_
  rw [(hwf₂.step hend).length_copies, hframes, hwf.length_copies]

/-- All nested calls of a run are calls of `contract_execute_ea`. -/
inductive ErrorAware : Process → Prop
  | done (r : VMResult Unit) : ErrorAware (.done r)
  | call {c : HostCall} {next : Reply → Process} (h : ∀ reply, ErrorAware (next reply)) :
      ErrorAware (.call c next)
  | execute {c : NestedCall} {next : Reply → Process} {errorShareId : Nat}
      (hc : c.errorShareId = some errorShareId) (h : ∀ reply, ErrorAware (next reply)) :
      ErrorAware (.execute c next)

/-- What a caller that handles every error leaves in the contexts kept for
nested calls. -/
structure Tidy (m : Machine) : Prop where
  process : ErrorAware m.process
  frames : ∀ f ∈ m.frames, (∃ errorShareId, f.call.errorShareId = some errorShareId) ∧
    ∀ reply, ErrorAware (f.next reply)
  nested : ∀ n ∈ m.world.nested, n.payload = [] ∧ n.events = []

theorem Tidy.clean (h : Tidy m) : m.Clean := by
  rw [Clean]
  split
  · intro n hn
    exact h.nested n (List.mem_of_mem_head? hn)
  · trivial

theorem errorAware_resume {o : Outcome} {next : Reply → Process} {frames : List Frame}
    (h : ∀ reply, ErrorAware (next reply)) : ErrorAware (resume o next frames).process := by
  rw [resume]
  cases o.result with
  | ok reply => exact h reply
  | error e => exact .done _

theorem nested_finishNested (vm : VM) {c : NestedCall} {errorShareId : Nat}
    (hc : c.errorShareId = some errorShareId) (s : State) (w : CallStack) (n : VMContext)
    (nested : List VMContext) (result : VMResult Bytes) :
    (finishNested vm c s { w with nested := n :: nested } result).world.nested =
      { n with payload := [], events := [] } :: nested := by
  rw [finishNested]
  rcases finishExecute_cases vm c s { w with nested := n :: nested } result with
    ⟨s', e, heq⟩ | ⟨s', data, n', nested', hok, hnested, heq⟩
  · rw [heq, hc]
    simp only [CallStack.nestedDrain, State.makeErrorAware_world]
  · cases hnested
    rw [heq, hc]
    simp only [State.makeErrorAware_world]
    rfl

theorem Tidy.step (h : Tidy m) (hwf : WF vm m)
    (hcode : ∀ code func, ErrorAware (vm.run code func)) (hstep : Step vm m m') : Tidy m' := by
  have hprocess := h.process
  rw [Machine.Step, Machine.step] at hstep
  cases hp : m.process with
  | call c next =>
      rw [hp] at hstep hprocess
      cases hstep
      cases hprocess with
      | call hnext =>
          refine ⟨errorAware_resume hnext, h.frames, ?_⟩
          rw [resume, (hostCall_effect vm c m.state hwf.idle).nested_eq]
          exact h.nested
  | execute c next =>
      simp only [hp] at hstep
      rw [hp] at hprocess
      cases hprocess with
      | @execute c next errorShareId hc hnext =>
          rcases enterNested_cases vm c m.world with
            ⟨w, process, state, heq, hentered⟩ | ⟨w, e, heq, hworld⟩
          · rw [heq] at hstep
            cases hstep
            obtain ⟨code, -, rfl⟩ := hentered.code
            refine ⟨hcode code _, ?_, ?_⟩
            · intro f hf
              rcases List.mem_cons.1 hf with rfl | hf
              · exact ⟨⟨errorShareId, hc⟩, hnext⟩
              · exact h.frames f hf
            · rw [hentered.world]
              exact fun n hn => h.nested n (List.mem_of_mem_tail hn)
          · rw [heq] at hstep
            cases hstep
            refine ⟨errorAware_resume hnext, h.frames, ?_⟩
            have hnested : ∀ n ∈ w.nested, n.payload = [] ∧ n.events = [] := by
              rcases hworld with rfl | ⟨-, rfl⟩
              · exact h.nested
              · intro n hn
                rcases List.mem_cons.1 hn with rfl | hn
                · exact h.clean.callee hp
                · exact h.nested n (List.mem_of_mem_tail hn)
            exact (finishNested_finished vm c m.state w (.error e)).forall_nested hnested
  | done r =>
      simp only [hp] at hstep
      cases hframes : m.frames with
      | nil =>
          rw [hframes] at hstep
          cases hstep
      | cons f frames =>
          rw [hframes] at hstep
          cases hstep
          obtain ⟨⟨errorShareId, hc⟩, hnext⟩ := h.frames f (hframes ▸ List.mem_cons_self)
          obtain ⟨caller, callers, hcallers, hleave⟩ := hwf.exists_leave hframes
          refine ⟨errorAware_resume hnext, ?_, ?_⟩
          · intro f' hf'
            exact h.frames f' (hframes ▸ List.mem_cons_of_mem f hf')
          · have hnested := nested_finishNested vm hc f.state
              { m.world with top := caller, callers := callers } m.world.top m.world.nested
              (r.map fun _ => m.state.output)
            rw [resume, hleave, hnested]
            exact VMContext.forall_drained h.nested

theorem Tidy.steps (h : Tidy m) (hwf : WF vm m)
    (hcode : ∀ code func, ErrorAware (vm.run code func)) (hsteps : Steps vm m m') : Tidy m' := by
  induction hsteps with
  | refl => exact h
  | tail hsteps hstep ih => exact ih.step (hwf.steps hsteps) hcode hstep

end Machine

namespace Library

variable (lib : Library) {config : VMConfig} {context : Context}

/-- Contracts that handle every error of the contracts they call leave nothing
behind. -/
theorem clean_of_errorAware
    (hcode : ∀ code func, Machine.ErrorAware (lib.run config code func))
    (senderAddress contractAddress : Address) (code : Bytes) (mode : Mode) (method : String)
    (params : Bytes) (payValue : Balance) {m : Machine}
    (hsteps : Machine.Steps (lib.vm config)
      (lib.start config context senderAddress contractAddress code mode method params payValue)
      m) : m.Clean := by
  have htidy : Machine.Tidy (lib.start config context senderAddress contractAddress code mode
      method params payValue) := ⟨hcode code _, nofun, nofun⟩
  exact (htidy.steps (lib.wf_start config context senderAddress contractAddress code mode method
    params payValue) hcode hsteps).clean

/-- What the end of a run over the executor does to the copies. -/
theorem step_finish {f : Final} (hcallers : f.world.callers = []) :
    Step f.world.copies (endOp (finish f).2) [contextCopy (finish f).1] := by
  obtain ⟨state, ⟨executor, top, callers, nested⟩, result⟩ := f
  cases hcallers
  rw [← copies_context]
  cases result with
  | error e =>
      exact step_abort Subtype.val (top.payload, top.events)
  | ok u =>
      have hevents : (finish ⟨state, ⟨executor, top, [], nested⟩, .ok u⟩).1.events =
          executor.events ++ top.events := by
        rw [finish]
        simp only [CallStack.drain, CallStack.payloadApply, CallStack.applyEvents,
          events_foldl_emitEvent, events_foldr_payloadSet]
      rw [hevents]
      refine step_commit_store Subtype.val top.payload top.events ?_
      intro key
      change (top.events.foldl Context.emitEvent _).payloadGet key.1 = _
      rw [Context.payloadGet_foldl_emitEvent]
      exact Context.payloadGet_foldr_payloadSet executor top.payload key.1

/-- The data and the events of contracts are transactional. The execution of a
call is a run of the copies from those of the executor: at each moment the
running contract, its callers and the executor have what the run has come to,
and when it is over the copy of the called contract becomes the executor's, or
is dropped. -/
theorem transactional_innerVmExecute (hconfig : innerGetVmConfig context = .ok config)
    (senderAddress contractAddress : Address) (code : Bytes) (mode : Mode) (method : String)
    (params : Bytes) (payValue : Balance)
    (hclean : ∀ m, Machine.Steps (lib.vm config)
      (lib.start config context senderAddress contractAddress code mode method params payValue)
      m → m.Clean) :
    (∀ ops m, Machine.Traced (lib.vm config)
        (lib.start config context senderAddress contractAddress code mode method params payValue)
        ops m → Run [contextCopy context] (.start :: ops) m.world.copies) ∧
      ∃ ops f, Machine.Traced (lib.vm config)
          (lib.start config context senderAddress contractAddress code mode method params
            payValue) ops (Machine.ended f []) ∧
        Run [contextCopy context]
          (.start :: ops ++ [endOp (lib.innerVmExecute context senderAddress contractAddress code
            mode method params payValue).2])
          [contextCopy (lib.innerVmExecute context senderAddress contractAddress code mode method
            params payValue).1] := by
  have hwf := lib.wf_start config context senderAddress contractAddress code mode method params
    payValue
  have hall : ∀ ops m, Machine.Traced (lib.vm config)
      (lib.start config context senderAddress contractAddress code mode method params payValue)
      ops m → Run [contextCopy context] (.start :: ops) m.world.copies := by
    intro ops m htraced
    refine .cons ?_ (htraced.run hwf hclean)
    rw [← copies_context]
    exact step_start
  refine ⟨hall, ?_⟩
  obtain ⟨f, hsteps, heq⟩ := lib.innerVmExecute_eq_finish hconfig senderAddress contractAddress
    code mode method params payValue
  obtain ⟨ops, htraced⟩ := Machine.exists_traced hsteps
  refine ⟨ops, f, htraced, (hall ops _ htraced).append ?_⟩
  have hcallers : f.world.callers = [] := List.eq_nil_of_length_eq_zero (hwf.steps hsteps).depth
  rw [heq]
  exact .single (step_finish hcallers)

end Library

namespace Sample

/-- The second contract writes and fails, and the first one, which calls it
twice, handles that. -/
def handler : List (Bytes × Process) :=
  [([1], sequence [.inl (.storageWrite [7] (some [1])), .inr (nested 2 0 (some 1)),
      .inl (.storageRead [7] 0), .inr (nested 2 0 (some 1))]),
    ([2], sequence [.inl (.storageWrite [7] (some [2])), .inl (.eventWrite [3]),
      .inl (.errorReturn [])])]

def handlerContext : Context :=
  (library handler).store ((library handler).store (context []) (account 9) (account 1) [1])
    (account 9) (account 2) [2]

def handlerStart : Machine :=
  (library handler).start .default handlerContext (account 9) (account 1) [1] .call "call" [] 0

theorem clean_handler {m : Machine}
    (h : Machine.Steps ((library handler).vm .default) handlerStart m) : m.Clean := by
  have halways : Machine.always ((library handler).vm .default) (fun m => decide m.Clean) 20
      handlerStart = true := by
    decide +kernel
  exact of_decide_eq_true (Machine.of_always halways h)

theorem transactional_handler :
    ∃ ops f, Machine.Traced ((library handler).vm .default) handlerStart ops
        (Machine.ended f []) ∧
      Run [contextCopy handlerContext]
        (.start :: ops ++ [endOp ((library handler).innerVmExecute handlerContext (account 9)
          (account 1) [1] .call "call" [] 0).2])
        [contextCopy ((library handler).innerVmExecute handlerContext (account 9) (account 1) [1]
          .call "call" [] 0).1] :=
  have hconfig : innerGetVmConfig handlerContext = .ok VMConfig.default := by decide +kernel
  ((library handler).transactional_innerVmExecute hconfig (account 9) (account 1) [1] .call "call"
    [] 0 fun _ => clean_handler).2

/-- The execution after some steps. -/
def handlerAfter : ℕ → Machine
  | 0 => handlerStart
  | n + 1 => ((handlerAfter n).step ((library handler).vm .default)).getD handlerStart

/-- The second contract writes, emits and fails, and the first one has what it
had. -/
theorem failed_call_handler : (handlerAfter 6).world.copies = (handlerAfter 1).world.copies := by
  have hstep : ∀ n ≤ 5, Machine.Step ((library handler).vm .default) (handlerAfter n)
      (handlerAfter (n + 1)) := by
    have hsome : ∀ n ≤ 5,
        ((handlerAfter n).step ((library handler).vm .default)).isSome = true := by
      decide +kernel
    intro n hn
    obtain ⟨m, hm⟩ := Option.isSome_iff_exists.1 (hsome n hn)
    rw [Machine.Step, handlerAfter, hm]
    rfl
  have hwf := (library handler).wf_start .default handlerContext (account 9) (account 1) [1] .call
    "call" [] 0
  have hinside : Machine.Within ((library handler).vm .default) (handlerAfter 1).frames.length
      (handlerAfter 2) (handlerAfter 5) :=
    .head (by decide +kernel) (hstep 2 (by decide)) <|
      .head (by decide +kernel) (hstep 3 (by decide)) <|
        .head (by decide +kernel) (hstep 4 (by decide)) (.refl (by decide +kernel))
  exact Machine.copies_of_failed_call (hwf.step (hstep 0 (by decide))) (by decide +kernel)
    (hstep 1 (by decide)) hinside (by decide +kernel) (hstep 5 (by decide)) (by decide +kernel)

theorem errorAware_sequence {calls : List (HostCall ⊕ NestedCall)}
    (h : ∀ c, .inr c ∈ calls → ∃ errorShareId, c.errorShareId = some errorShareId) :
    Machine.ErrorAware (sequence calls) := by
  induction calls with
  | nil => exact .done _
  | cons call calls ih =>
      have hrest := ih fun c hc => h c (List.mem_cons_of_mem call hc)
      cases call with
      | inl c => exact .call fun _ => hrest
      | inr c =>
          obtain ⟨errorShareId, hc⟩ := h c List.mem_cons_self
          exact .execute hc fun _ => hrest

theorem errorAware_library {contracts : List (Bytes × Process)}
    (h : ∀ contract ∈ contracts, Machine.ErrorAware contract.2) (config : VMConfig)
    (code : Bytes) (func : String) :
    Machine.ErrorAware ((library contracts).run config code func) := by
  simp only [library]
  split
  · cases hget : AssocMap.get? contracts code with
    | none => exact .done _
    | some process => exact h _ (AssocMap.mem_of_get?_eq_some hget)
  · exact .done _

/-- The first contract handles its errors, so its second call starts on an
empty buffer too. -/
theorem clean_second_call :
    ∃ m, Machine.Steps ((library handler).vm .default) handlerStart m ∧
      m.world.nested.length = 1 ∧ m.ops ((library handler).vm .default) = [.start] ∧
      m.Clean := by
  have hsometime : Machine.sometime ((library handler).vm .default)
      (fun m => decide (m.world.nested.length = 1 ∧
        m.ops ((library handler).vm .default) = [.start])) 20 handlerStart = true := by
    decide +kernel
  obtain ⟨m, hsteps, hm⟩ := Machine.of_sometime hsometime
  obtain ⟨hlength, hops⟩ := of_decide_eq_true hm
  refine ⟨m, hsteps, hlength, hops, ?_⟩
  refine (library handler).clean_of_errorAware (errorAware_library ?_ .default) (account 9)
    (account 1) [1] .call "call" [] 0 hsteps
  intro contract hcontract
  simp only [handler, List.mem_cons, List.not_mem_nil, or_false] at hcontract
  rcases hcontract with rfl | rfl
  · exact errorAware_sequence (by simp [nested])
  · exact errorAware_sequence (by simp)

end Sample

end Finastate.Contract
