import Finastate.Contract.View

/-!
# Executions on contexts that hold the same

The writes of a running transaction are a map, so two contexts in which every
key has the same entry are alike whatever the order of the entries. Executions
of contracts on alike contexts go alike.
-/

namespace Finastate

namespace Executor

/-- The same context but for the order of the writes of the running
transaction. -/
structure Context.Alike (c c' : Context) : Prop where
  rest : { c' with payloadState := c.payloadState } = c
  statedb : c'.payloadState.statedb = c.payloadState.statedb
  buffer : c'.payloadState.buffer = c.payloadState.buffer
  txBuffer : ∀ key, AssocMap.get? c'.payloadState.txBuffer key =
    AssocMap.get? c.payloadState.txBuffer key

namespace Context.Alike

variable {c c' : Context}

theorem refl (c : Context) : Alike c c := ⟨rfl, rfl, rfl, fun _ => rfl⟩

theorem env (h : Alike c c') : c'.env = c.env := by
  rw [← h.rest]

theorem callEnv (h : Alike c c') : c'.callEnv = c.callEnv := by
  rw [← h.rest]

theorem payloadGet (h : Alike c c') : c'.payloadGet = c.payloadGet := by
  funext key
  rw [Context.payloadGet, Context.payloadGet, ContextState.get, ContextState.get, h.txBuffer,
    h.buffer, h.statedb]

theorem payloadSet (h : Alike c c') (key : DBKey) (value : Option DBValue) :
    Alike (c.payloadSet key value) (c'.payloadSet key value) := by
  refine ⟨?_, h.statedb, h.buffer, fun key' => ?_⟩
  · conv_rhs => rw [← h.rest]
    rfl
  · change AssocMap.get? (AssocMap.insert _ _ _) _ = AssocMap.get? (AssocMap.insert _ _ _) _
    rw [AssocMap.get?_insert, AssocMap.get?_insert, h.txBuffer]

theorem foldr_payloadSet (h : Alike c c') (items : List (DBKey × Option DBValue)) :
    Alike (items.foldr (fun item c => c.payloadSet item.1 item.2) c)
      (items.foldr (fun item c => c.payloadSet item.1 item.2) c') := by
  induction items with
  | nil => exact h
  | cons item items ih => exact ih.payloadSet item.1 item.2

theorem emitEvent (h : Alike c c') (event : Event) :
    Alike (c.emitEvent event) (c'.emitEvent event) := by
  refine ⟨?_, h.statedb, h.buffer, h.txBuffer⟩
  have hevents : c'.events = c.events := by rw [← h.rest]
  conv_rhs => rw [← h.rest]
  rfl

theorem foldl_emitEvent (h : Alike c c') (events : List Event) :
    Alike (events.foldl Context.emitEvent c) (events.foldl Context.emitEvent c') := by
  induction events generalizing c c' with
  | nil => exact h
  | cons event events ih => exact ih (h.emitEvent event)

end Context.Alike

end Executor

namespace Contract

open Executor Vm

/-- The same contexts over alike contexts of the executor. -/
structure CallStack.Alike (w w' : CallStack) : Prop where
  executor : w.executor.Alike w'.executor
  top : w'.top = w.top
  callers : w'.callers = w.callers
  nested : w'.nested = w.nested

namespace CallStack.Alike

variable {w w' : CallStack}

theorem view (h : Alike w w') : SameView w w' := by
  refine ⟨h.top, ?_, h.executor.env, h.executor.callEnv⟩
  rw [below, below, h.executor.payloadGet, h.callers]

theorem withTop (h : Alike w w') (top : VMContext) :
    Alike { w with top := top } { w' with top := top } :=
  ⟨h.executor, rfl, h.callers, h.nested⟩

theorem payloadApply (h : Alike w w') (items : List (DBKey × Option DBValue)) :
    Alike (w.payloadApply items) (w'.payloadApply items) := by
  obtain ⟨executor, top, callers, nested⟩ := w
  obtain ⟨executor', top', callers', nested'⟩ := w'
  obtain ⟨hexecutor, rfl, rfl, rfl⟩ := h
  cases callers' with
  | nil => exact ⟨hexecutor.foldr_payloadSet items, rfl, rfl, rfl⟩
  | cons caller callers => exact ⟨hexecutor, rfl, rfl, rfl⟩

theorem applyEvents (h : Alike w w') (items : List Event) :
    Alike (w.applyEvents items) (w'.applyEvents items) := by
  obtain ⟨executor, top, callers, nested⟩ := w
  obtain ⟨executor', top', callers', nested'⟩ := w'
  obtain ⟨hexecutor, rfl, rfl, rfl⟩ := h
  cases callers' with
  | nil => exact ⟨hexecutor.foldl_emitEvent items, rfl, rfl, rfl⟩
  | cons caller callers => exact ⟨hexecutor, rfl, rfl, rfl⟩

theorem after (h : Alike w w') (top : VMContext) (items : List (DBKey × Option DBValue)) :
    Alike (w.after top items) (w'.after top items) := (h.withTop top).payloadApply items

theorem leave (h : Alike w w') : Alike w.leave w'.leave := by
  obtain ⟨executor, top, callers, nested⟩ := w
  obtain ⟨executor', top', callers', nested'⟩ := w'
  obtain ⟨hexecutor, rfl, rfl, rfl⟩ := h
  cases callers' with
  | nil => exact ⟨hexecutor, rfl, rfl, rfl⟩
  | cons caller callers => exact ⟨hexecutor, rfl, rfl, rfl⟩

end CallStack.Alike

section Lookup

variable {c c' : Context}

theorem contextGet_congr {V : Type} {decode : Codec.Decoder V}
    (h : c'.payloadGet = c.payloadGet) (key : DBKey) :
    contextGet decode c' key = contextGet decode c key := by
  have hget : ContextT.payloadGet c' key = ContextT.payloadGet c key := congrFun h key
  rw [contextGet, contextGet, hget]

theorem innerGetVersion_congr (h : c'.payloadGet = c.payloadGet) (address : Address)
    (v : Option Nat) : innerGetVersion c' address v = innerGetVersion c address v := by
  cases v with
  | none => exact contextGet_congr h _
  | some v => rfl

theorem innerGetCodeHash_congr (h : c'.payloadGet = c.payloadGet) (address : Address)
    (v : Option Nat) : innerGetCodeHash c' address v = innerGetCodeHash c address v := by
  rw [innerGetCodeHash, innerGetCodeHash, innerGetVersion_congr h]
  congr 1
  funext v
  cases v with
  | none => rfl
  | some v => exact contextGet_congr h _

theorem innerGetCode_congr (h : c'.payloadGet = c.payloadGet) (address : Address)
    (v : Option Nat) : innerGetCode c' address v = innerGetCode c address v := by
  rw [innerGetCode, innerGetCode, innerGetVersion_congr h]
  congr 1
  funext v
  cases v with
  | none => rfl
  | some v => exact contextGet_congr h _

theorem limit_congr (h : c'.payloadGet = c.payloadGet) (value : StorageValue (Option Nat))
    (default : Nat) : limit c' value default = limit c value default := by
  rw [limit, limit, StorageValue.get, StorageValue.get, contextGet_congr h]

theorem innerGetVmConfig_congr (h : c'.payloadGet = c.payloadGet) :
    innerGetVmConfig c' = innerGetVmConfig c := by
  simp only [innerGetVmConfig, limit_congr h]

end Lookup

section Run

variable {vm : VM} {w w' : CallStack}

/-- A host function and the end of a nested call keep contexts alike. -/
structure Outcome.Matches (o o' : Outcome) : Prop where
  state : o'.state = o.state
  result : o'.result = o.result
  world : o.world.Alike o'.world

theorem Outcome.Matches.makeErrorAware (h : w.Alike w') (config : VMConfig) (s : State)
    (result : VMResult Unit) (errorShareId : Nat) :
    Outcome.Matches (s.makeErrorAware config w result errorShareId)
      (s.makeErrorAware config w' result errorShareId) := by
  have hview := Outcome.Alike.makeErrorAware_same h.view config s result errorShareId
  refine ⟨hview.state, hview.result, ?_⟩
  rw [State.makeErrorAware_world, State.makeErrorAware_world]
  exact h

theorem hostCall_matches (vm : VM) (c : HostCall) (s : State) (h : w.Alike w')
    (hidle : w.top.Idle) : Outcome.Matches (hostCall vm c s w) (hostCall vm c s w') := by
  have hview := hostCall_view vm c s h.view hidle
  obtain ⟨top, heq, heq'⟩ := hview.world
  refine ⟨hview.state, hview.result, ?_⟩
  rw [heq, heq']
  exact h.after top _

theorem enterNested_alike (vm : VM) (c : NestedCall) (h : w.Alike w') :
    (enterNested vm c w').2 = (enterNested vm c w).2 ∧
      (enterNested vm c w).1.Alike (enterNested vm c w').1 := by
  obtain ⟨executor, top, callers, nested⟩ := w
  obtain ⟨executor', top', callers', nested'⟩ := w'
  obtain ⟨hexecutor, rfl, rfl, rfl⟩ := h
  have hget := hexecutor.payloadGet
  rw [enterNested, enterNested]
  cases String.fromUTF8? ⟨c.method.toArray⟩ with
  | none => exact ⟨rfl, hexecutor, rfl, rfl, rfl⟩
  | some method =>
      have hprepare : ∀ executor : Context,
          CallStack.prepareNested ⟨executor, top', callers', nested'⟩ vm.config
              c.contractAddress =
            (CallStack.prepareNested ⟨executor', top', callers', nested'⟩ vm.config
              c.contractAddress).map fun w => { w with executor := executor } := by
        intro executor
        cases nested' with
        | cons n nested => rfl
        | nil =>
            change (if vm.config.maxNestDepth < callers'.length + 1 + 1 then _ else _) =
              Except.map _ (if vm.config.maxNestDepth < callers'.length + 1 + 1 then _ else _)
            split
            · rfl
            · rfl
      simp only
      rw [hprepare executor]
      cases hprepared : CallStack.prepareNested ⟨executor', top', callers', nested'⟩ vm.config
          c.contractAddress with
      | error e => exact ⟨rfl, hexecutor, rfl, rfl, rfl⟩
      | ok w =>
          obtain ⟨-, hw⟩ := CallStack.prepareNested_eq_ok hprepared
          have hexecutor' : w.executor = executor' := by
            rw [hw]
            rfl
          have halike : CallStack.Alike { w with executor := executor } w := by
            refine ⟨?_, rfl, rfl, rfl⟩
            rw [hexecutor']
            exact hexecutor
          simp only [Except.map, hexecutor', innerGetCodeHash_congr hget,
            innerGetCode_congr hget]
          cases innerGetCodeHash executor c.contractAddress none with
          | error e => exact ⟨rfl, halike⟩
          | ok hash =>
              cases hash with
              | none => exact ⟨rfl, halike⟩
              | some hash =>
                  cases innerGetCode executor c.contractAddress none with
                  | error e => exact ⟨rfl, halike⟩
                  | ok code =>
                      cases code with
                      | none => exact ⟨rfl, halike⟩
                      | some code =>
                          refine ⟨rfl, ?_⟩
                          obtain ⟨executor'', top, callers, nested⟩ := w
                          cases nested with
                          | nil => exact halike
                          | cons n nested => exact ⟨halike.executor, rfl, rfl, rfl⟩

theorem nestedApply_alike (h : w.Alike w') :
    (w.nestedApply = .error .panic ∧ w'.nestedApply = .error .panic) ∨
      ∃ n nested, w.nestedApply = .ok (w.applied n nested) ∧
        w'.nestedApply = .ok (w'.applied n nested) := by
  rw [CallStack.nestedApply, CallStack.nestedApply, h.nested]
  cases w.nested with
  | nil => exact Or.inl ⟨rfl, rfl⟩
  | cons n nested => exact Or.inr ⟨n, nested, rfl, rfl⟩

theorem nestedDrain_alike (h : w.Alike w') :
    (w.nestedDrain = .error .panic ∧ w'.nestedDrain = .error .panic) ∨
      ∃ n nested, w.nestedDrain = .ok (w.drained n nested) ∧
        w'.nestedDrain = .ok (w'.drained n nested) := by
  rw [CallStack.nestedDrain, CallStack.nestedDrain, h.nested]
  cases w.nested with
  | nil => exact Or.inl ⟨rfl, rfl⟩
  | cons n nested => exact Or.inr ⟨n, nested, rfl, rfl⟩

theorem applied_alike (h : w.Alike w') (n : VMContext) (nested : List VMContext) :
    (w.applied n nested).Alike (w'.applied n nested) := by
  refine ⟨h.executor, ?_, h.callers, rfl⟩
  rw [CallStack.applied, CallStack.applied, h.top]

theorem drained_alike (h : w.Alike w') (n : VMContext) (nested : List VMContext) :
    (w.drained n nested).Alike (w'.drained n nested) := ⟨h.executor, h.top, h.callers, rfl⟩

theorem finishExecute_alike (vm : VM) (c : NestedCall) (s : State) (h : w.Alike w')
    (result : VMResult Bytes) :
    (finishExecute vm c s w' result).1 = (finishExecute vm c s w result).1 ∧
      (finishExecute vm c s w' result).2.2 = (finishExecute vm c s w result).2.2 ∧
      (finishExecute vm c s w result).2.1.Alike (finishExecute vm c s w' result).2.1 := by
  cases result with
  | error e => exact ⟨rfl, rfl, h⟩
  | ok data =>
      rw [finishExecute, finishExecute]
      obtain ⟨s', r⟩ := s.vecToShare vm.config c.shareId data
      cases r with
      | error e => exact ⟨rfl, rfl, h⟩
      | ok u =>
          rcases nestedApply_alike h with ⟨heq, heq'⟩ | ⟨n, nested, heq, heq'⟩
          · simp only [heq, heq']
            exact ⟨trivial, trivial, h⟩
          · simp only [heq, heq']
            exact ⟨trivial, trivial, applied_alike h n nested⟩

theorem finishNested_matches (vm : VM) (c : NestedCall) (s : State) (h : w.Alike w')
    (result : VMResult Bytes) :
    Outcome.Matches (finishNested vm c s w result) (finishNested vm c s w' result) := by
  obtain ⟨hstate, hresult, hworld⟩ := finishExecute_alike vm c s h result
  rw [finishNested, finishNested]
  generalize finishExecute vm c s w result = p at hstate hresult hworld
  generalize finishExecute vm c s w' result = p' at hstate hresult hworld
  obtain ⟨s₁, w₁, r⟩ := p
  obtain ⟨s₁', w₁', r'⟩ := p'
  simp only at hstate hresult hworld
  subst hstate hresult
  cases c.errorShareId with
  | none => exact ⟨rfl, rfl, hworld⟩
  | some errorShareId =>
      cases r' with
      | ok u => exact .makeErrorAware hworld _ _ _ _
      | error e =>
          rcases nestedDrain_alike hworld with ⟨heq, heq'⟩ | ⟨n, nested, heq, heq'⟩
          · simp only [heq, heq']
            exact ⟨rfl, rfl, hworld⟩
          · simp only [heq, heq']
            exact .makeErrorAware (drained_alike hworld n nested) _ _ _ _

/-- Two runs that end alike. -/
structure Final.Matches (f f' : Final) : Prop where
  state : f'.state = f.state
  result : f'.result = f.result
  world : f.world.Alike f'.world
  idle : f.world.Idle

theorem Outcome.Matches.rest {nested : Process → State → CallStack → Final} {o o' : Outcome}
    (h : Outcome.Matches o o') (hidle : o.world.Idle) {next : Reply → Process}
    (hnext : ∀ reply {w w' : CallStack} (s : State), w.Alike w' → w.Idle →
      Final.Matches (runWith vm nested (next reply) s w) (runWith vm nested (next reply) s w')) :
    Final.Matches
      (match o.result with
        | .ok reply => runWith vm nested (next reply) o.state o.world
        | .error e => { state := o.state, world := o.world, result := .error e })
      (match o'.result with
        | .ok reply => runWith vm nested (next reply) o'.state o'.world
        | .error e => { state := o'.state, world := o'.world, result := .error e }) := by
  rw [h.result, h.state]
  cases o.result with
  | error e => exact ⟨rfl, rfl, h.world, hidle⟩
  | ok reply => exact hnext reply o.state h.world hidle

theorem runWith_matches {nested : Process → State → CallStack → Final}
    (hnested : ∀ process (s : State) {w w' : CallStack}, w.Alike w' → w.Idle →
      Final.Matches (nested process s w) (nested process s w'))
    (process : Process) (s : State) (h : w.Alike w') (hidle : w.Idle) :
    Final.Matches (runWith vm nested process s w) (runWith vm nested process s w') := by
  induction process generalizing s w w' with
  | done r => exact ⟨rfl, rfl, h, hidle⟩
  | call c next ih =>
      simp only [runWith]
      exact (hostCall_matches vm c s h hidle.top).rest
        ((hostCall_effect vm c s hidle).sameContexts.idle hidle) ih
  | execute c next ih =>
      obtain ⟨hresult, hworld⟩ := enterNested_alike vm c h
      simp only [runWith]
      rcases enterNested_cases vm c w with
        ⟨w₁, process, s₁, heq, hentered⟩ | ⟨w₁, e, heq, hw₁⟩
      · obtain ⟨w₁', heq'⟩ : ∃ w₁', enterNested vm c w' = (w₁', .ok (process, s₁)) :=
          ⟨_, Prod.ext rfl (hresult.trans (by rw [heq]))⟩
        rw [heq, heq'] at hworld
        have hidle₁ : w₁.Idle := by
          rw [hentered.world]
          exact CallStack.idle_entered _ hidle
        have hf := hnested process s₁ hworld hidle₁
        have hleave := CallStack.idle_leave hf.idle
        have houtput : (nested process s₁ w₁').output = (nested process s₁ w₁).output := by
          rw [Final.output, Final.output, hf.result, hf.state]
        rw [heq, heq']
        simp only [houtput]
        exact (finishNested_matches vm c s hf.world.leave _).rest
          ((finishNested_finished vm c s _ _).sameContexts.idle hleave) ih
      · obtain ⟨w₁', heq'⟩ : ∃ w₁', enterNested vm c w' = (w₁', .error e) :=
          ⟨_, Prod.ext rfl (hresult.trans (by rw [heq]))⟩
        rw [heq, heq'] at hworld
        have hidle₁ : w₁.Idle := by
          rcases hw₁ with rfl | ⟨-, rfl⟩
          · exact hidle
          · exact CallStack.idle_prepared _ hidle
        rw [heq, heq']
        exact (finishNested_matches vm c s hworld _).rest
          ((finishNested_finished vm c s _ _).sameContexts.idle hidle₁) ih

theorem run_matches (vm : VM) (n : Nat) (process : Process) (s : State) (h : w.Alike w')
    (hidle : w.Idle) : Final.Matches (run vm n process s w) (run vm n process s w') := by
  induction n generalizing process s w w' with
  | zero =>
      apply runWith_matches _ process s h hidle
      intro process s w w' h hidle
      exact ⟨rfl, rfl, h, hidle⟩
  | succ n ih =>
      apply runWith_matches _ process s h hidle
      intro process s w w' h hidle
      exact ih process s h hidle

end Run

namespace Library

variable (lib : Library) {c c' : Context}

theorem finish_alike {f f' : Final} (h : Final.Matches f f') :
    (finish f').2 = (finish f).2 ∧ (finish f).1.Alike (finish f').1 := by
  have hdrain : f.world.drain.Alike f'.world.drain := by
    rw [CallStack.drain, CallStack.drain, h.world.top]
    exact h.world.withTop _
  rw [finish, finish, h.result]
  cases f.result with
  | error e => exact ⟨rfl, hdrain.executor⟩
  | ok u =>
      refine ⟨by rw [h.state], ?_⟩
      rw [h.world.top]
      exact ((hdrain.payloadApply _).applyEvents _).executor

theorem innerVmExecute_alike (h : c.Alike c') (senderAddress contractAddress : Address)
    (code : Bytes) (mode : Mode) (method : String) (params : Bytes) (payValue : Balance) :
    (lib.innerVmExecute c' senderAddress contractAddress code mode method params payValue).2 =
        (lib.innerVmExecute c senderAddress contractAddress code mode method params payValue).2 ∧
      (lib.innerVmExecute c senderAddress contractAddress code mode method params
          payValue).1.Alike
        (lib.innerVmExecute c' senderAddress contractAddress code mode method params
          payValue).1 := by
  rw [innerVmExecute, innerVmExecute, innerGetVmConfig_congr h.payloadGet]
  cases innerGetVmConfig c with
  | error e => exact ⟨rfl, h⟩
  | ok config =>
      have hworld : CallStack.Alike
          (lib.start config c senderAddress contractAddress code mode method params payValue).world
          (lib.start config c' senderAddress contractAddress code mode method params
            payValue).world := ⟨h, rfl, rfl, rfl⟩
      exact finish_alike (run_matches _ _ _ _ hworld (lib.wf_start config c senderAddress
        contractAddress code mode method params payValue).idle)

theorem store_alike (h : c.Alike c') (sender contractAddress : Address) (newCode : Bytes) :
    (lib.store c sender contractAddress newCode).Alike
      (lib.store c' sender contractAddress newCode) := by
  unfold store
  exact (((h.payloadSet _ _).payloadSet _ _).payloadSet _ _).payloadSet _ _

theorem create_alike (h : c.Alike c') (sender : Option Address) (params : CreateParams) :
    (lib.create c' sender params).2 = (lib.create c sender params).2 ∧
      (lib.create c sender params).1.Alike (lib.create c' sender params).1 := by
  cases sender with
  | none => exact ⟨rfl, h⟩
  | some sender =>
      simp only [create, h.callEnv]
      cases c.callEnv.txHash with
      | none => exact ⟨rfl, h⟩
      | some txHash =>
          have hrun := lib.innerVmExecute_alike
            (lib.store_alike h sender (lib.contractAddress txHash) params.code) sender
            (lib.contractAddress txHash) params.code .init params.initMethod params.initParams
            params.initPayValue
          simp only
          generalize lib.innerVmExecute _ sender _ _ _ _ _ _ = p at hrun ⊢
          generalize lib.innerVmExecute _ sender _ _ _ _ _ _ = p' at hrun ⊢
          obtain ⟨c₁, r⟩ := p
          obtain ⟨c₁', r'⟩ := p'
          obtain ⟨rfl, hworld⟩ := hrun
          cases r with
          | error e => exact ⟨rfl, hworld⟩
          | ok result => exact ⟨rfl, hworld⟩

theorem execute_alike (h : c.Alike c') (sender : Option Address) (params : ExecuteParams) :
    (lib.execute c' sender params).2 = (lib.execute c sender params).2 ∧
      (lib.execute c sender params).1.Alike (lib.execute c' sender params).1 := by
  have hget := h.payloadGet
  cases sender with
  | none => exact ⟨rfl, h⟩
  | some sender =>
      simp only [execute, innerGetCodeHash_congr hget, innerGetVmConfig_congr hget, innerGetCode_congr hget]
      cases innerGetCodeHash c params.contractAddress none with
      | error e => exact ⟨rfl, h⟩
      | ok hash =>
          cases hash with
          | none => exact ⟨rfl, h⟩
          | some hash =>
              cases innerGetVmConfig c with
              | error e => exact ⟨rfl, h⟩
              | ok config =>
                  cases innerGetCode c params.contractAddress none with
                  | error e => exact ⟨rfl, h⟩
                  | ok code =>
                      cases code with
                      | none => exact ⟨rfl, h⟩
                      | some code => exact lib.innerVmExecute_alike h _ _ _ _ _ _ _

/-- The two calls that run contracts do the same on alike contexts. -/
theorem executeCall_alike
    (others : Context → Option Address → Call → Context × ModuleResult Bytes) (h : c.Alike c')
    (sender : Option Address) {call : Call} (hmodule : call.module = "contract")
    (hmethod : call.method = "create" ∨ call.method = "execute") :
    ((lib.dispatcher others).executeCall c' sender call).2 =
        ((lib.dispatcher others).executeCall c sender call).2 ∧
      ((lib.dispatcher others).executeCall c sender call).1.Alike
        ((lib.dispatcher others).executeCall c' sender call).1 := by
  simp only [dispatcher, executeCall, hmodule]
  rcases hmethod with hmethod | hmethod
  · simp only [hmethod, decoded]
    cases decodeCreateParams call.params with
    | none => exact ⟨rfl, h⟩
    | some p =>
        obtain ⟨hresult, hcontext⟩ := lib.create_alike h sender p.1
        exact ⟨by simp only [Prod.map, hresult], hcontext⟩
  · simp only [hmethod, decoded]
    cases decodeExecuteParams call.params with
    | none => exact ⟨rfl, h⟩
    | some p =>
        obtain ⟨hresult, hcontext⟩ := lib.execute_alike h sender p.1
        exact ⟨by simp only [Prod.map, hresult], hcontext⟩

end Library

end Contract

end Finastate
