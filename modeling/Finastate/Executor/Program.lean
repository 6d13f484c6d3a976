import Finastate.Executor.Executor
import Finastate.Executor.State
import Mathlib.Logic.Function.Basic

/-!
# Modules as programs

A module is generic in its context: all it does with one is to read the
environment, to read and write the state and to emit events. So a method is a
`Program`, the tree of these calls. A meta module reads and writes the meta
state and every other module the payload state. `run` is the program on the
context of the executor, `plain` the same program on a plain map, and
`run_plain` says that the two agree.
-/

namespace Finastate.Executor

namespace Context

def metaGet (c : Context) (key : DBKey) : Option DBValue := c.metaState.get key

def metaSet (c : Context) (key : DBKey) (value : Option DBValue) : Context :=
  { c with metaState := c.metaState.set key value }

/-- The meta or the payload state. -/
def state (c : Context) : Bool → ContextState
  | true => c.metaState
  | false => c.payloadState

def txs (c : Context) : Bool → List FullTransaction
  | true => c.metaTxs
  | false => c.payloadTxs

def receipts (c : Context) : Bool → List FullReceipt
  | true => c.metaReceipts
  | false => c.payloadReceipts

/-- `context_get`, by `META_MODULE`. -/
def get (c : Context) : Bool → DBKey → Option DBValue
  | true => c.metaGet
  | false => c.payloadGet

/-- `context_set` and `context_delete`, by `META_MODULE`. -/
def set (c : Context) : Bool → DBKey → Option DBValue → Context
  | true => c.metaSet
  | false => c.payloadSet

theorem get_eq (c : Context) (isMeta : Bool) : c.get isMeta = (c.state isMeta).get := by
  cases isMeta with
  | false => rfl
  | true => rfl

theorem state_set (c : Context) (isMeta : Bool) (key : DBKey) (value : Option DBValue) :
    (c.set isMeta key value).state isMeta = (c.state isMeta).set key value := by
  cases isMeta with
  | false => rfl
  | true => rfl

theorem state_set_not (c : Context) (isMeta : Bool) (key : DBKey) (value : Option DBValue) :
    (c.set isMeta key value).state (!isMeta) = c.state (!isMeta) := by
  cases isMeta with
  | false => rfl
  | true => rfl

theorem get_set (c : Context) (isMeta : Bool) (key : DBKey) (value : Option DBValue) :
    (c.set isMeta key value).get isMeta = Function.update (c.get isMeta) key value := by
  funext key'
  rw [get_eq, get_eq, state_set, ContextState.get_set, Function.update_apply]

theorem get_emitEvent (c : Context) (isMeta : Bool) (event : Event) :
    (c.emitEvent event).get isMeta = c.get isMeta := by
  cases isMeta with
  | false => rfl
  | true => rfl

end Context

/-- The calls of a method into its context. -/
inductive Program (α : Type) where
  | done (result : α)
  | env (next : ContextEnv → Program α)
  | callEnv (next : CallEnv → Program α)
  | get (key : DBKey) (next : Option DBValue → Program α)
  | set (key : DBKey) (value : Option DBValue) (next : Program α)
  | emitEvent (event : Event) (next : Program α)

/-- A state and the events of a transaction, without buffers. -/
structure Plain where
  state : DBKey → Option DBValue
  events : List Event

namespace Program

variable {α : Type}

def run (isMeta : Bool) : Program α → Context → Context × α
  | done result, c => (c, result)
  | env next, c => (next c.env).run isMeta c
  | callEnv next, c => (next c.callEnv).run isMeta c
  | get key next, c => (next (c.get isMeta key)).run isMeta c
  | set key value next, c => next.run isMeta (c.set isMeta key value)
  | emitEvent event next, c => next.run isMeta (c.emitEvent event)

def plain (contextEnv : ContextEnv) (txEnv : CallEnv) : Program α → Plain → Plain × α
  | done result, p => (p, result)
  | env next, p => (next contextEnv).plain contextEnv txEnv p
  | callEnv next, p => (next txEnv).plain contextEnv txEnv p
  | get key next, p => (next (p.state key)).plain contextEnv txEnv p
  | set key value next, p =>
      next.plain contextEnv txEnv { p with state := Function.update p.state key value }
  | emitEvent event next, p =>
      next.plain contextEnv txEnv { p with events := p.events ++ [event] }

end Program

namespace Context

/-- What a program sees of a context. -/
def plain (c : Context) (isMeta : Bool) : Plain where
  state := c.get isMeta
  events := c.events

/-- What a program leaves as it is: everything but the transaction buffer of
its state and the events. -/
structure Keeps (isMeta : Bool) (c c' : Context) : Prop where
  env : c'.env = c.env
  callEnv : c'.callEnv = c.callEnv
  other : c'.state (!isMeta) = c.state (!isMeta)
  statedb : (c'.state isMeta).statedb = (c.state isMeta).statedb
  buffer : (c'.state isMeta).buffer = (c.state isMeta).buffer
  txs : c'.txs = c.txs
  receipts : c'.receipts = c.receipts
  payloadPhase : c'.payloadPhase = c.payloadPhase
  nodup : ((c.state isMeta).txBuffer.map Prod.fst).Nodup →
    ((c'.state isMeta).txBuffer.map Prod.fst).Nodup

namespace Keeps

variable {isMeta : Bool} {c c' c'' : Context}

theorem refl (isMeta : Bool) (c : Context) : Keeps isMeta c c :=
  ⟨rfl, rfl, rfl, rfl, rfl, rfl, rfl, rfl, id⟩

theorem trans (h : Keeps isMeta c c') (h' : Keeps isMeta c' c'') : Keeps isMeta c c'' where
  env := h'.env.trans h.env
  callEnv := h'.callEnv.trans h.callEnv
  other := h'.other.trans h.other
  statedb := h'.statedb.trans h.statedb
  buffer := h'.buffer.trans h.buffer
  txs := h'.txs.trans h.txs
  receipts := h'.receipts.trans h.receipts
  payloadPhase := h'.payloadPhase.trans h.payloadPhase
  nodup := fun hnodup => h'.nodup (h.nodup hnodup)

theorem set (isMeta : Bool) (c : Context) (key : DBKey) (value : Option DBValue) :
    Keeps isMeta c (c.set isMeta key value) := by
  have hstate := state_set c isMeta key value
  constructor
  case other => exact state_set_not c isMeta key value
  case statedb =>
    rw [hstate]
    rfl
  case buffer =>
    rw [hstate]
    rfl
  case nodup =>
    intro hnodup
    rw [hstate]
    exact AssocMap.nodup_keys_insert key value hnodup
  all_goals
    cases isMeta with
    | false => rfl
    | true => rfl

theorem emitEvent (isMeta : Bool) (c : Context) (event : Event) :
    Keeps isMeta c (c.emitEvent event) := by
  cases isMeta with
  | false => exact ⟨rfl, rfl, rfl, rfl, rfl, rfl, rfl, rfl, id⟩
  | true => exact ⟨rfl, rfl, rfl, rfl, rfl, rfl, rfl, rfl, id⟩

end Keeps

end Context

namespace Program

variable {α : Type}

theorem run_keeps (isMeta : Bool) (program : Program α) (c : Context) :
    Context.Keeps isMeta c (program.run isMeta c).1 := by
  induction program generalizing c with
  | done result => exact .refl isMeta c
  | env next ih => exact ih c.env c
  | callEnv next ih => exact ih c.callEnv c
  | get key next ih => exact ih (c.get isMeta key) c
  | set key value next ih => exact (Context.Keeps.set isMeta c key value).trans (ih _)
  | emitEvent event next ih => exact (Context.Keeps.emitEvent isMeta c event).trans (ih _)

/-- A program cannot tell the buffers of the executor from a plain map. -/
theorem run_plain (isMeta : Bool) (program : Program α) (c : Context) :
    ((program.run isMeta c).1.plain isMeta, (program.run isMeta c).2) =
      program.plain c.env c.callEnv (c.plain isMeta) := by
  induction program generalizing c with
  | done result => rfl
  | env next ih => exact ih c.env c
  | callEnv next ih => exact ih c.callEnv c
  | get key next ih => exact ih (c.get isMeta key) c
  | set key value next ih =>
      have hkeeps := Context.Keeps.set isMeta c key value
      have hevents : (c.set isMeta key value).events = c.events := by
        cases isMeta with
        | false => rfl
        | true => rfl
      have hplain : (c.set isMeta key value).plain isMeta =
          { c.plain isMeta with state := Function.update (c.get isMeta) key value } := by
        simp [Context.plain, Context.get_set, hevents]
      have hnext := ih (c.set isMeta key value)
      rw [hkeeps.env, hkeeps.callEnv, hplain] at hnext
      exact hnext
  | emitEvent event next ih =>
      have hplain : (c.emitEvent event).plain isMeta =
          { c.plain isMeta with events := c.events ++ [event] } := by
        rw [Context.plain, Context.get_emitEvent]
        rfl
      have hnext := ih (c.emitEvent event)
      rw [hplain] at hnext
      exact hnext

end Program

/-- A module works on its context through the calls of a program only. -/
def Dispatcher.Modular (dispatcher : Dispatcher) : Prop :=
  ∀ context sender call isMeta, dispatcher.isMeta call.module = .ok isMeta →
    Context.Keeps isMeta context (dispatcher.executeCall context sender call).1

/-- The modules behind the names of calls, each method as a program. -/
structure Modules where
  isMeta : String → Except CommonError Bool
  validateCall : Option Address → Call → Program (Except CommonError (Except String Unit))
  isWriteCall : Call → Except CommonError Bool
  executeCall : Option Address → Call → Program (Except CommonError OpaqueCallResult)

/-- An unknown module is an error before anything is called. -/
def Modules.dispatcher (modules : Modules) : Dispatcher where
  isMeta := modules.isMeta
  executeCall := fun context sender call =>
    match modules.isMeta call.module with
    | .error e => (context, .error e)
    | .ok isMeta => (modules.executeCall sender call).run isMeta context

theorem Modules.modular (modules : Modules) : modules.dispatcher.Modular := by
  intro context sender call isMeta hkind
  have hcall : modules.dispatcher.executeCall context sender call =
      (modules.executeCall sender call).run isMeta context := by
    simp only [dispatcher] at hkind ⊢
    rw [hkind]
  rw [hcall]
  exact Program.run_keeps isMeta _ context

/-- The executor of the chain on these modules. -/
def Modules.executor (modules : Modules) (address : PublicKey → Address) : Executor where
  dispatcher := modules.dispatcher
  address := address

end Finastate.Executor
