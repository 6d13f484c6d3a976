import Finastate.Contract.Conservation
import Finastate.Executor.Storage

/-!
# What running contracts write

However contracts call each other, what reaches the executor are entries of
contract data and balances. Everything else that the contract module keeps is
out of their reach.
-/

namespace Finastate.Contract

open Executor Vm BalanceModule

/-- The keys of contract data and of balances. -/
def vmKeys (util : Util) : Set DBKey :=
  {k | (∃ address own, k = moduleKey util address own) ∨ ∃ account, k = balance.key account}

/-- Everything in the buffer of the context is contract data or a balance. -/
def VMContext.Bounded (util : Util) (c : VMContext) : Prop :=
  ∀ item ∈ c.payload, item.1 ∈ vmKeys util

namespace VMContext

variable {util : Util} {c : VMContext}

theorem bounded_of_nil (h : c.payload = []) : c.Bounded util := by
  rw [Bounded, h]
  exact nofun

theorem Bounded.extend {c' : VMContext} {items : List (DBKey × Option DBValue)}
    (h : c.Bounded util) (hitems : ∀ item ∈ items, item.1 ∈ vmKeys util)
    (hpayload : c'.payload = AssocMap.extend c.payload items) : c'.Bounded util := by
  intro item hitem
  rw [hpayload] at hitem
  rcases AssocMap.mem_extend hitem with hnew | hold
  · exact hitems item hnew
  · exact h item hold

end VMContext

/-- The executor has been written under these keys only, and so have the
buffers of all contexts. -/
structure CallStack.Bounded (util : Util) (context : Context) (w : CallStack) : Prop where
  executor : Touched (vmKeys util) context w.executor
  top : w.top.Bounded util
  callers : ∀ c ∈ w.callers, c.Bounded util
  nested : ∀ c ∈ w.nested, c.Bounded util

theorem touched_foldr_payloadSet {keys : Set DBKey} {context c : Context}
    {items : List (DBKey × Option DBValue)} (h : Touched keys context c)
    (hitems : ∀ item ∈ items, item.1 ∈ keys) :
    Touched keys context (items.foldr (fun item c => c.payloadSet item.1 item.2) c) := by
  induction items with
  | nil => exact h
  | cons item items ih =>
      have hrest := ih fun i hi => hitems i (List.mem_cons_of_mem item hi)
      exact hrest.set (hitems item List.mem_cons_self) item.2

theorem touched_foldl_emitEvent {keys : Set DBKey} {context c : Context} {events : List Event}
    (h : Touched keys context c) :
    Touched keys context (events.foldl Context.emitEvent c) := by
  induction events generalizing c with
  | nil => exact h
  | cons event events ih => exact ih (h.emit event)

namespace CallStack.Bounded

variable {util : Util} {context : Context} {w w' : CallStack}

theorem movedItems (util : Util) (w : CallStack) (move : Move) :
    ∀ item ∈ w.movedItems move, item.1 ∈ vmKeys util := by
  intro item hitem
  rcases AssocMap.mem_insert hitem with rfl | hsender
  · exact Or.inr ⟨move.recipient, rfl⟩
  · rw [List.mem_singleton.1 hsender]
    exact Or.inr ⟨move.sender, rfl⟩

theorem moved (h : w.Bounded util context) (move : Move) :
    (w.moved move).Bounded util context := by
  have hitems := movedItems util w move
  obtain ⟨executor, top, callers, nested⟩ := w
  cases callers with
  | nil => exact ⟨touched_foldr_payloadSet h.executor hitems, h.top, nofun, h.nested⟩
  | cons caller callers =>
      refine ⟨h.executor, h.top, ?_, h.nested⟩
      intro c hc
      rcases List.mem_cons.1 hc with rfl | hrest
      · exact (h.callers caller List.mem_cons_self).extend hitems rfl
      · exact h.callers c (List.mem_cons_of_mem caller hrest)

theorem effect {vm : VM} {c : HostCall} {s : State} (h : w.Bounded vm.util context)
    (heffect : Effect vm c s w w') : w'.Bounded vm.util context := by
  cases heffect with
  | same => exact h
  | @write address key value hcall haddress =>
      refine ⟨h.executor, ?_, h.callers, h.nested⟩
      intro item hitem
      rcases AssocMap.mem_insert hitem with rfl | hold
      · exact Or.inl ⟨address, key, rfl⟩
      · exact h.top item hold
  | event e => exact ⟨h.executor, h.top, h.callers, h.nested⟩
  | @move move hmove hmovable => exact h.moved move

theorem callee (h : w.Bounded util context) (address : Address) :
    (w.callee address).Bounded util := by
  rw [CallStack.callee]
  cases hnested : w.nested with
  | nil => exact VMContext.bounded_of_nil rfl
  | cons n nested => exact h.nested n (by simp [hnested])

theorem entered (h : w.Bounded util context) (address : Address) :
    (w.entered address).Bounded util context := by
  refine ⟨h.executor, h.callee address, ?_, fun c hc => h.nested c (List.mem_of_mem_tail hc)⟩
  intro c hc
  rcases List.mem_cons.1 hc with rfl | hrest
  · exact h.top
  · exact h.callers c hrest

theorem prepared (h : w.Bounded util context) (address : Address) :
    (w.prepared address).Bounded util context := by
  refine ⟨h.executor, h.top, h.callers, ?_⟩
  intro c hc
  rcases List.mem_cons.1 hc with rfl | hrest
  · exact h.callee address
  · exact h.nested c (List.mem_of_mem_tail hrest)

theorem leave (h : w.Bounded util context) : w.leave.Bounded util context := by
  obtain ⟨executor, top, callers, nested⟩ := w
  cases callers with
  | nil => exact h
  | cons caller callers =>
      refine ⟨h.executor, h.callers caller List.mem_cons_self,
        fun c hc => h.callers c (List.mem_cons_of_mem caller hc), ?_⟩
      intro c hc
      rcases List.mem_cons.1 hc with rfl | hrest
      · exact h.top
      · exact h.nested c hrest

theorem drain_nested {nested : List VMContext} {n : VMContext}
    (h : ∀ c ∈ n :: nested, c.Bounded util) :
    ∀ c ∈ { n with payload := [], events := [] } :: nested, c.Bounded util := by
  intro c hc
  rcases List.mem_cons.1 hc with rfl | hrest
  · exact VMContext.bounded_of_nil rfl
  · exact h c (List.mem_cons_of_mem n hrest)

theorem finished {result : VMResult Bytes} (h : w.Bounded util context)
    (hfinished : Finished result w w') : w'.Bounded util context := by
  cases hfinished with
  | same => exact h
  | @apply n nested data hok hnested =>
      have hn : n.Bounded util := h.nested n (by simp [hnested])
      exact ⟨h.executor, h.top.extend hn rfl, h.callers, drain_nested (hnested ▸ h.nested)⟩
  | drain hnested => exact ⟨h.executor, h.top, h.callers, drain_nested (hnested ▸ h.nested)⟩

end CallStack.Bounded

namespace Machine

variable {vm : VM} {m m' : Machine} {context : Context}

theorem Step.bounded (hstep : Step vm m m') (hwf : WF vm m)
    (h : m.world.Bounded vm.util context) : m'.world.Bounded vm.util context := by
  cases hstep.walk hwf.idle with
  | host hprocess heffect hstate hframes => exact h.effect heffect
  | enter hprocess hentered hframes =>
      rw [hentered.world]
      exact h.entered _
  | refuse hprocess hworld hfinished hstate hframes =>
      rcases hworld with rfl | ⟨-, rfl⟩
      · exact h.finished hfinished
      · exact (h.prepared _).finished hfinished
  | back hprocess hfinished hstate hframes => exact h.leave.finished hfinished

theorem Steps.bounded (hsteps : Steps vm m m') (hwf : WF vm m)
    (h : m.world.Bounded vm.util context) : m'.world.Bounded vm.util context := by
  induction hsteps with
  | refl => exact h
  | tail hsteps hstep ih => exact hstep.bounded (hwf.steps hsteps) ih

end Machine

namespace Library

variable (lib : Library) {config : VMConfig} {context : Context}

/-- A run starts with nothing written. -/
theorem bounded_start (config : VMConfig) (context : Context)
    (senderAddress contractAddress : Address) (code : Bytes) (mode : Mode) (method : String)
    (params : Bytes) (payValue : Balance) :
    (lib.start config context senderAddress contractAddress code mode method params
      payValue).world.Bounded lib.util context :=
  ⟨.refl, VMContext.bounded_of_nil rfl, List.forall_mem_nil _, List.forall_mem_nil _⟩

/-- An execution writes contract data and balances. -/
theorem touched_innerVmExecute (senderAddress contractAddress : Address) (code : Bytes)
    (mode : Mode) (method : String) (params : Bytes) (payValue : Balance) :
    Touched (vmKeys lib.util) context (lib.innerVmExecute context senderAddress contractAddress
      code mode method params payValue).1 := by
  cases hconfig : innerGetVmConfig context with
  | error e =>
      rw [innerVmExecute, hconfig]
      exact .refl
  | ok config =>
      obtain ⟨f, hsteps, heq⟩ := lib.innerVmExecute_eq_finish hconfig senderAddress
        contractAddress code mode method params payValue
      have hwf := lib.wf_start config context senderAddress contractAddress code mode method params
        payValue
      have hstart := lib.bounded_start config context senderAddress contractAddress code mode method
        params payValue
      have hend := Machine.Steps.bounded hsteps hwf hstart
      have hdepth := (hwf.steps hsteps).depth
      rw [heq]
      obtain ⟨state, world, result⟩ := f
      obtain ⟨executor, top, callers, nested⟩ := world
      cases callers with
      | cons caller callers => cases hdepth
      | nil =>
          cases result with
          | error e => exact hend.executor
          | ok u => exact touched_foldl_emitEvent (touched_foldr_payloadSet hend.executor hend.top)

end Library

end Finastate.Contract
