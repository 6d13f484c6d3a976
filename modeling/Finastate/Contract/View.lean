import Finastate.Contract.Conservation

/-!
# What a host function sees

A host function sees the running context, what is read below it and the
environment, and nothing of the contexts kept for nested calls. What it does is
a new running context and, for a completed transfer, entries that go past it
(`after`). So two stacks of contexts that look alike from the running one
(`SameView`) stay so.
-/

namespace Finastate.Contract

open Executor Vm BalanceModule

/-- The entries that the transfer of a host call passes below, if it is one and
goes through. -/
def transferWrites (vm : VM) (c : HostCall) (s : State) (w : CallStack) :
    List (DBKey × Option DBValue) :=
  match move? s w.top.contractEnv c with
  | none => []
  | some move =>
      match w.moduleBalanceTransfer vm.util move.sender move.recipient move.value with
      | .error _ => []
      | .ok w => w.top.modulePayload

/-- The running context when what the balance module did in it is applied. -/
def VMContext.moduleApplied (top : VMContext) : VMContext where
  contractEnv := top.contractEnv
  payload := top.payload
  events := top.events ++ top.moduleEvents
  modulePayload := []
  moduleEvents := []

namespace CallStack

/-- The contexts with another running one and entries passed below it. -/
def after (w : CallStack) (top : VMContext) (items : List (DBKey × Option DBValue)) : CallStack :=
  ({ w with top := top }).payloadApply items

/-- Two stacks of contexts that a host function cannot tell apart. -/
structure SameView (w w' : CallStack) : Prop where
  top : w'.top = w.top
  below : w'.below = w.below
  env : w'.executor.env = w.executor.env
  callEnv : w'.executor.callEnv = w.executor.callEnv

variable {w w' : CallStack} {util : Util}

@[simp] theorem after_self (w : CallStack) : w.after w.top [] = w := payloadApply_nil w

theorem SameView.refl (w : CallStack) : SameView w w := ⟨rfl, rfl, rfl, rfl⟩

theorem SameView.payloadGet (h : SameView w w') : w'.payloadGet = w.payloadGet := by
  funext key
  rw [payloadGet_eq, payloadGet_eq, h.top, h.below]

theorem SameView.vmToModuleKey (h : SameView w w') (key : Bytes) :
    w'.vmToModuleKey util key = w.vmToModuleKey util key := by
  rw [CallStack.vmToModuleKey, CallStack.vmToModuleKey, h.top]

theorem moduleApply_eq_after (w : CallStack) (top : VMContext) :
    ({ w with top := top }).moduleApply = w.after top.moduleApplied top.modulePayload := by
  obtain ⟨executor, top', callers, nested⟩ := w
  cases callers with
  | nil => rfl
  | cons caller callers => rfl

theorem SameView.moduleBalanceGet (h : SameView w w') (address : Address) :
    w'.moduleBalanceGet address = w.moduleBalanceGet address := by
  have hget : ContextT.payloadGet (ModuleContext.mk w') = ContextT.payloadGet (ModuleContext.mk w) := by
    funext key
    change (AssocMap.get? w'.top.modulePayload key).getD (w'.payloadGet key) =
      (AssocMap.get? w.top.modulePayload key).getD (w.payloadGet key)
    rw [h.top, h.payloadGet]
  rw [CallStack.moduleBalanceGet, CallStack.moduleBalanceGet, getBalance, getBalance,
    StorageMap.get, StorageMap.get, contextGet, contextGet, hget]

theorem moduleDrain_of_idle (h : w.top.Idle) : w.moduleDrain = w := by
  obtain ⟨executor, ⟨env, payload, events, modulePayload, moduleEvents⟩, callers, nested⟩ := w
  obtain ⟨rfl, rfl⟩ : modulePayload = [] ∧ moduleEvents = [] := ⟨h.payload, h.events⟩
  rfl

theorem moduleApply_of_idle (h : w.top.Idle) : w.moduleApply = w := by
  obtain ⟨executor, ⟨env, payload, events, modulePayload, moduleEvents⟩, callers, nested⟩ := w
  obtain ⟨rfl, rfl⟩ : modulePayload = [] ∧ moduleEvents = [] := ⟨h.payload, h.events⟩
  cases callers with
  | nil => simp [moduleApply, moduleDrain, modulePayloadApply, moduleApplyEvents, payloadApply]
  | cons caller callers =>
      simp [moduleApply, moduleDrain, modulePayloadApply, moduleApplyEvents, payloadApply,
        AssocMap.extend]

/-- A context of the balance module, by the running context and what is read
below it. -/
@[reducible] def viewContext (env : ContextEnv) (callEnv : CallEnv) (below : DBKey → Option DBValue) :
    ContextT VMContext where
  env := fun _ => env
  callEnv := fun _ => callEnv
  payloadGet := fun top key =>
    (AssocMap.get? top.modulePayload key).getD ((AssocMap.get? top.payload key).getD (below key))
  payloadSet := fun top key value =>
    { top with modulePayload := AssocMap.insert top.modulePayload key value }
  emitEvent := fun top event => { top with moduleEvents := top.moduleEvents ++ [event] }

/-- A transfer of the balance module on the contexts, by that on the running
one. -/
theorem transfer_moduleContext (w : CallStack) (sender : Option Address)
    (params : TransferParams) :
    transfer (ModuleContext.mk w) sender params =
      (@transfer VMContext (viewContext w.executor.env w.executor.callEnv w.below) w.top sender
        params).map fun top => ModuleContext.mk { w with top := top } :=
  @transfer_map VMContext (viewContext w.executor.env w.executor.callEnv w.below) ModuleContext _
    (fun top => ModuleContext.mk { w with top := top })
    (fun _ => rfl) (fun _ _ _ => rfl) (fun _ _ => rfl) w.top sender params

/-- Two alike transfers fail alike, or leave the same running context. -/
theorem SameView.moduleBalanceTransfer (h : SameView w w') (util : Util)
    (sender recipient : Address) (value : Balance) :
    (∃ e, w.moduleBalanceTransfer util sender recipient value = .error e ∧
        w'.moduleBalanceTransfer util sender recipient value = .error e) ∨
      ∃ top, w.moduleBalanceTransfer util sender recipient value = .ok { w with top := top } ∧
        w'.moduleBalanceTransfer util sender recipient value = .ok { w' with top := top } := by
  rw [CallStack.moduleBalanceTransfer, CallStack.moduleBalanceTransfer]
  cases validateTransfer util { recipient, value } with
  | error e => exact Or.inl ⟨_, rfl, rfl⟩
  | ok u =>
      have hcontext : viewContext w'.executor.env w'.executor.callEnv w'.below =
          viewContext w.executor.env w.executor.callEnv w.below := by
        rw [h.env, h.callEnv, h.below]
      simp only
      rw [transfer_moduleContext w, transfer_moduleContext w', hcontext, h.top]
      cases @transfer VMContext (viewContext w.executor.env w.executor.callEnv w.below) w.top
          (some sender) { recipient, value } with
      | error e => exact Or.inl ⟨_, rfl, rfl⟩
      | ok top => exact Or.inr ⟨top, rfl, rfl⟩

end CallStack

/-- What two alike contexts get out of a host function. -/
structure Outcome.Alike (w w' : CallStack) (items : List (DBKey × Option DBValue))
    (o o' : Outcome) : Prop where
  state : o'.state = o.state
  result : o'.result = o.result
  world : ∃ top, o.world = w.after top items ∧ o'.world = w'.after top items

namespace Outcome.Alike

variable {w w' : CallStack} {items : List (DBKey × Option DBValue)}

/-- Only the running context changes. -/
theorem ofTop {s : State} (top : VMContext) {r : VMResult Reply} :
    Alike w w' [] ⟨s, { w with top := top }, r⟩ ⟨s, { w' with top := top }, r⟩ :=
  ⟨rfl, rfl, top, (CallStack.after_self { w with top := top }).symm,
    (CallStack.after_self { w' with top := top }).symm⟩

theorem same (h : w.SameView w') {s : State} {r : VMResult Reply} :
    Alike w w' [] ⟨s, w, r⟩ ⟨s, w', r⟩ := by
  refine ⟨rfl, rfl, w.top, (CallStack.after_self w).symm, ?_⟩
  rw [← h.top, CallStack.after_self]

theorem shareOption (h : w.SameView w') (config : VMConfig) (s : State) (shareId : Nat)
    (data : Option Bytes) :
    Alike w w' [] (s.shareOption config w shareId data) (s.shareOption config w' shareId data) := by
  cases data with
  | none => exact .same h
  | some data => exact .same h

theorem makeErrorAware_same (h : w.SameView w') (config : VMConfig) (s : State)
    (result : VMResult Unit) (errorShareId : Nat) :
    Alike w w' [] (s.makeErrorAware config w result errorShareId)
      (s.makeErrorAware config w' result errorShareId) := by
  cases result with
  | ok u => exact .same h
  | error e =>
      cases e with
      | system e => exact .same h
      | application e => exact .same h
      | panic => exact .same h

theorem makeErrorAware (config : VMConfig) (s : State) (result : VMResult Unit)
    (errorShareId : Nat) (top : VMContext) :
    Alike w w' items (s.makeErrorAware config (w.after top items) result errorShareId)
      (s.makeErrorAware config (w'.after top items) result errorShareId) := by
  cases result with
  | ok u => exact ⟨rfl, rfl, top, rfl, rfl⟩
  | error e =>
      cases e with
      | system e => exact ⟨rfl, rfl, top, rfl, rfl⟩
      | application e => exact ⟨rfl, rfl, top, rfl, rfl⟩
      | panic => exact ⟨rfl, rfl, top, rfl, rfl⟩

end Outcome.Alike

section HostCall

variable {vm : VM} {s : State} {w w' : CallStack}

theorem transferWrites_eq_modulePayload {c : HostCall} {move : Move} {top : VMContext}
    (hmove : move? s w.top.contractEnv c = some move)
    (hok : w.moduleBalanceTransfer vm.util move.sender move.recipient move.value =
      .ok { w with top := top }) :
    transferWrites vm c s w = top.modulePayload := by
  rw [transferWrites, hmove]
  simp only [hok]

theorem transferWrites_eq_nil {c : HostCall}
    (h : ∀ move, move? s w.top.contractEnv c = some move →
      ∃ e, w.moduleBalanceTransfer vm.util move.sender move.recipient move.value = .error e) :
    transferWrites vm c s w = [] := by
  rw [transferWrites]
  cases hmove : move? s w.top.contractEnv c with
  | none => rfl
  | some move =>
      obtain ⟨e, he⟩ := h move hmove
      simp only [he]

namespace CallStack

/-- Two alike `balance_transfer`s fail alike and leave the contexts, or pass the
same entries below. -/
theorem SameView.balanceTransfer (h : SameView w w') (util : Util) (recipient : Address)
    (value : Balance) :
    (∃ e, w.balanceTransfer util recipient value = (w, .error e) ∧
        w'.balanceTransfer util recipient value = (w', .error e) ∧
        ∀ sender, w.top.contractEnv.contractAddress = some sender →
          w.moduleBalanceTransfer util sender recipient value = .error e) ∨
      ∃ sender top, w.top.contractEnv.contractAddress = some sender ∧
        w.moduleBalanceTransfer util sender recipient value = .ok { w with top := top } ∧
        w.balanceTransfer util recipient value =
          (w.after top.moduleApplied top.modulePayload, .ok ()) ∧
        w'.balanceTransfer util recipient value =
          (w'.after top.moduleApplied top.modulePayload, .ok ()) := by
  rw [CallStack.balanceTransfer, CallStack.balanceTransfer, h.top]
  cases haddress : w.top.contractEnv.contractAddress with
  | none => exact Or.inl ⟨_, rfl, rfl, by rintro _ ⟨⟩⟩
  | some sender =>
      rcases h.moduleBalanceTransfer util sender recipient value with
        ⟨e, he, he'⟩ | ⟨top, hok, hok'⟩
      · refine Or.inl ⟨e, by simp [he], by simp [he'], ?_⟩
        rintro _ ⟨⟩
        exact he
      · refine Or.inr ⟨sender, top, rfl, hok, ?_, ?_⟩
        · simp only [hok, moduleApply_eq_after]
        · simp only [hok', moduleApply_eq_after]

/-- Two alike `pay`s: the same. -/
theorem SameView.pay (h : SameView w w') (hidle : w.top.Idle) (util : Util)
    (payValue : Balance) :
    (∃ r, w.pay util payValue = (w, r) ∧ w'.pay util payValue = (w', r) ∧
        ∀ sender recipient, w.top.contractEnv.senderAddress = some sender →
          w.top.contractEnv.contractAddress = some recipient → 0 < payValue →
          ∃ e, w.moduleBalanceTransfer util sender recipient payValue = .error e) ∨
      ∃ sender recipient top, w.top.contractEnv.senderAddress = some sender ∧
        w.top.contractEnv.contractAddress = some recipient ∧ 0 < payValue ∧
        w.moduleBalanceTransfer util sender recipient payValue = .ok { w with top := top } ∧
        w.pay util payValue = (w.after top.moduleApplied top.modulePayload, .ok ()) ∧
        w'.pay util payValue = (w'.after top.moduleApplied top.modulePayload, .ok ()) := by
  rw [CallStack.pay, CallStack.pay, h.top]
  cases hsender : w.top.contractEnv.senderAddress with
  | none => exact Or.inl ⟨_, rfl, rfl, by rintro _ _ ⟨⟩⟩
  | some sender =>
      cases haddress : w.top.contractEnv.contractAddress with
      | none => exact Or.inl ⟨_, rfl, rfl, by rintro _ _ _ ⟨⟩⟩
      | some recipient =>
          by_cases hpay : 0 < payValue
          · rcases h.moduleBalanceTransfer util sender recipient payValue with
              ⟨e, he, he'⟩ | ⟨top, hok, hok'⟩
            · refine Or.inl ⟨.error e, by simp [hpay, he], by simp [hpay, he'], ?_⟩
              rintro _ _ ⟨⟩ ⟨⟩ -
              exact ⟨e, he⟩
            · refine Or.inr ⟨sender, recipient, top, rfl, rfl, hpay, hok, ?_, ?_⟩
              · simp only [hpay, if_true, hok, moduleApply_eq_after]
              · simp only [hpay, if_true, hok', moduleApply_eq_after]
          · refine Or.inl ⟨.ok (), ?_, ?_, fun _ _ _ _ h => absurd h hpay⟩
            · simp only [hpay, if_false, moduleApply_of_idle hidle]
            · simp only [hpay, if_false, moduleApply_of_idle (h.top ▸ hidle)]

end CallStack

/-- A host function does the same on alike contexts, and passes below what its
transfer writes. -/
theorem hostCall_view (vm : VM) (c : HostCall) (s : State) (h : w.SameView w')
    (hidle : w.top.Idle) :
    Outcome.Alike w w' (transferWrites vm c s w) (hostCall vm c s w) (hostCall vm c s w') := by
  cases c with
  | envTxHashRead shareId =>
      simp only [hostCall, h.callEnv]
      exact .shareOption h _ _ _ _
  | envContractAddressRead shareId =>
      simp only [hostCall, h.top]
      exact .shareOption h _ _ _ _
  | envSenderAddressRead shareId =>
      simp only [hostCall, h.top]
      exact .shareOption h _ _ _ _
  | envBlockNumber =>
      simp only [hostCall, h.env]
      exact .same h
  | envBlockTimestamp =>
      simp only [hostCall, h.env]
      exact .same h
  | storageRead key shareId =>
      simp only [hostCall, h.vmToModuleKey, h.payloadGet]
      cases w.vmToModuleKey vm.util key with
      | error e => exact .same h
      | ok key => exact .shareOption h _ _ _ _
  | storageWrite key value =>
      simp only [hostCall, h.vmToModuleKey]
      cases w.vmToModuleKey vm.util key with
      | error e => exact .same h
      | ok key =>
          simp only [CallStack.payloadSet, h.top]
          exact .ofTop _
  | eventWrite event =>
      simp only [hostCall, CallStack.emitEvent, h.top]
      exact .ofTop _
  | utilValidateAddressEa address errorShareId =>
      exact .makeErrorAware_same h _ _ _ _
  | balanceRead address =>
      simp only [hostCall, h.moduleBalanceGet]
      exact .same h
  | balanceTransfer recipient value =>
      simp only [hostCall]
      rcases h.balanceTransfer vm.util recipient value with
        ⟨e, he, he', hwrites⟩ | ⟨sender, top, haddress, hok, heq, heq'⟩
      · have hnil : transferWrites vm (.balanceTransfer recipient value) s w = [] := by
          refine transferWrites_eq_nil fun move hmove => ?_
          obtain ⟨sender, hsender, rfl⟩ := Option.map_eq_some_iff.1 hmove
          exact ⟨e, hwrites sender hsender⟩
        rw [he, he', hnil]
        exact .same h
      · have hmove : move? s w.top.contractEnv (.balanceTransfer recipient value) =
            some { sender, recipient, value } := by
          simp [move?, haddress]
        rw [heq, heq', transferWrites_eq_modulePayload hmove hok]
        exact ⟨rfl, rfl, _, rfl, rfl⟩
  | balanceTransferEa recipient value errorShareId =>
      simp only [hostCall]
      rcases h.balanceTransfer vm.util recipient value with
        ⟨e, he, he', hwrites⟩ | ⟨sender, top, haddress, hok, heq, heq'⟩
      · have hdrain' := CallStack.moduleDrain_of_idle (h.top ▸ hidle)
        have hnil : transferWrites vm (.balanceTransferEa recipient value errorShareId) s w =
            [] := by
          refine transferWrites_eq_nil fun move hmove => ?_
          obtain ⟨sender, hsender, rfl⟩ := Option.map_eq_some_iff.1 hmove
          exact ⟨e, hwrites sender hsender⟩
        rw [he, he', hnil]
        simp only [CallStack.moduleDrain_of_idle hidle, hdrain']
        exact .makeErrorAware_same h _ _ _ _
      · have hmove : move? s w.top.contractEnv (.balanceTransferEa recipient value errorShareId) =
            some { sender, recipient, value } := by
          simp [move?, haddress]
        rw [heq, heq', transferWrites_eq_modulePayload hmove hok]
        exact .makeErrorAware _ _ _ _ _
  | pay =>
      simp only [hostCall]
      rcases h.pay hidle vm.util s.payValue with
        ⟨r, hr, hr', hwrites⟩ | ⟨sender, recipient, top, hsender, haddress, hpay, hok, heq, heq'⟩
      · have hnil : transferWrites vm .pay s w = [] := by
          refine transferWrites_eq_nil fun move hmove => ?_
          by_cases hpay : 0 < s.payValue
          · simp only [move?, hpay, if_true, Option.bind_eq_bind, Option.bind_eq_some_iff] at hmove
            obtain ⟨sender, hsender, recipient, hrecipient, hmove⟩ := hmove
            cases hmove
            exact hwrites sender recipient hsender hrecipient hpay
          · simp [move?, hpay] at hmove
        rw [hr, hr', hnil]
        exact .same h
      · have hmove : move? s w.top.contractEnv .pay =
            some { sender, recipient, value := s.payValue } := by
          simp [move?, hsender, haddress, hpay]
        rw [heq, heq', transferWrites_eq_modulePayload hmove hok]
        exact ⟨rfl, rfl, _, rfl, rfl⟩
  | _ => exact .same h

end HostCall

end Finastate.Contract
