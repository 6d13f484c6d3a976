import Finastate.Contract.Import
import Mathlib.Tactic.MkIffOfInductiveProp

/-!
# What the host functions do to the contexts

Every host function leaves the contexts as they were, writes one key of the
contract's own data, emits an event or moves an amount between two accounts.
The proofs about executions use these forms and not the functions.

Between two host calls the buffers of the balance module are empty (`Idle`):
a transfer that fails has written nothing, and one that succeeds is applied at
once.
-/

namespace Finastate.Contract

open Executor Vm

/-- A transfer that a host function asks the balance module for. -/
structure Move where
  sender : Address
  recipient : Address
  value : Balance
  deriving DecidableEq, Repr

/-- The transfer of a host call, if it is one and the environment has the
addresses it needs. -/
def move? (s : State) (env : VMContractEnv) : HostCall → Option Move
  | .balanceTransfer recipient value =>
      env.contractAddress.map fun sender => { sender, recipient, value }
  | .balanceTransferEa recipient value _ =>
      env.contractAddress.map fun sender => { sender, recipient, value }
  | .pay =>
      if 0 < s.payValue then do
        let sender ← env.senderAddress
        let recipient ← env.contractAddress
        return { sender, recipient, value := s.payValue }
      else none
  | _ => none

/-- Nothing is pending in the module context. -/
structure VMContext.Idle (c : VMContext) : Prop where
  payload : c.modulePayload = []
  events : c.moduleEvents = []

theorem VMContext.idle_new (env : VMContractEnv) : (VMContext.new env).Idle := ⟨rfl, rfl⟩

namespace CallStack

structure Idle (w : CallStack) : Prop where
  top : w.top.Idle
  callers : ∀ c ∈ w.callers, c.Idle
  nested : ∀ c ∈ w.nested, c.Idle

/-- What the running contract sees of the balances. -/
def balances (w : CallStack) : Address → Nat := BalanceModule.balances w.payloadGet

/-- The two entries a transfer writes. -/
def movedItems (w : CallStack) (move : Move) : List (DBKey × Option DBValue) :=
  AssocMap.insert
    [(BalanceModule.balance.key move.sender,
      some (Codec.encodeU64 (w.balances move.sender - move.value)))]
    (BalanceModule.balance.key move.recipient)
    (some (Codec.encodeU64 (w.balances move.recipient + move.value)))

/-- The contexts after a transfer. -/
def moved (w : CallStack) (move : Move) : CallStack :=
  (w.payloadApply (w.movedItems move)).moduleApplyEvents
    [BalanceModule.transferred move.sender move.recipient move.value]

/-- What the balance module checks before a transfer. -/
@[mk_iff]
structure Movable (util : Util) (w : CallStack) (move : Move) : Prop where
  valid : move.recipient.bytes.length = util.addressLength
  ne : move.sender ≠ move.recipient
  enough : move.value ≤ w.balances move.sender
  fits : w.balances move.recipient + move.value < 2 ^ 64

instance (util : Util) (w : CallStack) (move : Move) : Decidable (Movable util w move) :=
  decidable_of_iff _ (movable_iff util w move).symm

variable {vm : VM} {util : Util} {s : State} {w w' : CallStack}

theorem payloadGet_moduleContext (h : w.Idle) :
    ContextT.payloadGet (ModuleContext.mk w) = w.payloadGet := by
  funext key
  change Overlay.read _ (w.top.modulePayload :: _) key = _
  rw [h.top.payload]
  rfl

@[simp] theorem payloadApply_nil (w : CallStack) : w.payloadApply [] = w := by
  obtain ⟨executor, top, callers, nested⟩ := w
  cases callers with
  | nil => rfl
  | cons caller callers => rfl

theorem moduleDrain_eq (h : w.Idle) : w.moduleDrain = w := by
  obtain ⟨executor, top, callers, nested⟩ := w
  obtain ⟨⟨hp, he⟩, -, -⟩ := h
  cases top
  cases hp
  cases he
  rfl

theorem moduleApply_eq (h : w.Idle) : w.moduleApply = w := by
  rw [moduleApply, h.top.payload, h.top.events, moduleDrain_eq h, modulePayloadApply,
    payloadApply_nil, moduleApplyEvents, List.append_nil]

/-- A transfer of the balance module in the module context, applied. -/
theorem moduleBalanceTransfer_eq_ok (h : w.Idle) {sender recipient : Address}
    {value : Balance} (hok : w.moduleBalanceTransfer util sender recipient value = .ok w') :
    Movable util w { sender, recipient, value } ∧
      w'.moduleApply = w.moved { sender, recipient, value } := by
  rw [moduleBalanceTransfer] at hok
  cases hvalid : BalanceModule.validateTransfer util { recipient, value } with
  | error e =>
      rw [hvalid] at hok
      cases hok
  | ok u =>
      rw [hvalid] at hok
      cases htransfer : BalanceModule.transfer (ModuleContext.mk w) (some sender)
          { recipient, value } with
      | error e =>
          rw [htransfer] at hok
          cases hok
      | ok context =>
          rw [htransfer] at hok
          cases hok
          obtain ⟨account, haccount, ht⟩ := BalanceModule.transfer_eq_ok htransfer
          cases haccount
          have hget := payloadGet_moduleContext h
          have hlength : recipient.bytes.length = util.addressLength := by
            rw [BalanceModule.validateTransfer, Util.validateAddress] at hvalid
            split at hvalid
            · cases hvalid
            · rename_i hlength
              exact not_not.1 hlength
          have henough := ht.enough
          have hfits := ht.fits
          have heq := ht.eq
          rw [hget] at henough hfits heq
          constructor
          · exact ⟨hlength, ht.ne, henough, hfits⟩
          · rw [heq]
            obtain ⟨executor, top, callers, nested⟩ := w
            obtain ⟨⟨hp, he⟩, -, -⟩ := h
            cases top
            cases hp
            cases he
            rfl

end CallStack

/-- What a host function does to the contexts. -/
inductive Effect (vm : VM) (c : HostCall) (s : State) (w : CallStack) : CallStack → Prop
  | same : Effect vm c s w w
  | write {address : Address} {key : Bytes} {value : Option Bytes}
      (hcall : c = .storageWrite key value)
      (haddress : w.top.contractEnv.contractAddress = some address) :
      Effect vm c s w (w.payloadSet (moduleKey vm.util address key) value)
  | event (event : Event) : Effect vm c s w (w.emitEvent event)
  | move {move : Move} (hmove : move? s w.top.contractEnv c = some move)
      (hmovable : w.Movable vm.util move) : Effect vm c s w (w.moved move)

namespace Effect

variable {vm : VM} {s : State} {w : CallStack}

theorem shareOption {c : HostCall} (s : State) (shareId : Nat) (data : Option Bytes)
    {s' : State} : Effect vm c s' w (s.shareOption vm.config w shareId data).world := by
  cases data with
  | none => exact .same
  | some data => exact .same

end Effect

@[simp] theorem State.makeErrorAware_world (config : VMConfig) (s : State) (w : CallStack)
    (result : VMResult Unit) (errorShareId : Nat) :
    (s.makeErrorAware config w result errorShareId).world = w := by
  cases result with
  | ok u => rfl
  | error e =>
      cases e with
      | system e => rfl
      | application e => rfl
      | panic => rfl

namespace CallStack

variable {vm : VM} {util : Util} {s : State} {w : CallStack}

/-- `balance_transfer` fails and leaves the contexts, or moves the amount. -/
theorem balanceTransfer_cases (h : w.Idle) (util : Util) (recipient : Address)
    (value : Balance) :
    (∃ e, w.balanceTransfer util recipient value = (w, .error e)) ∨
      ∃ sender, w.top.contractEnv.contractAddress = some sender ∧
        w.Movable util { sender, recipient, value } ∧
        w.balanceTransfer util recipient value = (w.moved { sender, recipient, value }, .ok ()) := by
  rw [balanceTransfer]
  cases haddress : w.top.contractEnv.contractAddress with
  | none => exact Or.inl ⟨_, rfl⟩
  | some sender =>
      cases htransfer : w.moduleBalanceTransfer util sender recipient value with
      | error e => exact Or.inl ⟨e, by simp [htransfer]⟩
      | ok w' =>
          obtain ⟨hmovable, heq⟩ := moduleBalanceTransfer_eq_ok h htransfer
          exact Or.inr ⟨sender, rfl, hmovable, by simp [htransfer, heq]⟩

/-- `pay` fails and leaves the contexts, has nothing to pay, or moves the
amount. -/
theorem pay_cases (h : w.Idle) (util : Util) (payValue : Balance) :
    (w.pay util payValue).1 = w ∨
      ∃ sender recipient, w.top.contractEnv.senderAddress = some sender ∧
        w.top.contractEnv.contractAddress = some recipient ∧ 0 < payValue ∧
        w.Movable util { sender, recipient, value := payValue } ∧
        (w.pay util payValue).1 = w.moved { sender, recipient, value := payValue } := by
  rw [pay]
  cases hsender : w.top.contractEnv.senderAddress with
  | none => exact Or.inl rfl
  | some sender =>
      cases haddress : w.top.contractEnv.contractAddress with
      | none => exact Or.inl rfl
      | some recipient =>
          by_cases hpay : 0 < payValue
          · cases htransfer : w.moduleBalanceTransfer util sender recipient payValue with
            | error e => exact Or.inl (by simp [hpay, htransfer])
            | ok w' =>
                obtain ⟨hmovable, heq⟩ := moduleBalanceTransfer_eq_ok h htransfer
                exact Or.inr ⟨sender, recipient, rfl, rfl, hpay, hmovable,
                  by simp [hpay, htransfer, heq]⟩
          · exact Or.inl (by simp [hpay, moduleApply_eq h])

end CallStack

/-- Two states of one run: what it was called with is the same. -/
structure State.SameCall (s s' : State) : Prop where
  method : s'.method = s.method
  params : s'.params = s.params
  payValue : s'.payValue = s.payValue

namespace State.SameCall

variable {s s' s'' : State}

theorem refl (s : State) : SameCall s s := ⟨rfl, rfl, rfl⟩

theorem trans (h : SameCall s s') (h' : SameCall s' s'') : SameCall s s'' :=
  ⟨h'.method.trans h.method, h'.params.trans h.params, h'.payValue.trans h.payValue⟩

theorem vecToShare (config : VMConfig) (s : State) (shareId : Nat) (data : Bytes) :
    SameCall s (s.vecToShare config shareId data).1 := by
  rw [State.vecToShare]
  split
  · exact refl s
  · dsimp only
    split
    · exact ⟨rfl, rfl, rfl⟩
    · exact ⟨rfl, rfl, rfl⟩

theorem share (config : VMConfig) (s : State) (w : CallStack) (shareId : Nat) (data : Bytes)
    (reply : Reply) : SameCall s (s.share config w shareId data reply).state :=
  vecToShare config s shareId data

theorem shareOption (config : VMConfig) (s : State) (w : CallStack) (shareId : Nat)
    (data : Option Bytes) : SameCall s (s.shareOption config w shareId data).state := by
  cases data with
  | none => exact refl s
  | some data => exact share config s w shareId data _

theorem makeErrorAware (config : VMConfig) (s : State) (w : CallStack) (result : VMResult Unit)
    (errorShareId : Nat) : SameCall s (s.makeErrorAware config w result errorShareId).state := by
  cases result with
  | ok u => exact refl s
  | error e =>
      cases e with
      | system e => exact refl s
      | application e => exact share config s w errorShareId _ _
      | panic => exact refl s

end State.SameCall

theorem hostCall_sameCall (vm : VM) (c : HostCall) (s : State) (w : CallStack) :
    s.SameCall (hostCall vm c s w).state := by
  cases c with
  | shareWrite data shareId => exact .share _ _ _ _ _ _
  | methodRead shareId => exact .share _ _ _ _ _ _
  | paramsRead shareId => exact .share _ _ _ _ _ _
  | resultWrite data => exact ⟨rfl, rfl, rfl⟩
  | envTxHashRead shareId => exact .shareOption _ _ _ _ _
  | envContractAddressRead shareId => exact .shareOption _ _ _ _ _
  | envSenderAddressRead shareId => exact .shareOption _ _ _ _ _
  | storageRead key shareId =>
      rw [hostCall]
      cases w.vmToModuleKey vm.util key with
      | error e => exact .refl s
      | ok key => exact .shareOption _ _ _ _ _
  | storageWrite key value =>
      rw [hostCall]
      cases w.vmToModuleKey vm.util key with
      | error e => exact .refl s
      | ok key => exact .refl s
  | utilHash data shareId => exact .share _ _ _ _ _ _
  | utilAddress data shareId => exact .share _ _ _ _ _ _
  | utilValidateAddressEa address errorShareId => exact .makeErrorAware _ _ _ _ _
  | balanceTransferEa recipient value errorShareId =>
      rw [hostCall]
      obtain ⟨w, r⟩ := w.balanceTransfer vm.util recipient value
      cases r with
      | error e => exact .makeErrorAware _ _ _ _ _
      | ok u => exact .makeErrorAware _ _ _ _ _
  | _ => exact .refl s

theorem hostCall_effect (vm : VM) (c : HostCall) (s : State) {w : CallStack} (h : w.Idle) :
    Effect vm c s w (hostCall vm c s w).world := by
  cases c with
  | envTxHashRead shareId => exact .shareOption s shareId _
  | envContractAddressRead shareId => exact .shareOption s shareId _
  | envSenderAddressRead shareId => exact .shareOption s shareId _
  | storageRead key shareId =>
      rw [hostCall]
      cases w.vmToModuleKey vm.util key with
      | error e => exact .same
      | ok key => exact .shareOption s shareId _
  | storageWrite key value =>
      rw [hostCall, CallStack.vmToModuleKey]
      cases haddress : w.top.contractEnv.contractAddress with
      | none => exact .same
      | some address => exact .write rfl haddress
  | eventWrite event => exact .event _
  | utilValidateAddressEa address errorShareId =>
      rw [hostCall, State.makeErrorAware_world]
      exact .same
  | balanceTransfer recipient value =>
      rcases w.balanceTransfer_cases h vm.util recipient value with
        ⟨e, he⟩ | ⟨sender, haddress, hmovable, heq⟩
      · rw [hostCall, he]
        exact .same
      · rw [hostCall, heq]
        exact .move (by simp [move?, haddress]) hmovable
  | balanceTransferEa recipient value errorShareId =>
      rcases w.balanceTransfer_cases h vm.util recipient value with
        ⟨e, he⟩ | ⟨sender, haddress, hmovable, heq⟩
      · simp only [hostCall, he, State.makeErrorAware_world, CallStack.moduleDrain_eq h]
        exact .same
      · simp only [hostCall, heq, State.makeErrorAware_world]
        exact .move (by simp [move?, haddress]) hmovable
  | pay =>
      rcases w.pay_cases h vm.util s.payValue with
        heq | ⟨sender, recipient, hsender, haddress, hpay, hmovable, heq⟩
      · simp only [hostCall, heq]
        exact .same
      · simp only [hostCall, heq]
        exact .move (by simp [move?, hsender, haddress, hpay]) hmovable
  | _ => exact .same

namespace CallStack

/-- The context a nested call runs in: the one that is kept, or a new one. -/
def callee (w : CallStack) (contractAddress : Address) : VMContext :=
  match w.nested with
  | n :: _ => n
  | [] => .new
      { contractAddress := some contractAddress
        senderAddress := w.top.contractEnv.contractAddress }

/-- The contexts once the nested context is there. -/
def prepared (w : CallStack) (contractAddress : Address) : CallStack :=
  { w with nested := w.callee contractAddress :: w.nested.tail }

/-- The contexts when a nested call has begun. -/
def entered (w : CallStack) (contractAddress : Address) : CallStack :=
  { w with
    top := w.callee contractAddress
    callers := w.top :: w.callers
    nested := w.nested.tail }

/-- The contexts when the writes and events of the nested context are applied. -/
def applied (w : CallStack) (n : VMContext) (nested : List VMContext) : CallStack :=
  { w with
    top := { w.top with
      payload := AssocMap.extend w.top.payload n.payload
      events := w.top.events ++ n.events }
    nested := { n with payload := [], events := [] } :: nested }

/-- The contexts when the writes and events of the nested context are dropped. -/
def drained (w : CallStack) (n : VMContext) (nested : List VMContext) : CallStack :=
  { w with nested := { n with payload := [], events := [] } :: nested }

/-- The nested context may be used: it is there, or there is room for it. -/
def Room (config : VMConfig) (w : CallStack) : Prop :=
  w.nested = [] → w.stack.length + 1 ≤ config.maxNestDepth

theorem prepareNested_eq_ok {config : VMConfig} {w w' : CallStack} {address : Address}
    (h : w.prepareNested config address = .ok w') :
    w.Room config ∧ w' = w.prepared address := by
  obtain ⟨executor, top, callers, nested⟩ := w
  cases nested with
  | cons n nested =>
      cases h
      exact ⟨nofun, rfl⟩
  | nil =>
      simp only [prepareNested] at h
      split at h
      · cases h
      · rename_i hdepth
        cases h
        exact ⟨fun _ => Nat.le_of_not_lt hdepth, rfl⟩

end CallStack

/-- A nested call has begun: the callee runs its current code on what it was
called with. -/
structure Entered (vm : VM) (c : NestedCall) (w w' : CallStack) (process : Process)
    (state : State) : Prop where
  room : w.Room vm.config
  world : w' = w.entered c.contractAddress
  code : ∃ code, innerGetCode w.executor c.contractAddress none = .ok (some code) ∧
    process = vm.run code Mode.call.executeFunc
  state : ∃ method, String.fromUTF8? ⟨c.method.toArray⟩ = some method ∧
    state = .new method c.params c.payValue

/-- A nested call that does not begin leaves the contexts, or makes the nested
one. -/
theorem enterNested_cases (vm : VM) (c : NestedCall) (w : CallStack) :
    (∃ w' process state, enterNested vm c w = (w', .ok (process, state)) ∧
        Entered vm c w w' process state) ∨
      ∃ w' e, enterNested vm c w = (w', .error e) ∧
        (w' = w ∨ w.Room vm.config ∧ w' = w.prepared c.contractAddress) := by
  rw [enterNested]
  cases hmethod : String.fromUTF8? ⟨c.method.toArray⟩ with
  | none => exact Or.inr ⟨w, _, rfl, Or.inl rfl⟩
  | some method =>
      cases hprepare : w.prepareNested vm.config c.contractAddress with
      | error e => exact Or.inr ⟨w, e, rfl, Or.inl rfl⟩
      | ok w' =>
          obtain ⟨hroom, rfl⟩ := CallStack.prepareNested_eq_ok hprepare
          have hexecutor : (w.prepared c.contractAddress).executor = w.executor := rfl
          simp only [hexecutor]
          cases hhash : innerGetCodeHash w.executor c.contractAddress none with
          | error e => exact Or.inr ⟨_, _, rfl, Or.inr ⟨hroom, rfl⟩⟩
          | ok hash =>
              cases hash with
              | none => exact Or.inr ⟨_, _, rfl, Or.inr ⟨hroom, rfl⟩⟩
              | some hash =>
                  cases hcode : innerGetCode w.executor c.contractAddress none with
                  | error e => exact Or.inr ⟨_, _, rfl, Or.inr ⟨hroom, rfl⟩⟩
                  | ok code =>
                      cases code with
                      | none => exact Or.inr ⟨_, _, rfl, Or.inr ⟨hroom, rfl⟩⟩
                      | some code =>
                          exact Or.inl ⟨_, _, _, rfl, hroom, rfl, ⟨code, hcode, rfl⟩,
                            ⟨method, hmethod, rfl⟩⟩

/-- What the end of a nested call does to the contexts of the caller. -/
inductive Finished (result : VMResult Bytes) (w : CallStack) : CallStack → Prop
  | same : Finished result w w
  | apply {n : VMContext} {nested : List VMContext} {data : Bytes} (hok : result = .ok data)
      (hnested : w.nested = n :: nested) :
      Finished result w (w.applied n nested)
  | drain {n : VMContext} {nested : List VMContext} (hnested : w.nested = n :: nested) :
      Finished result w (w.drained n nested)

theorem Finished.executor_eq {result : VMResult Bytes} {w w' : CallStack}
    (h : Finished result w w') : w'.executor = w.executor := by
  cases h with
  | same => rfl
  | apply hok hnested => rfl
  | drain hnested => rfl

theorem CallStack.nestedApply_cases (w : CallStack) :
    w.nestedApply = .error .panic ∨ ∃ n nested, w.nested = n :: nested ∧
      w.nestedApply = .ok (w.applied n nested) := by
  rw [nestedApply]
  cases w.nested with
  | nil => exact Or.inl rfl
  | cons n nested => exact Or.inr ⟨n, nested, rfl, rfl⟩

theorem CallStack.nestedDrain_cases (w : CallStack) :
    w.nestedDrain = .error .panic ∨ ∃ n nested, w.nested = n :: nested ∧
      w.nestedDrain = .ok (w.drained n nested) := by
  rw [nestedDrain]
  cases w.nested with
  | nil => exact Or.inl rfl
  | cons n nested => exact Or.inr ⟨n, nested, rfl, rfl⟩

/-- The end of `contract_execute`: it fails and leaves the contexts, or the
callee succeeded and is applied. -/
theorem finishExecute_cases (vm : VM) (c : NestedCall) (s : State) (w : CallStack)
    (result : VMResult Bytes) :
    (∃ s' e, finishExecute vm c s w result = (s', w, .error e)) ∨
      ∃ s' data n nested, result = .ok data ∧ w.nested = n :: nested ∧
        finishExecute vm c s w result = (s', w.applied n nested, .ok ()) := by
  cases result with
  | error e => exact Or.inl ⟨s, e, rfl⟩
  | ok data =>
      rw [finishExecute]
      obtain ⟨s', r⟩ := s.vecToShare vm.config c.shareId data
      cases r with
      | error e => exact Or.inl ⟨s', e, rfl⟩
      | ok u =>
          rcases w.nestedApply_cases with hpanic | ⟨n, nested, hnested, happly⟩
          · exact Or.inl ⟨s', .panic, by simp [hpanic]⟩
          · exact Or.inr ⟨s', data, n, nested, rfl, hnested, by simp [happly]⟩

theorem finishNested_finished (vm : VM) (c : NestedCall) (s : State) (w : CallStack)
    (result : VMResult Bytes) :
    Finished result w (finishNested vm c s w result).world := by
  rw [finishNested]
  rcases finishExecute_cases vm c s w result with
    ⟨s', e, heq⟩ | ⟨s', data, n, nested, hok, hnested, heq⟩
  · rw [heq]
    cases c.errorShareId with
    | none => exact .same
    | some errorShareId =>
        rcases w.nestedDrain_cases with hpanic | ⟨n, nested, hnested, hdrain⟩
        · simp only [hpanic]
          exact .same
        · simp only [hdrain, State.makeErrorAware_world]
          exact .drain hnested
  · rw [heq]
    cases c.errorShareId with
    | none => exact .apply hok hnested
    | some errorShareId =>
        simp only [State.makeErrorAware_world]
        exact .apply hok hnested

theorem finishExecute_sameCall (vm : VM) (c : NestedCall) (s : State) (w : CallStack)
    (result : VMResult Bytes) : s.SameCall (finishExecute vm c s w result).1 := by
  cases result with
  | error e => exact .refl s
  | ok data =>
      have hshare := State.SameCall.vecToShare vm.config s c.shareId data
      rw [finishExecute]
      generalize s.vecToShare vm.config c.shareId data = p at hshare
      obtain ⟨s', r⟩ := p
      cases r with
      | error e => exact hshare
      | ok u =>
          dsimp only
          cases w.nestedApply with
          | error e => exact hshare
          | ok w => exact hshare

theorem finishNested_sameCall (vm : VM) (c : NestedCall) (s : State) (w : CallStack)
    (result : VMResult Bytes) : s.SameCall (finishNested vm c s w result).state := by
  have hexecute := finishExecute_sameCall vm c s w result
  rw [finishNested]
  generalize finishExecute vm c s w result = p at hexecute
  obtain ⟨s', w', r⟩ := p
  cases c.errorShareId with
  | none => exact hexecute
  | some errorShareId =>
      cases r with
      | ok u => exact hexecute.trans (.makeErrorAware _ _ _ _ _)
      | error e =>
          dsimp only
          cases w'.nestedDrain with
          | error e => exact hexecute
          | ok w => exact hexecute.trans (.makeErrorAware _ _ _ _ _)

/-- The same contexts with other buffers: no context appears or goes, none
changes its environment, and the buffers of the balance module stay empty. -/
structure SameContexts (w w' : CallStack) : Prop where
  top : w'.top.contractEnv = w.top.contractEnv
  callers : w'.callers.map VMContext.contractEnv = w.callers.map VMContext.contractEnv
  nested : w'.nested.map VMContext.contractEnv = w.nested.map VMContext.contractEnv
  idle : w.Idle → w'.Idle

namespace SameContexts

variable {w w' : CallStack}

theorem refl (w : CallStack) : SameContexts w w := ⟨rfl, rfl, rfl, id⟩

theorem length_callers (h : SameContexts w w') : w'.callers.length = w.callers.length := by
  have := congrArg List.length h.callers
  simpa using this

theorem length_nested (h : SameContexts w w') : w'.nested.length = w.nested.length := by
  have := congrArg List.length h.nested
  simpa using this

theorem moved (w : CallStack) (move : Move) : SameContexts w (w.moved move) := by
  obtain ⟨executor, top, callers, nested⟩ := w
  cases callers with
  | nil => exact ⟨rfl, rfl, rfl, fun h => ⟨⟨h.top.payload, h.top.events⟩, nofun, h.nested⟩⟩
  | cons caller callers =>
      refine ⟨rfl, rfl, rfl, fun h => ⟨⟨h.top.payload, h.top.events⟩, ?_, h.nested⟩⟩
      intro c hc
      rcases List.mem_cons.1 hc with rfl | hc
      · have := h.callers caller List.mem_cons_self
        exact ⟨this.payload, this.events⟩
      · exact h.callers c (List.mem_cons_of_mem caller hc)

theorem drain_nested {nested : List VMContext} {n : VMContext}
    (h : ∀ c ∈ n :: nested, c.Idle) :
    ∀ c ∈ { n with payload := [], events := [] } :: nested, c.Idle := by
  intro c hc
  rcases List.mem_cons.1 hc with rfl | hc
  · have := h n List.mem_cons_self
    exact ⟨this.payload, this.events⟩
  · exact h c (List.mem_cons_of_mem n hc)

end SameContexts

theorem Effect.sameContexts {vm : VM} {c : HostCall} {s : State} {w w' : CallStack}
    (h : Effect vm c s w w') : SameContexts w w' := by
  cases h with
  | same => exact .refl w
  | write hcall haddress =>
      exact ⟨rfl, rfl, rfl, fun h => ⟨⟨h.top.payload, h.top.events⟩, h.callers, h.nested⟩⟩
  | event e =>
      exact ⟨rfl, rfl, rfl, fun h => ⟨⟨h.top.payload, h.top.events⟩, h.callers, h.nested⟩⟩
  | move hmove hmovable => exact .moved w _

theorem Finished.sameContexts {result : VMResult Bytes} {w w' : CallStack}
    (h : Finished result w w') : SameContexts w w' := by
  cases h with
  | same => exact .refl w
  | apply hok hnested =>
      refine ⟨rfl, rfl, by simp [CallStack.applied, hnested], fun h => ⟨?_, h.callers, ?_⟩⟩
      · exact ⟨h.top.payload, h.top.events⟩
      · exact SameContexts.drain_nested (hnested ▸ h.nested)
  | drain hnested =>
      refine ⟨rfl, rfl, by simp [CallStack.drained, hnested], fun h => ⟨h.top, h.callers, ?_⟩⟩
      exact SameContexts.drain_nested (hnested ▸ h.nested)

namespace CallStack

variable {w : CallStack} (address : Address)

theorem idle_callee (h : w.Idle) : (w.callee address).Idle := by
  rw [callee]
  cases hnested : w.nested with
  | nil => exact VMContext.idle_new _
  | cons n nested => exact h.nested n (by simp [hnested])

theorem idle_tail (h : w.Idle) : ∀ c ∈ w.nested.tail, c.Idle := fun c hc =>
  h.nested c (List.mem_of_mem_tail hc)

theorem idle_prepared (h : w.Idle) : (w.prepared address).Idle := by
  refine ⟨h.top, h.callers, ?_⟩
  intro c hc
  rcases List.mem_cons.1 hc with rfl | hc
  · exact idle_callee address h
  · exact idle_tail h c hc

theorem idle_entered (h : w.Idle) : (w.entered address).Idle := by
  refine ⟨idle_callee address h, ?_, idle_tail h⟩
  intro c hc
  rcases List.mem_cons.1 hc with rfl | hc
  · exact h.top
  · exact h.callers c hc

theorem idle_leave (h : w.Idle) : w.leave.Idle := by
  obtain ⟨executor, top, callers, nested⟩ := w
  cases callers with
  | nil => exact h
  | cons caller callers =>
      refine ⟨h.callers caller List.mem_cons_self,
        fun c hc => h.callers c (List.mem_cons_of_mem caller hc), ?_⟩
      intro c hc
      rcases List.mem_cons.1 hc with rfl | hc
      · exact h.top
      · exact h.nested c hc

end CallStack

end Finastate.Contract
