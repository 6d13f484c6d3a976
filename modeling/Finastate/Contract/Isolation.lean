import Finastate.Contract.Conservation

/-!
# Isolation of contracts

A nested call of a contract `X` runs the current code of `X` at the address of
`X` for the calling contract, and what it writes and spends is of `X`. The
context of the callees of a contract is made for its first callee and then
kept, with the address it was made with, so this holds as long as no later call
of the same contract goes to another one (`Matched`). The sender needs no such
condition: a kept context always belongs to the contract that made it.
-/

namespace Finastate.Contract

open Executor Vm BalanceModule

/-- Every nested run has the environment of its own call: the address called,
and as sender the address of the caller. -/
def Aligned : VMContractEnv → List VMContractEnv → List Frame → Prop
  | env, caller :: callers, f :: frames =>
      env.contractAddress = some f.call.contractAddress ∧
        env.senderAddress = caller.contractAddress ∧ Aligned caller callers frames
  | _, _, _ => True

/-- Every nested run has the method, the parameters and the pay value of its
own call. -/
def CalledWith : State → List Frame → Prop
  | s, f :: frames =>
      String.fromUTF8? ⟨f.call.method.toArray⟩ = some s.method ∧
        s.params = f.call.params ∧ s.payValue = f.call.payValue ∧
        CalledWith f.state frames
  | _, [] => True

/-- Each kept context has the address of the one above it as its sender. -/
def Linked : VMContractEnv → List VMContractEnv → Prop
  | env, n :: nested => n.senderAddress = env.contractAddress ∧ Linked n nested
  | _, [] => True

namespace Machine

variable {vm : VM} {m m' : Machine}

/-- A nested call finds no context of another contract. -/
def Matched (m : Machine) : Prop :=
  match m.process with
  | .execute c _ =>
      ∀ n ∈ m.world.nested.head?, n.contractEnv.contractAddress = some c.contractAddress
  | _ => True

instance (m : Machine) : Decidable m.Matched :=
  match m with
  | ⟨_, _, .call _ _, _⟩ => inferInstanceAs (Decidable True)
  | ⟨w, _, .execute c _, _⟩ =>
      inferInstanceAs (Decidable (∀ n, w.nested.head? = some n →
        n.contractEnv.contractAddress = some c.contractAddress))
  | ⟨_, _, .done _, _⟩ => inferInstanceAs (Decidable True)

/-- The running contract and all that wait are isolated, and so is what the
running one does next, if it runs as a nested call of `f.call`. -/
structure Isolated (vm : VM) (m : Machine) : Prop where
  env : Aligned m.world.top.contractEnv (m.world.callers.map VMContext.contractEnv) m.frames
  call : CalledWith m.state m.frames
  code : ∀ {c next m'}, m.process = .execute c next → Step vm m m' →
    m'.frames = ⟨m.state, c, next⟩ :: m.frames →
    ∃ code, innerGetCode m.world.executor c.contractAddress none = .ok (some code) ∧
      m'.process = vm.run code Mode.call.executeFunc
  write : ∀ {f frames key value next m'}, m.frames = f :: frames →
    m.process = .call (.storageWrite key value) next → Step vm m m' →
    m'.world.below = m.world.below ∧
      ∀ k, (∀ own, k ≠ moduleKey vm.util f.call.contractAddress own) →
        m'.world.payloadGet k = m.world.payloadGet k
  foreign : ∀ {f frames key value next m'}, m.frames = f :: frames →
    m.process = .call (.storageWrite key value) next → Step vm m m' →
    ∀ address own, address ≠ f.call.contractAddress →
      address.bytes.length = f.call.contractAddress.bytes.length →
      m'.world.payloadGet (moduleKey vm.util address own) =
        m.world.payloadGet (moduleKey vm.util address own)
  debit : ∀ {f frames recipient value next errorShareId m'}, m.frames = f :: frames →
    m.process = .call (.balanceTransfer recipient value) next ∨
      m.process = .call (.balanceTransferEa recipient value errorShareId) next →
    Step vm m m' →
    ∀ account, m'.world.balances account < m.world.balances account →
      account = f.call.contractAddress

/-- What an execution keeps. -/
structure Chained (vm : VM) (m : Machine) : Prop where
  wf : WF vm m
  env : Aligned m.world.top.contractEnv (m.world.callers.map VMContext.contractEnv) m.frames
  call : CalledWith m.state m.frames
  linked : Linked m.world.top.contractEnv (m.world.nested.map VMContext.contractEnv)

theorem CalledWith.sameCall {s s' : State} {frames : List Frame} (h : CalledWith s frames)
    (hsame : s.SameCall s') : CalledWith s' frames := by
  cases frames with
  | nil => trivial
  | cons f frames =>
      obtain ⟨hmethod, hparams, hpay, hrest⟩ := h
      exact ⟨by rw [hmethod, hsame.method], hsame.params.trans hparams,
        hsame.payValue.trans hpay, hrest⟩

theorem linked_callee {w : CallStack} {address : Address}
    (h : Linked w.top.contractEnv (w.nested.map VMContext.contractEnv)) :
    (w.callee address).contractEnv.senderAddress = w.top.contractEnv.contractAddress ∧
      Linked (w.callee address).contractEnv (w.nested.tail.map VMContext.contractEnv) := by
  rw [CallStack.callee]
  cases hnested : w.nested with
  | nil => exact ⟨rfl, trivial⟩
  | cons n nested =>
      rw [hnested] at h
      exact h

theorem Chained.step (h : Chained vm m) (hmatched : m.Matched) (hstep : Step vm m m') :
    Chained vm m' := by
  have hwf' := h.wf.step hstep
  cases hstep.walk h.wf.idle with
  | host hprocess heffect hstate hframes =>
      have hsame := heffect.sameContexts
      refine ⟨hwf', ?_, ?_, ?_⟩
      · rw [hsame.top, hsame.callers, hframes]
        exact h.env
      · rw [hframes]
        exact CalledWith.sameCall h.call hstate
      · rw [hsame.top, hsame.nested]
        exact h.linked
  | enter hprocess hentered hframes =>
      obtain ⟨hsender, hlinked⟩ := linked_callee h.linked
      obtain ⟨method, hmethod, hstate⟩ := hentered.state
      rw [Matched, hprocess] at hmatched
      refine ⟨hwf', ?_, ?_, ?_⟩
      · rw [hentered.world, hframes]
        refine ⟨?_, hsender, h.env⟩
        simp only [CallStack.entered, CallStack.callee]
        cases hnested : m.world.nested with
        | nil => rfl
        | cons n nested => exact hmatched n (by simp [hnested])
      · rw [hframes, hstate]
        exact ⟨hmethod, rfl, rfl, h.call⟩
      · rw [hentered.world]
        exact hlinked
  | refuse hprocess hworld hfinished hstate hframes =>
      have hsame := hfinished.sameContexts
      refine ⟨hwf', ?_, ?_, ?_⟩
      · rw [hsame.top, hsame.callers, hframes]
        rcases hworld with rfl | ⟨-, rfl⟩
        · exact h.env
        · exact h.env
      · rw [hframes]
        exact CalledWith.sameCall h.call hstate
      · rw [hsame.top, hsame.nested]
        rcases hworld with rfl | ⟨-, rfl⟩
        · exact h.linked
        · exact linked_callee h.linked
  | @back r f hprocess hfinished hstate hframes =>
      have hsame := hfinished.sameContexts
      obtain ⟨caller, callers, hcallers, hleave⟩ := h.wf.exists_leave hframes
      have henv := h.env
      have hcall := h.call
      rw [hcallers, hframes] at henv
      rw [hframes] at hcall
      refine ⟨hwf', ?_, ?_, ?_⟩
      · rw [hsame.top, hsame.callers, hleave]
        exact henv.2.2
      · exact CalledWith.sameCall hcall.2.2.2 hstate
      · rw [hsame.top, hsame.nested, hleave]
        exact ⟨henv.2.1, h.linked⟩

/-- The contract that runs as a nested call has the address called. -/
theorem Chained.contractAddress (h : Chained vm m) {f : Frame} {frames : List Frame}
    (hframes : m.frames = f :: frames) :
    m.world.top.contractEnv.contractAddress = some f.call.contractAddress := by
  obtain ⟨caller, callers, hcallers, -⟩ := h.wf.exists_leave hframes
  have henv := h.env
  rw [hcallers, hframes] at henv
  exact henv.1

/-- What `storage_write` does at a known address. -/
theorem step_storageWrite {key : Bytes} {value : Option Bytes} {next : Reply → Process}
    {address : Address} (haddress : m.world.top.contractEnv.contractAddress = some address)
    (hprocess : m.process = .call (.storageWrite key value) next) (hstep : Step vm m m') :
    m'.world = m.world.payloadSet (moduleKey vm.util address key) value := by
  rw [Step, step, hprocess] at hstep
  cases hstep
  simp only [resume, hostCall, CallStack.vmToModuleKey, haddress]

theorem payloadGet_payloadSet {w : CallStack} {key k : DBKey} {value : Option DBValue} :
    (w.payloadSet key value).payloadGet k = if k = key then value else w.payloadGet k :=
  Overlay.read_insert_cons _ key value

/-- Keys of two contracts differ: the hash has no collisions and the addresses
are of one length. -/
theorem moduleKey_inj {util : Util} (hinj : Function.Injective util.hash)
    {address address' : Address} {key key' : Bytes}
    (hlength : address.bytes.length = address'.bytes.length)
    (h : moduleKey util address key = moduleKey util address' key') :
    address = address' ∧ key = key' := by
  have hhash : util.hash (address.bytes ++ SEPARATOR ++ key) =
      util.hash (address'.bytes ++ SEPARATOR ++ key') := by
    have := List.append_cancel_left h
    cases hl : util.hash (address.bytes ++ SEPARATOR ++ key)
    cases hr : util.hash (address'.bytes ++ SEPARATOR ++ key')
    rw [hl, hr] at this
    exact congrArg Hash.mk this
  have htext := hinj hhash
  rw [List.append_assoc, List.append_assoc] at htext
  obtain ⟨hbytes, hrest⟩ := List.append_inj htext hlength
  constructor
  · cases address
    cases address'
    exact congrArg Address.mk hbytes
  · exact List.append_cancel_left hrest

/-- A transfer takes from its sender only, as the contract that asks for it
sees it. -/
theorem eq_sender_of_moved_lt {w : CallStack} {move : Move}
    (hmovable : w.Movable vm.util move) {account : Address}
    (hlt : (w.moved move).balances account < w.balances account) :
    account = move.sender := by
  by_contra hne
  have htop : (w.moved move).top.payload = w.top.payload := CallStack.moved_top_payload w move
  have hbelow : (w.moved move).below = (w.payloadApply (w.movedItems move)).below := rfl
  rw [CallStack.balances, CallStack.balances] at hlt
  cases hget : AssocMap.get? w.top.payload (balance.key account) with
  | some value =>
      -- The contract's own buffer hides the transfer.
      have hsame : (w.moved move).payloadGet (balance.key account) =
          w.payloadGet (balance.key account) := by
        rw [CallStack.payloadGet_eq, CallStack.payloadGet_eq, htop, hget]
        rfl
      rw [BalanceModule.balances, BalanceModule.balances, hsame] at hlt
      exact lt_irrefl _ hlt
  | none =>
      by_cases hr : account = move.recipient
      · subst hr
        have hread : (w.moved move).payloadGet (balance.key move.recipient) =
            some (Codec.encodeU64 (w.balances move.recipient + move.value)) := by
          rw [CallStack.payloadGet_eq, htop, hget, hbelow, CallStack.below_payloadApply,
            CallStack.get?_movedItems_recipient]
          rfl
        rw [balances_of_get_eq_encode hmovable.fits hread] at hlt
        have hdef : w.balances move.recipient =
            BalanceModule.balances w.payloadGet move.recipient := rfl
        omega
      · have hread : (w.moved move).payloadGet (balance.key account) =
            w.payloadGet (balance.key account) := by
          rw [CallStack.payloadGet_eq, CallStack.payloadGet_eq, htop, hbelow,
            CallStack.below_payloadApply,
            CallStack.get?_movedItems_other w (fun h => hne (key_injective h))
              (fun h => hr (key_injective h))]
          rfl
        rw [BalanceModule.balances, BalanceModule.balances, hread] at hlt
        exact lt_irrefl _ hlt

/-- `balance_transfer` takes from the running contract only. -/
theorem debit_balanceTransfer {w : CallStack} (hidle : w.Idle) {address : Address}
    (haddress : w.top.contractEnv.contractAddress = some address) {recipient : Address}
    {value : Balance} {account : Address}
    (hlt : (w.balanceTransfer vm.util recipient value).1.balances account <
      w.balances account) : account = address := by
  rcases w.balanceTransfer_cases hidle vm.util recipient value with
    ⟨e, he⟩ | ⟨sender, hsender, hmovable, heq⟩
  · rw [he] at hlt
    exact absurd hlt (lt_irrefl _)
  · rw [heq] at hlt
    rw [haddress] at hsender
    cases hsender
    exact eq_sender_of_moved_lt hmovable hlt

theorem Chained.isolated (h : Chained vm m) (hinj : Function.Injective vm.util.hash) :
    Isolated vm m where
  env := h.env
  call := h.call
  code := by
    intro c next m' hprocess hstep hframes
    cases hstep.walk h.wf.idle with
    | host hprocess' _ _ _ =>
        rw [hprocess] at hprocess'
        cases hprocess'
    | enter hprocess' hentered _ =>
        rw [hprocess] at hprocess'
        cases hprocess'
        exact hentered.code
    | refuse _ _ _ _ hframes' =>
        rw [hframes] at hframes'
        have := congrArg List.length hframes'
        simp at this
    | back hprocess' _ _ _ =>
        rw [hprocess] at hprocess'
        cases hprocess'
  write := by
    intro f frames key value next m' hframes hprocess hstep
    rw [step_storageWrite (h.contractAddress hframes) hprocess hstep]
    refine ⟨rfl, ?_⟩
    intro k hk
    rw [payloadGet_payloadSet, if_neg (hk key)]
  foreign := by
    intro f frames key value next m' hframes hprocess hstep address own hne hlength
    rw [step_storageWrite (h.contractAddress hframes) hprocess hstep, payloadGet_payloadSet,
      if_neg]
    intro heq
    exact hne (moduleKey_inj hinj hlength heq).1
  debit := by
    intro f frames recipient value next errorShareId m' hframes hprocess hstep account hlt
    have haddress := h.contractAddress hframes
    rw [Step, Machine.step] at hstep
    rcases hprocess with hprocess | hprocess
    · rw [hprocess] at hstep
      cases hstep
      exact debit_balanceTransfer h.wf.idle haddress hlt
    · rw [hprocess] at hstep
      cases hstep
      apply debit_balanceTransfer h.wf.idle haddress
      rcases m.world.balanceTransfer_cases h.wf.idle vm.util recipient value with
        ⟨e, he⟩ | ⟨sender, hsender, hmovable, heq⟩
      · simp only [resume, hostCall, he, State.makeErrorAware_world,
          CallStack.moduleDrain_eq h.wf.idle] at hlt
        exact absurd hlt (lt_irrefl _)
      · simp only [resume, hostCall, heq, State.makeErrorAware_world] at hlt
        rw [heq]
        exact hlt

end Machine

namespace Library

variable (lib : Library)
  (others : Context → Option Address → Call → Context × ModuleResult Bytes)
  (address : PublicKey → Address)

theorem chained_start (config : VMConfig) (context : Context)
    (senderAddress contractAddress : Address) (code : Bytes) (mode : Mode) (method : String)
    (params : Bytes) (payValue : Balance) :
    Machine.Chained (lib.vm config) (lib.start config context senderAddress contractAddress code
      mode method params payValue) where
  wf := lib.wf_start config context senderAddress contractAddress code mode method params payValue
  env := trivial
  call := trivial
  linked := trivial

/-- Contracts are isolated in every execution in which no nested call finds a
context of another contract. -/
theorem isolated_of_matched (hinj : Function.Injective lib.util.hash) (context : Context)
    (txs : List FullTransaction)
    (hmatched : ∀ vm m, lib.Visited others address context txs vm m → m.Matched) {vm : VM}
    {m : Machine} (hvisited : lib.Visited others address context txs vm m) :
    m.Isolated vm := by
  have hchained : m.Chained vm ∧ vm.util = lib.util := by
    refine Visited.invariant lib (C := fun _ m => m.Matched)
      (P := fun vm m => m.Chained vm ∧ vm.util = lib.util) hmatched ?_ ?_ hvisited
    · intro config context senderAddress contractAddress code mode method params payValue
      exact ⟨lib.chained_start config context senderAddress contractAddress code mode method
        params payValue, rfl⟩
    · intro config m m' hm h hstep
      exact ⟨h.1.step hm hstep, rfl⟩
  apply hchained.1.isolated
  rw [hchained.2]
  exact hinj

end Library

namespace Sample

/-- A contract that calls two others. The second one transfers something. -/
def caller : List (Bytes × Process) :=
  [([1], sequence [.inr (nested 2 0 none), .inr (nested 3 0 none)]),
    ([2], sequence []),
    ([3], sequence [.inl (.balanceTransfer (account 4) 5)])]

def callerTxs : List FullTransaction :=
  [create 9 1 [1], create 9 2 [2], create 9 3 [3], transfer 9 50 2 100, execute 9 51 1 0]

/-- The second callee runs at the address of the first one, and spends what the
first one has. -/
theorem not_isolated_caller :
    ¬ ∀ (lib : Library)
      (others : Context → Option Address → Call → Context × ModuleResult Bytes)
      (address : PublicKey → Address), Function.Injective lib.util.hash →
      ∀ (context : Context) (txs : List FullTransaction) (vm : VM) (m : Machine),
        lib.Visited others address context txs vm m → m.Isolated vm := by
  intro hisolated
  have hsometime : (library caller).sometimeTxs others address
      (fun _ m =>
        match m.frames with
        | f :: _ =>
            !m.world.callers.isEmpty &&
              decide (m.world.top.contractEnv.contractAddress ≠ some f.call.contractAddress)
        | [] => false) 10 (context [(9, 1000)]) callerTxs = true := by
    decide +kernel
  obtain ⟨vm, m, hvisited, hm⟩ := (library caller).exists_visited hsometime
  have hinj : Function.Injective (library caller).util.hash := fun x y h => Hash.mk.inj h
  have henv := (hisolated (library caller) others address hinj _ _ vm m hvisited).env
  cases hframes : m.frames with
  | nil =>
      rw [hframes] at hm
      cases hm
  | cons f frames =>
      rw [hframes, Bool.and_eq_true] at hm
      cases hcallers : m.world.callers with
      | nil =>
          rw [hcallers] at hm
          cases hm.1
      | cons c callers =>
          rw [hframes, hcallers] at henv
          exact of_decide_eq_true hm.2 henv.1

/-- The contract calls one other twice. -/
def regular : List (Bytes × Process) :=
  [([1], sequence [.inr (nested 2 7 none), .inl (.storageWrite [1] (some [5])),
      .inr (nested 2 3 (some 1))]),
    ([2], sequence [.inl .pay, .inl (.storageWrite [1] (some [6])),
      .inl (.balanceTransfer (account 4) 5)])]

def regularTxs : List FullTransaction :=
  [create 9 1 [1], create 9 2 [2], transfer 9 50 1 100, execute 9 51 1 0]

/-- A nested run of the second contract, in its own name. -/
theorem isolated_regular :
    ∃ vm m, (library regular).Visited others address (context [(9, 1000)]) regularTxs vm m ∧
      m.frames.length = 1 ∧ m.Isolated vm := by
  have hsometime : (library regular).sometimeTxs others address
      (fun _ m => decide (m.frames.length = 1)) 10 (context [(9, 1000)]) regularTxs = true := by
    decide +kernel
  have halways : (library regular).alwaysTxs others address (fun _ m => decide m.Matched) 20
      (context [(9, 1000)]) regularTxs = true := by
    decide +kernel
  have hinj : Function.Injective (library regular).util.hash := fun x y h => Hash.mk.inj h
  obtain ⟨vm, m, hvisited, hm⟩ := (library regular).exists_visited hsometime
  refine ⟨vm, m, hvisited, of_decide_eq_true hm, ?_⟩
  exact (library regular).isolated_of_matched others address hinj _ _
    (fun vm m h => of_decide_eq_true (h.of_alwaysTxs _ halways)) hvisited

end Sample

end Finastate.Contract
