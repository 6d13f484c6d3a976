import Finastate.Contract.Faults
import Finastate.Contract.LinkedMachine

/-!
# What the imported functions return

An imported function is to return a value or an error of the application. It does
not where an index is outside the memory, where an entry of the state does not
decode, where a callee does not, and in the error aware variant of a nested call:
that one clears the nested context after a failure, and there is none if the first
nested call of a contract fails before it has made one.
-/

namespace Finastate.Vm

/-- Neither a value nor an error of the application. -/
def Unanswered {α : Type} (r : VMResult α) : Prop := ∃ e : VMError, r = .error e ∧ e.isSystem

section Unanswered

variable {α β : Type} {r : VMResult α} {e : VMError}

@[simp] theorem not_unanswered_ok (a : α) : ¬ Unanswered (.ok a : VMResult α) := nofun

@[simp] theorem unanswered_error : Unanswered (.error e : VMResult α) ↔ e.isSystem := by
  simp [Unanswered]

@[simp] theorem unanswered_map (f : α → β) : Unanswered (r.map f) ↔ Unanswered r := by
  cases r with
  | ok a => simp [Except.map]
  | error e => simp [Except.map]

theorem not_unanswered_iff :
    ¬ Unanswered r ↔ (∃ a, r = .ok a) ∨ ∃ e, r = .error (.application e) := by
  cases r with
  | ok a => simp
  | error e =>
      cases e with
      | application e => simp [VMError.isSystem]
      | system e => simp [VMError.isSystem]
      | panic => simp [VMError.isSystem]

@[simp] theorem isSystem_contract (e : ContractError) : (VMError.contract e).isSystem = false :=
  rfl

end Unanswered

end Finastate.Vm

namespace Finastate.Contract

open Executor Vm Relation

/-! ## Entries of the state -/

theorem contextGet_error {C V : Type} [ContextT C] {decode : Codec.Decoder V} {context : C}
    {key : DBKey} {e : ModuleError} (h : contextGet decode context key = .error e) :
    e = .system .codec := by
  unfold contextGet at h
  split at h
  · split at h
    · cases h
    · exact (Except.error.inj h).symm
  · cases h

/-- The current version of a contract can be looked up, and so can its code. -/
def Listed (context : Context) (contractAddress : Address) : Prop :=
  match innerGetCodeHash context contractAddress none with
  | .error _ => False
  | .ok none => True
  | .ok (some _) => (innerGetCode context contractAddress none).isOk

instance (context : Context) (contractAddress : Address) :
    Decidable (Listed context contractAddress) := by
  unfold Listed
  split <;> infer_instance

namespace CallStack

variable {w : CallStack} {util : Util} {sender recipient : Address} {value : Balance}

/-- The balance of the account decodes. -/
def Counted (w : CallStack) (account : Address) : Prop :=
  (BalanceModule.balance.get (ModuleContext.mk w) account).isOk

/-- The balances that a transfer looks at decode. The recipient is looked at if the
sender has enough. -/
def Transfers (util : Util) (w : CallStack) (sender recipient : Address) (value : Balance) :
    Prop :=
  recipient.bytes.length = util.addressLength → sender ≠ recipient →
    match BalanceModule.balance.get (ModuleContext.mk w) sender with
    | .error _ => False
    | .ok found => value ≤ found.getD 0 → w.Counted recipient

theorem unanswered_moduleBalanceGet (address : Address) :
    Unanswered (w.moduleBalanceGet address) ↔ ¬ w.Counted address := by
  rw [moduleBalanceGet, BalanceModule.getBalance, Counted]
  cases hget : BalanceModule.balance.get (ModuleContext.mk w) address with
  | ok found => simp [Except.map, Except.mapError, Except.isOk, Except.toBool]
  | error e =>
      rw [contextGet_error hget]
      simp [Except.map, Except.mapError, Except.isOk, Except.toBool, moduleToVmError,
        VMError.isSystem]

theorem unanswered_moduleBalanceTransfer :
    Unanswered (w.moduleBalanceTransfer util sender recipient value) ↔
      ¬ w.Transfers util sender recipient value := by
  have hrefuse (msg : String) : (moduleToVmError (.ofString msg)).isSystem = false := rfl
  unfold moduleBalanceTransfer BalanceModule.validateTransfer Util.validateAddress Transfers
  by_cases hlength : recipient.bytes.length = util.addressLength
  · simp only [hlength, ne_eq, not_true_eq_false, if_false, true_imp_iff, BalanceModule.transfer]
    by_cases hself : sender = recipient
    · simp [hself, hrefuse]
    · simp only [hself, if_false, not_false_eq_true, true_imp_iff]
      cases hsender : BalanceModule.balance.get (ModuleContext.mk w) sender with
      | error e =>
          rw [contextGet_error hsender]
          simp [Except.bind, moduleToVmError, VMError.isSystem]
      | ok found =>
          simp only [Except.bind]
          by_cases henough : found.getD 0 < value
          · simp [henough, hrefuse]
          · have hle : value ≤ found.getD 0 := Nat.le_of_not_lt henough
            simp only [henough, if_false, hle, true_imp_iff, Counted]
            cases hrecipient : BalanceModule.balance.get (ModuleContext.mk w) recipient with
            | error e =>
                rw [contextGet_error hrecipient]
                simp [Except.isOk, Except.toBool, moduleToVmError, VMError.isSystem]
            | ok found' =>
                simp only [Except.isOk, Except.toBool, not_true_eq_false, iff_false]
                split
                · next e hfailed =>
                  split at hfailed
                  · cases hfailed
                    simp [hrefuse]
                  · split at hfailed
                    · cases hfailed
                      simp [hrefuse]
                    · cases hfailed
                · exact not_unanswered_ok _
  · simp [hlength, moduleToVmError]

theorem unanswered_balanceTransfer :
    Unanswered (w.balanceTransfer util recipient value).2 ↔
      ¬ ∀ sender ∈ w.top.contractEnv.contractAddress, w.Transfers util sender recipient value := by
  unfold balanceTransfer
  cases w.top.contractEnv.contractAddress with
  | none => simp
  | some sender =>
      have htransfer := @unanswered_moduleBalanceTransfer w util sender recipient value
      simp only [Option.mem_some_iff, forall_eq']
      rw [← htransfer]
      cases w.moduleBalanceTransfer util sender recipient value with
      | error e => exact unanswered_error.trans unanswered_error.symm
      | ok w' => exact iff_of_false (not_unanswered_ok _) (not_unanswered_ok _)

theorem unanswered_pay {payValue : Balance} :
    Unanswered (w.pay util payValue).2 ↔
      ¬ (0 < payValue → ∀ sender ∈ w.top.contractEnv.senderAddress,
        ∀ contractAddress ∈ w.top.contractEnv.contractAddress,
          w.Transfers util sender contractAddress payValue) := by
  unfold pay
  cases w.top.contractEnv.senderAddress with
  | none => simp
  | some sender =>
      cases w.top.contractEnv.contractAddress with
      | none => simp
      | some contractAddress =>
          have htransfer := @unanswered_moduleBalanceTransfer w util sender contractAddress payValue
          by_cases hpay : 0 < payValue
          · simp only [hpay, if_true, true_imp_iff, Option.mem_some_iff, forall_eq']
            rw [← htransfer]
            cases w.moduleBalanceTransfer util sender contractAddress payValue with
            | error e => exact unanswered_error.trans unanswered_error.symm
            | ok w' => exact iff_of_false (not_unanswered_ok _) (not_unanswered_ok _)
          · simp [hpay]

end CallStack

/-! ## Host functions -/

/-- The balances that a host function looks at decode. -/
def Entries (util : Util) (s : State) (w : CallStack) : HostCall → Prop
  | .balanceRead address => w.Counted address
  | .balanceTransfer recipient value | .balanceTransferEa recipient value _ =>
      ∀ sender ∈ w.top.contractEnv.contractAddress, w.Transfers util sender recipient value
  | .pay =>
      0 < s.payValue → ∀ sender ∈ w.top.contractEnv.senderAddress,
        ∀ contractAddress ∈ w.top.contractEnv.contractAddress,
          w.Transfers util sender contractAddress s.payValue
  | _ => True

section HostCall

variable {vm : VM} {config : VMConfig} {s : State} {w : CallStack}

theorem not_unanswered_share {shareId : Nat} {data : Bytes} {reply : Reply} :
    ¬ Unanswered (s.share config w shareId data reply).result := by
  rintro ⟨e, hresult, he⟩
  rw [Machine.not_isSystem_share hresult] at he
  cases he

theorem not_unanswered_shareOption {shareId : Nat} {data : Option Bytes} :
    ¬ Unanswered (s.shareOption config w shareId data).result := by
  cases data with
  | none => exact not_unanswered_ok _
  | some data => exact not_unanswered_share

theorem not_unanswered_utilValidateAddress {address : Address} :
    ¬ Unanswered (utilValidateAddress vm address) := by
  rw [utilValidateAddress, Util.validateAddress]
  split
  · simp [Except.mapError, CallStack.moduleToVmError]
  · exact not_unanswered_ok _

theorem unanswered_makeErrorAware {result : VMResult Unit} {errorShareId : Nat} :
    Unanswered (s.makeErrorAware config w result errorShareId).result ↔ Unanswered result := by
  constructor
  · rintro ⟨e, hresult, he⟩
    exact ⟨e, (Machine.makeErrorAware_isSystem he).1 hresult, he⟩
  · rintro ⟨e, hresult, he⟩
    exact ⟨e, (Machine.makeErrorAware_isSystem he).2 hresult, he⟩

/-- A host function answers if and only if the balances that it looks at decode. -/
theorem unanswered_hostCall (c : HostCall) :
    Unanswered (hostCall vm c s w).result ↔ ¬ Entries vm.util s w c := by
  have hanswers {P : Prop} (h : ¬ P) : P ↔ ¬ True := iff_of_false h (not_not.2 trivial)
  cases c with
  | shareRead shareId =>
      refine hanswers ?_
      rw [hostCall, unanswered_map, State.shareToVec]
      split
      · exact not_unanswered_ok _
      · simp
  | shareLen shareId => exact hanswers (not_unanswered_ok _)
  | shareWrite data shareId => exact hanswers not_unanswered_share
  | methodRead shareId => exact hanswers not_unanswered_share
  | paramsRead shareId => exact hanswers not_unanswered_share
  | payValueRead => exact hanswers (not_unanswered_ok _)
  | resultWrite data => exact hanswers (not_unanswered_ok _)
  | errorReturn msg =>
      refine hanswers ?_
      rw [hostCall, errorReturn]
      split
      · simp
      · simp
  | abort =>
      refine hanswers ?_
      rw [hostCall]
      simp
  | envBlockNumber => exact hanswers (not_unanswered_ok _)
  | envBlockTimestamp => exact hanswers (not_unanswered_ok _)
  | envTxHashRead shareId => exact hanswers not_unanswered_shareOption
  | envContractAddressRead shareId => exact hanswers not_unanswered_shareOption
  | envSenderAddressRead shareId => exact hanswers not_unanswered_shareOption
  | storageRead key shareId =>
      refine hanswers ?_
      rw [hostCall, CallStack.vmToModuleKey]
      cases w.top.contractEnv.contractAddress with
      | none => simp
      | some address => exact not_unanswered_shareOption
  | storageWrite key value =>
      refine hanswers ?_
      rw [hostCall, CallStack.vmToModuleKey]
      cases w.top.contractEnv.contractAddress with
      | none => simp
      | some address => exact not_unanswered_ok _
  | eventWrite event => exact hanswers (not_unanswered_ok _)
  | utilHash data shareId => exact hanswers not_unanswered_share
  | utilAddress data shareId => exact hanswers not_unanswered_share
  | utilValidateAddress address =>
      refine hanswers ?_
      rw [hostCall, unanswered_map]
      exact not_unanswered_utilValidateAddress
  | utilValidateAddressEa address errorShareId =>
      refine hanswers ?_
      rw [hostCall, unanswered_makeErrorAware]
      exact not_unanswered_utilValidateAddress
  | balanceRead address =>
      rw [hostCall, unanswered_map]
      exact CallStack.unanswered_moduleBalanceGet address
  | balanceTransfer recipient value =>
      rw [hostCall, unanswered_map]
      exact CallStack.unanswered_balanceTransfer
  | balanceTransferEa recipient value errorShareId =>
      refine Iff.trans ?_ CallStack.unanswered_balanceTransfer
      rw [hostCall]
      rcases w.balanceTransfer vm.util recipient value with ⟨w', e | u⟩
      · exact unanswered_makeErrorAware
      · exact unanswered_makeErrorAware
  | pay =>
      rw [hostCall, unanswered_map]
      exact CallStack.unanswered_pay

end HostCall

/-! ## Nested calls -/

/-- A nested call comes to the code of its callee: the method is UTF-8, and there is
or can be a nested context. -/
def Begins (config : VMConfig) (w : CallStack) (c : NestedCall) : Prop :=
  c.method?.isSome ∧ w.Room config

/-- A nested call that is refused is answered: the callee is listed, and the error
aware variant finds a nested context to clear. -/
structure Refusable (config : VMConfig) (w : CallStack) (c : NestedCall) : Prop where
  listed : Begins config w c → Listed w.executor c.contractAddress
  clears : c.errorShareId.isSome → w.nested ≠ [] ∨ Begins config w c

namespace LinkedMachine

variable {rt : Runtime} {s : State} {w : CallStack}

/-- A lookup by the current version fails only on an entry that does not decode. -/
theorem lookup_error {V : Type} {context : Context} {contractAddress : Address} {e : ModuleError}
    {lookup : Option Nat → ModuleResult (Option V)}
    (hlookup : ∀ v e, lookup v = .error e → e = .system .codec)
    (h : (innerGetVersion context contractAddress none).bind lookup = .error e) :
    e = .system .codec := by
  rcases hversion : innerGetVersion context contractAddress none with e' | version
  · rw [hversion] at h
    cases h
    exact contextGet_error hversion
  · rw [hversion] at h
    exact hlookup version e h

theorem innerGetCodeHash_error {context : Context} {contractAddress : Address} {e : ModuleError}
    (h : innerGetCodeHash context contractAddress none = .error e) : e = .system .codec := by
  refine lookup_error (fun v e h => ?_) h
  cases v with
  | none => cases h
  | some v => exact contextGet_error h

theorem innerGetCode_error {context : Context} {contractAddress : Address} {e : ModuleError}
    (h : innerGetCode context contractAddress none = .error e) : e = .system .codec := by
  refine lookup_error (fun v e h => ?_) h
  cases v with
  | none => cases h
  | some v => exact contextGet_error h

theorem prepareNested_eq (config : VMConfig) (w : CallStack) (address : Address) :
    (w.Room config ∧ w.prepareNested config address = .ok (w.prepared address)) ∨
      (¬ w.Room config ∧ w.nested = [] ∧
        w.prepareNested config address = .error (.contract .nestDepthExceeded)) := by
  obtain ⟨executor, top, callers, nested⟩ := w
  cases nested with
  | cons n nested => exact Or.inl ⟨nofun, rfl⟩
  | nil =>
      unfold CallStack.prepareNested CallStack.Room
      split
      · next hnested => cases hnested
      · split
        · next hdepth => exact Or.inr ⟨fun h => absurd hdepth (Nat.not_lt.2 (h rfl)), rfl, rfl⟩
        · next hdepth => exact Or.inl ⟨fun _ => Nat.le_of_not_lt hdepth, rfl⟩

/-- A nested call is entered, is refused before there is a nested context, or is
refused with the nested context at hand. -/
theorem enterCode_cases (c : NestedCall) (w : CallStack) :
    (Begins rt.config w c ∧ Listed w.executor c.contractAddress ∧
        ∃ w' next, enterCode rt c w = (w', .ok next)) ∨
      (¬ Begins rt.config w c ∧ ∃ e, e.isSystem = false ∧ enterCode rt c w = (w, .error e)) ∨
        (Begins rt.config w c ∧ ∃ e, (e.isSystem ↔ ¬ Listed w.executor c.contractAddress) ∧
          enterCode rt c w = (w.prepared c.contractAddress, .error e)) := by
  unfold enterCode Begins
  cases hmethod : c.method? with
  | none => exact Or.inr (Or.inl ⟨by rintro ⟨⟨⟩, -⟩, _, rfl, rfl⟩)
  | some method =>
      rcases prepareNested_eq rt.config w c.contractAddress with
        ⟨hroom, hprepare⟩ | ⟨hroom, -, hprepare⟩
      · have hexecutor : (w.prepared c.contractAddress).executor = w.executor := rfl
        simp only [hprepare, hexecutor, Listed]
        cases hhash : innerGetCodeHash w.executor c.contractAddress none with
        | error e =>
            rw [innerGetCodeHash_error hhash]
            exact Or.inr (Or.inr ⟨⟨rfl, hroom⟩, _, iff_of_true rfl not_false, rfl⟩)
        | ok hash =>
            cases hash with
            | none =>
                refine Or.inr (Or.inr ⟨⟨rfl, hroom⟩, _, ?_, rfl⟩)
                exact iff_of_false Bool.false_ne_true (not_not.2 trivial)
            | some hash =>
                simp only
                cases hcode : innerGetCode w.executor c.contractAddress none with
                | error e =>
                    rw [innerGetCode_error hcode]
                    exact Or.inr (Or.inr ⟨⟨rfl, hroom⟩, _, iff_of_true rfl Bool.false_ne_true, rfl⟩)
                | ok code =>
                    cases code with
                    | none =>
                        refine Or.inr (Or.inr ⟨⟨rfl, hroom⟩, _, ?_, rfl⟩)
                        exact iff_of_false Bool.false_ne_true (not_not.2 rfl)
                    | some code => exact Or.inl ⟨⟨rfl, hroom⟩, rfl, _, _, rfl⟩
      · simp only [hprepare]
        exact Or.inr (Or.inl ⟨fun h => hroom h.2, _, rfl, rfl⟩)

theorem refused_iff {c : NestedCall} {w' : CallStack} {e : VMError}
    (h : enterCode rt c w = (w', .error e)) :
    (∃ w' e, enterCode rt c w = (w', .error e) ∧
        Unanswered (finishNested rt.vm c s w' (.error e)).result) ↔
      e.isSystem ∨ c.errorShareId.isSome ∧ w'.nested = [] := by
  rw [← Machine.finishNested_error_isSystem]
  constructor
  · rintro ⟨w₁, e₁, heq, hunanswered⟩
    cases h.symm.trans heq
    exact hunanswered
  · intro hunanswered
    exact ⟨w', e, h, hunanswered⟩

/-- A nested call that does not come to its callee is answered if and only if the
entries of the callee decode and there is a context to clear. -/
theorem unanswered_enterCode (c : NestedCall) :
    (∃ w' e, enterCode rt c w = (w', .error e) ∧
        Unanswered (finishNested rt.vm c s w' (.error e)).result) ↔
      ¬ Refusable rt.config w c := by
  rcases @enterCode_cases rt c w with
    ⟨hbegins, hlisted, w', next, henter⟩ | ⟨hbegins, e, he, henter⟩ | ⟨hbegins, e, he, henter⟩
  · have hrefusable : Refusable rt.config w c := ⟨fun _ => hlisted, fun _ => Or.inr hbegins⟩
    refine iff_of_false ?_ (not_not.2 hrefusable)
    rintro ⟨w₁, e₁, heq, -⟩
    cases henter.symm.trans heq
  · rw [refused_iff henter, he]
    constructor
    · rintro (hfalse | ⟨hea, hnested⟩) hrefusable
      · cases hfalse
      · exact (hrefusable.clears hea).elim (absurd hnested) hbegins
    · intro hrefusable
      right
      by_contra hcontra
      refine hrefusable ⟨fun h => absurd h hbegins, fun hea => Or.inl fun hnested => ?_⟩
      exact hcontra ⟨hea, hnested⟩
  · have hprepared : (w.prepared c.contractAddress).nested ≠ [] := List.cons_ne_nil _ _
    rw [refused_iff henter, he]
    constructor
    · rintro (hlisted | ⟨-, hnested⟩) hrefusable
      · exact hlisted (hrefusable.listed hbegins)
      · exact hprepared hnested
    · intro hrefusable
      exact Or.inl fun hlisted => hrefusable ⟨fun _ => hlisted, fun _ => Or.inr hbegins⟩

/-! ## Imported functions -/

/-- The share that `share_read` copies fits into the memory. -/
def Writes (memory : Memory) (s : State) : Import → Prop
  | .shareRead shareId ptr =>
      ∀ data ∈ AssocMap.get? s.shares shareId.toNat, ptr.toNat + data.length ≤ memory.size
  | _ => True

instance (memory : Memory) (s : State) (c : Import) : Decidable (Writes memory s c) :=
  match c with
  | .shareRead shareId ptr =>
      inferInstanceAs (Decidable (∀ data ∈ AssocMap.get? s.shares shareId.toNat,
        ptr.toNat + data.length ≤ memory.size))
  | .shareLen .. | .shareWrite .. | .methodRead .. | .paramsRead .. | .payValueRead
  | .resultWrite .. | .errorReturn .. | .abort | .envBlockNumber | .envBlockTimestamp
  | .envTxHashRead .. | .envContractAddressRead .. | .envSenderAddressRead .. | .storageRead ..
  | .storageWrite .. | .eventWrite .. | .utilHash .. | .utilAddress .. | .utilValidateAddress ..
  | .utilValidateAddressEa .. | .balanceRead .. | .balanceTransfer .. | .balanceTransferEa ..
  | .pay | .contractExecute .. | .contractExecuteEa .. => isTrue trivial

/-- What an imported function needs to answer, or to run a callee. -/
structure Fine (rt : Runtime) (memory : Memory) (s : State) (w : CallStack) (c : Import) :
    Prop where
  reads : c.Reads memory w.top.contractEnv.contractAddress.isSome
  writes : Writes memory s c
  entries : ∀ h, c.request memory w.top.contractEnv.contractAddress.isSome = some (.host h) →
    Entries rt.util s w h
  refusable : ∀ n, c.request memory w.top.contractEnv.contractAddress.isSome = some (.nested n) →
    Refusable rt.config w n

theorem unanswered_hostImport {memory : Memory} {c : Import} {h : HostCall} {addressed : Bool}
    (hrequest : c.request memory addressed = some (.host h)) :
    Unanswered (hostImport rt memory c h s w).1.result ↔
      ¬ (Writes memory s c ∧ Entries rt.util s w h) := by
  have hkeeps (hstore : ∀ reply, c.store memory reply = some (reply, memory))
      (hwrites : Writes memory s c) :
      Unanswered (hostImport rt memory c h s w).1.result ↔
        ¬ (Writes memory s c ∧ Entries rt.util s w h) := by
    have hhost : Unanswered (hostCall rt.vm h s w).result ↔ ¬ Entries rt.util s w h :=
      unanswered_hostCall h
    rw [and_iff_right hwrites, ← hhost]
    unfold hostImport
    simp only
    split
    · rfl
    · next reply hresult => simp only [hstore, hresult]
  cases c with
  | shareRead shareId ptr =>
      cases hrequest
      have hentries : Entries rt.util s w (.shareRead shareId.toNat) := trivial
      rw [and_iff_left hentries]
      cases hget : AssocMap.get? s.shares shareId.toNat with
      | none => simp [hostImport, hostCall, State.shareToVec, Writes, hget, Except.map]
      | some data =>
          simp only [hostImport, hostCall, State.shareToVec, Writes, hget, Option.mem_some_iff,
            forall_eq', ← Memory.isSome_vecToMemory, Except.map, Import.store]
          cases memory.vecToMemory ptr.toNat data with
          | none => simp [VMError.isSystem]
          | some memory' => simp
  | _ => exact hkeeps (fun _ => rfl) trivial

theorem unanswered_call {memory : Memory} {c : Import} :
    (∃ o memory', call rt memory c s w = .returned o memory' ∧ Unanswered o.result) ↔
      ¬ Fine rt memory s w c := by
  unfold call
  cases hrequest : c.request memory w.top.contractEnv.contractAddress.isSome with
  | none =>
      have hreads : ¬ c.Reads memory w.top.contractEnv.contractAddress.isSome := by
        rw [← Import.isSome_request, hrequest]
        nofun
      exact iff_of_true ⟨_, _, rfl, .panic, rfl, rfl⟩ fun h => hreads h.reads
  | some request =>
      have hreads : c.Reads memory w.top.contractEnv.contractAddress.isSome := by
        rw [← Import.isSome_request, hrequest]
        rfl
      cases request with
      | host h =>
          have hhost := @unanswered_hostImport rt s w memory c h _ hrequest
          constructor
          · rintro ⟨o, memory', heq, hunanswered⟩ hfine
            cases heq
            exact hhost.1 hunanswered ⟨hfine.writes, hfine.entries h hrequest⟩
          · intro hfine
            refine ⟨_, _, rfl, hhost.2 fun hboth => hfine ⟨hreads, hboth.1, ?_, ?_⟩⟩
            · intro h' hrequest'
              cases hrequest.symm.trans hrequest'
              exact hboth.2
            · intro n hrequest'
              cases hrequest.symm.trans hrequest'
      | nested n =>
          have hwrites : Writes memory s c := by
            cases c with
            | shareRead shareId ptr => cases hrequest
            | _ => trivial
          have hrefused := @unanswered_enterCode rt s w n
          have hfine : Fine rt memory s w c ↔ Refusable rt.config w n := by
            refine ⟨fun h => h.refusable n hrequest, fun h => ⟨hreads, hwrites, ?_, ?_⟩⟩
            · intro h' hrequest'
              cases hrequest.symm.trans hrequest'
            · intro n' hrequest'
              cases hrequest.symm.trans hrequest'
              exact h
          rw [hfine, ← hrefused]
          simp only
          generalize enterCode rt n w = out
          obtain ⟨w', e | next⟩ := out
          · constructor
            · rintro ⟨o, memory', heq, hunanswered⟩
              cases heq
              exact ⟨w', e, rfl, hunanswered⟩
            · rintro ⟨w₁, e₁, heq, hunanswered⟩
              cases heq
              exact ⟨_, _, rfl, hunanswered⟩
          · refine iff_of_false ?_ ?_
            · rintro ⟨o, memory', heq, -⟩
              cases heq
            · rintro ⟨w₁, e₁, heq, -⟩
              cases heq

/-! ## Runs -/

variable {m m' m₀ : LinkedMachine}

/-- The code ends by itself, or goes on after an error of the host, in neither a
value nor an error of the application. -/
def Traps (code : Code) : Prop := ∃ r, code = .done r ∧ Unanswered r

/-- What makes the imported function that is over in the next step fail: a call that
is not fine, or a callee that traps. -/
def Offends (rt : Runtime) (m : LinkedMachine) : Prop :=
  match m.code with
  | .call memory c _ => ¬ Fine rt memory m.state m.world c
  | .done r => m.frames ≠ [] ∧ Unanswered r

/-- The code that goes on if the next imported function succeeds, or is entered. -/
def next? (rt : Runtime) (m : LinkedMachine) : Option Code :=
  match m.code with
  | .call memory c next =>
      match call rt memory c m.state m.world with
      | .returned o memory => o.result.toOption.map fun reply => next reply memory
      | .entered _ _ code _ => some code
  | .done r =>
      match m.frames with
      | [] => none
      | f :: _ =>
          (finishNested rt.vm f.call f.state m.world.leave
            (r.map fun _ => m.state.output)).result.toOption.map fun reply => f.next reply f.memory

/-- A call that is not fine, or code that traps after the step. -/
inductive Fault (rt : Runtime) (m : LinkedMachine) : Prop
  | call {memory : Memory} {c : Import} {next : Reply → Memory → Code}
      (hcode : m.code = .call memory c next) (hfine : ¬ Fine rt memory m.state m.world c)
  | trap {code : Code} (hnext : m.next? rt = some code) (htraps : Traps code)

theorem unanswered_back {f : Caller} {frames : List Caller} {r : VMResult Unit} (h : WF rt m)
    (hframes : m.frames = f :: frames) :
    Unanswered (finishNested rt.vm f.call f.state m.world.leave
      (r.map fun _ => m.state.output)).result ↔ Unanswered r := by
  have hnested : m.world.leave.nested ≠ [] := by
    have hcallers : m.world.callers.length = m.frames.length := by
      rw [← List.length_map (f := Caller.frame)]
      exact h.machine.depth
    rw [hframes] at hcallers
    unfold CallStack.leave
    cases hc : m.world.callers with
    | nil =>
        rw [hc] at hcallers
        cases hcallers
    | cons caller callers => exact List.cons_ne_nil _ _
  rw [← @unanswered_map _ _ r fun _ => m.state.output]
  constructor
  · rintro ⟨e, hresult, he⟩
    exact ⟨e, (Machine.finishNested_isSystem he hnested).1 hresult, he⟩
  · rintro ⟨e, hresult, he⟩
    exact ⟨e, (Machine.finishNested_isSystem he hnested).2 hresult, he⟩

/-- The imported function that is over in the next step returns neither a value nor
an error of the application exactly if the state offends. -/
theorem unanswered_returned (h : WF rt m) :
    (∃ r, m.returned? rt = some r ∧ Unanswered r) ↔ m.Offends rt := by
  unfold returned? Offends
  cases hcode : m.code with
  | call memory c next =>
      simp only
      rw [← unanswered_call]
      generalize call rt memory c m.state m.world = progress
      cases progress with
      | returned o memory' => simp
      | entered n w code state => simp
  | done r =>
      cases hframes : m.frames with
      | nil => simp
      | cons f frames =>
          have hback := @unanswered_back _ _ _ _ r h hframes
          simp [hback]

theorem traps_resume {o : Outcome} {memory : Memory} {next : Reply → Memory → Code}
    {frames : List Caller} (h : Traps (resume o memory next frames).code) :
    (∃ code, o.result.toOption.map (fun reply => next reply memory) = some code ∧ Traps code) ∨
      Unanswered o.result := by
  unfold resume at h
  cases hresult : o.result with
  | ok reply =>
      rw [hresult] at h
      exact Or.inl ⟨_, rfl, h⟩
  | error e =>
      rw [hresult] at h
      obtain ⟨r, hdone, hunanswered⟩ := h
      cases hdone
      exact Or.inr (unanswered_error.2 (unanswered_error.1 hunanswered))

/-- A step without a fault does not lead to a trap. -/
theorem Step.not_traps (hstep : Step rt m m') (h : WF rt m) (htraps : ¬ Traps m.code)
    (hfault : ¬ Fault rt m) : ¬ Traps m'.code := by
  intro htraps'
  rw [Step, step] at hstep
  cases hcode : m.code with
  | call memory c next =>
      have hnext : m.next? rt = match call rt memory c m.state m.world with
          | .returned o memory => o.result.toOption.map fun reply => next reply memory
          | .entered _ _ code _ => some code := by
        rw [next?, hcode]
      rw [hcode] at hstep
      simp only at hstep
      cases hcall : call rt memory c m.state m.world with
      | returned o memory' =>
          rw [hcall] at hstep hnext
          cases hstep
          rcases traps_resume htraps' with ⟨code, hsome, htraps'⟩ | hunanswered
          · exact hfault (.trap (hnext.trans hsome) htraps')
          · exact hfault (.call hcode (unanswered_call.1 ⟨o, memory', hcall, hunanswered⟩))
      | entered n w code state =>
          rw [hcall] at hstep hnext
          cases hstep
          exact hfault (.trap hnext htraps')
  | done r =>
      rw [hcode] at hstep
      cases hframes : m.frames with
      | nil =>
          rw [hframes] at hstep
          cases hstep
      | cons f frames =>
          rw [hframes] at hstep
          cases hstep
          rcases traps_resume htraps' with ⟨code, hsome, htraps'⟩ | hunanswered
          · have hnext : m.next? rt = some code := by
              rw [next?, hcode, hframes]
              exact hsome
            exact hfault (.trap hnext htraps')
          · exact htraps ⟨r, hcode, (unanswered_back h hframes).1 hunanswered⟩

theorem Steps.not_traps (hsteps : Steps rt m₀ m) (h : WF rt m₀) (htraps : ¬ Traps m₀.code)
    (hfault : ∀ m, Steps rt m₀ m → ¬ Fault rt m) : ¬ Traps m.code := by
  induction hsteps with
  | refl => exact htraps
  | tail hsteps hstep ih => exact hstep.not_traps (h.steps hsteps) ih (hfault _ hsteps)

/-- In every state of a run the imported function that is over returns a value or an
error of the application if and only if the state does not offend. In a run without
faults all of them do. -/
theorem imports_answer_iff (rt : Runtime) (context : Context)
    (senderAddress contractAddress : Address) (code : Bytes) (func method : String)
    (params : Bytes) (payValue : Balance) :
    (∀ m, Steps rt (start rt context senderAddress contractAddress code func method params payValue)
          m →
        ((∀ r, m.returned? rt = some r →
          (∃ reply, r = .ok reply) ∨ ∃ e, r = .error (.application e)) ↔ ¬ m.Offends rt)) ∧
      (¬ Traps (rt.run code func) →
        (∀ m, Steps rt (start rt context senderAddress contractAddress code func method params
          payValue) m → ¬ Fault rt m) →
        ∀ m, Steps rt (start rt context senderAddress contractAddress code func method params
            payValue) m →
          ∀ r, m.returned? rt = some r →
            (∃ reply, r = .ok reply) ∨ ∃ e, r = .error (.application e)) := by
  have hwf := wf_start rt context senderAddress contractAddress code func method params payValue
  have hanswers (m : LinkedMachine) (h : WF rt m) :
      (∀ r, m.returned? rt = some r →
        (∃ reply, r = .ok reply) ∨ ∃ e, r = .error (.application e)) ↔ ¬ m.Offends rt := by
    rw [← unanswered_returned h]
    simp only [← not_unanswered_iff]
    simp
  constructor
  · intro m hsteps
    exact hanswers m (hwf.steps hsteps)
  · intro htraps hfault m hsteps
    refine (hanswers m (hwf.steps hsteps)).2 fun hoffends => ?_
    unfold Offends at hoffends
    split at hoffends
    · next memory c next hcode => exact hfault m hsteps (.call hcode hoffends)
    · next r hcode =>
      exact hsteps.not_traps hwf htraps hfault ⟨r, hcode, hoffends.2⟩

/-- The code goes on where an imported function has returned an answer. -/
theorem next_of_returned {memory : Memory} {c : Import} {next : Reply → Memory → Code}
    {reply : Reply} (hcode : m.code = .call memory c next)
    (hreturned : m.returned? rt = some (.ok reply)) :
    ∃ memory', m.next? rt = some (next reply memory') ∧
      ∀ m', Step rt m m' → m'.code = next reply memory' ∧ m'.frames = m.frames := by
  rw [returned?, hcode] at hreturned
  simp only at hreturned
  simp only [next?, Step, step, hcode]
  cases hcall : call rt memory c m.state m.world with
  | entered n w code state =>
      rw [hcall] at hreturned
      cases hreturned
  | returned o memory' =>
      rw [hcall] at hreturned
      have hresult : o.result = .ok reply := Option.some.inj hreturned
      refine ⟨memory', by simp only [hresult]; rfl, fun m' hstep => ?_⟩
      cases hstep
      simp only [resume, hresult, and_self]

theorem Fault.offends_or_traps (h : Fault rt m) :
    m.Offends rt ∨ ∃ code, m.next? rt = some code ∧ Traps code := by
  cases h with
  | call hcode hfine =>
      left
      rw [Offends, hcode]
      exact hfine
  | trap hnext htraps => exact Or.inr ⟨_, hnext, htraps⟩

/-- A contract that is over when its one call is answered runs without faults. -/
theorem not_fault_of_returned {memory : Memory} {c : Import} {reply : Reply} (h : WF rt m₀)
    (hcode : m₀.code = .call memory c fun _ _ => .done (.ok ())) (hframes : m₀.frames = [])
    (hreturned : m₀.returned? rt = some (.ok reply)) (hsteps : Steps rt m₀ m) : ¬ Fault rt m := by
  have hdone : ¬ Traps (.done (.ok ())) := by
    rintro ⟨r, heq, hunanswered⟩
    cases heq
    exact not_unanswered_ok _ hunanswered
  obtain ⟨memory', hnext, hstep⟩ := next_of_returned hcode hreturned
  intro hfault
  rcases hsteps.cases_head with rfl | ⟨m₁, hstep₁, hrest⟩
  · rcases hfault.offends_or_traps with hoffends | ⟨code, hsome, htraps⟩
    · obtain ⟨r, hr, hunanswered⟩ := (unanswered_returned h).2 hoffends
      cases hreturned.symm.trans hr
      exact not_unanswered_ok _ hunanswered
    · cases hnext.symm.trans hsome
      exact hdone htraps
  · obtain ⟨hcode₁, hframes₁⟩ := hstep m₁ hstep₁
    rw [hframes] at hframes₁
    rcases hrest.cases_head with rfl | ⟨m₂, hstep₂, -⟩
    · rcases hfault.offends_or_traps with hoffends | ⟨code, hsome, htraps⟩
      · rw [Offends, hcode₁] at hoffends
        exact hoffends.1 hframes₁
      · rw [next?, hcode₁, hframes₁] at hsome
        cases hsome
    · rw [Step, step, hcode₁, hframes₁] at hstep₂
      cases hstep₂

end LinkedMachine

namespace Sample

/-- All bytes are `255`, which is no text. -/
def memory : Memory where
  pages := 1024
  bound := by decide
  cell _ := 255

/-- A contract that calls one imported function. -/
def calling (maxNestDepth : Nat) (c : Import) : Runtime where
  config := { VMConfig.default with maxNestDepth }
  util := util
  run _ _ := .call memory c fun _ _ => .done (.ok ())

def started (rt : Runtime) : LinkedMachine :=
  LinkedMachine.start rt (context []) (account 9) (account 1) [] Mode.call.executeFunc "call" [] 0

/-- The call of a contract that does not exist, by the name of the first bytes. -/
def unknown (methodLen : UInt64) : Import := .contractExecuteEa 0 0 methodLen 0 0 0 0 0 1

theorem imports_answer_unknown :
    (started (calling 8 (unknown 0))).returned? (calling 8 (unknown 0)) = some (.ok (.value 1)) ∧
      ∀ m, LinkedMachine.Steps (calling 8 (unknown 0)) (started (calling 8 (unknown 0))) m →
        ∀ r, m.returned? (calling 8 (unknown 0)) = some r →
          (∃ reply, r = .ok reply) ∨ ∃ e, r = .error (.application e) := by
  have hreturned : (started (calling 8 (unknown 0))).returned? (calling 8 (unknown 0)) =
      some (.ok (.value 1)) := by decide +kernel
  have hwf := LinkedMachine.wf_start (calling 8 (unknown 0)) (context []) (account 9) (account 1)
    [] Mode.call.executeFunc "call" [] 0
  have hfault : ∀ m,
      LinkedMachine.Steps (calling 8 (unknown 0)) (started (calling 8 (unknown 0))) m →
        ¬ LinkedMachine.Fault (calling 8 (unknown 0)) m := fun m hsteps =>
    LinkedMachine.not_fault_of_returned hwf rfl rfl hreturned hsteps
  exact ⟨hreturned, (LinkedMachine.imports_answer_iff _ _ _ _ _ _ _ _ _).2 nofun hfault⟩

/-- A pointer outside the memory, a name that is no text, and a contract that is
nested too deep. -/
theorem imports_not_answer :
    ((started (calling 8 (.shareWrite 1 (2 ^ 64 - 1) 0))).returned?
        (calling 8 (.shareWrite 1 (2 ^ 64 - 1) 0)) = some (.error .panic) ∧
      (started (calling 8 (unknown 1))).returned? (calling 8 (unknown 1)) =
        some (.error .panic)) ∧
      (started (calling 1 (unknown 0))).returned? (calling 1 (unknown 0)) =
        some (.error .panic) := by
  refine ⟨⟨?_, ?_⟩, ?_⟩
  · decide +kernel
  · decide +kernel
  · decide +kernel

end Sample

end Finastate.Contract
