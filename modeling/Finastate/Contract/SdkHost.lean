import Finastate.Contract.Effects
import Finastate.Contract.Sdk

/-!
# What the functions of the library do on the host

`hostEnv` is the host as the environment of a contract. A function `Reads` if it
leaves the contexts as they are, with what is known of the value it returns; the
others write an entry of the storage or emit an event. The exported functions
do to the contexts what the called method does.
-/

namespace Finastate.Contract.Sdk

open Executor Vm Dialogue

/-- The imported functions, as the host has them. `callee` says which contracts
may be called, and what that does. -/
def hostEnv (vm : VM) (callee : Env NestedCall Reply (State × CallStack)) :
    Env (HostCall ⊕ NestedCall) Reply (State × CallStack) where
  may c σ :=
    match c with
    | .inl _ => True
    | .inr c => callee.may c σ
  answers c σ reply σ' :=
    match c with
    | .inl c =>
        hostCall vm c σ.1 σ.2 = { state := σ'.1, world := σ'.2, result := .ok reply }
    | .inr c => callee.answers c σ reply σ'

variable {vm : VM} {callee : Env NestedCall Reply (State × CallStack)} {w : CallStack} {s : State}
  {α β : Type}

theorem ends_host {c : HostCall} {next : Reply → Dialogue (HostCall ⊕ NestedCall) Reply VMError α}
    {Q : α → State × CallStack → Prop} {o : Outcome} (ho : hostCall vm c s w = o) :
    Ends (hostEnv vm callee) (.ask (.inl c) next) (s, w) Q ↔
      ∀ reply, o.result = .ok reply →
        (next reply).Ends (hostEnv vm callee) (o.state, o.world) Q := by
  subst ho
  constructor
  · intro h reply hreply
    refine h.2 reply (_, _) ?_
    change hostCall vm c s w = _
    rw [← hreply]
  · intro h
    refine ⟨trivial, fun reply σ' hanswers => ?_⟩
    have heq : hostCall vm c s w =
      { state := σ'.1, world := σ'.2, result := .ok reply } := hanswers
    have hnext := h reply (by rw [heq])
    rw [heq] at hnext
    exact hnext

theorem ends_imported {c : HostCall} {f : Reply → α} {Q : α → State × CallStack → Prop}
    {o : Outcome} (ho : hostCall vm c s w = o) :
    Ends (hostEnv vm callee) (.ask (.inl c) fun reply => .ret (f reply) : Program α) (s, w) Q ↔
      ∀ reply, o.result = .ok reply → Q (f reply) (o.state, o.world) :=
  ends_host ho

/-! ## Functions that read -/

variable (vm callee w) in
/-- Whatever has been shared, the function leaves the contexts, and what it
returns has the property. -/
def Reads (d : ContractResult α) (P : α → Prop) : Prop :=
  ∀ s, Returns (hostEnv vm callee) d (s, w) fun a σ => σ.2 = w ∧ P a

theorem reads_pure {a : α} {P : α → Prop} (h : P a) : Reads vm callee w (pure a) P :=
  fun _ => returns_pure.2 ⟨rfl, h⟩

theorem Reads.returns_bind {d : ContractResult α} {f : α → ContractResult β} {P : α → Prop}
    {Q : β → State × CallStack → Prop} (h : Reads vm callee w d P)
    (hf : ∀ a, P a → ∀ s, Returns (hostEnv vm callee) (f a) (s, w) Q) :
    Returns (hostEnv vm callee) (d >>= f) (s, w) Q := by
  rw [Dialogue.returns_bind]
  refine (h s).mono ?_
  rintro a ⟨s', w'⟩ ⟨rfl, ha⟩
  exact hf a ha s'

theorem Reads.bind {d : ContractResult α} {f : α → ContractResult β} {P : α → Prop}
    {P' : β → Prop} (h : Reads vm callee w d P)
    (hf : ∀ a, P a → Reads vm callee w (f a) P') : Reads vm callee w (d >>= f) P' :=
  fun _ => h.returns_bind fun a ha s => hf a ha s

theorem Reads.mono {d : ContractResult α} {P P' : α → Prop} (h : Reads vm callee w d P)
    (hP : ∀ a, P a → P' a) : Reads vm callee w d P' :=
  fun s => (h s).mono fun a _ ha => ⟨ha.1, hP a ha.2⟩

theorem reads_okOr {e : ContractError} {o : Option α} :
    Reads vm callee w (okOr e o) fun a => o = some a := by
  cases o with
  | none => exact fun _ => returns_throw
  | some a => exact reads_pure rfl

theorem reads_failIf {p : Prop} [Decidable p] {e : ContractError} :
    Reads vm callee w (failIf p e) fun _ => ¬ p := by
  by_cases hp : p
  · rw [failIf, if_pos hp]
    exact fun _ => returns_throw
  · rw [failIf, if_neg hp]
    exact reads_pure hp

theorem Reads.returns_of {d : ContractResult α} {P : α → Prop} {Q : CallStack → Prop}
    (h : Reads vm callee w d P) (hQ : Q w) :
    Returns (hostEnv vm callee) d (s, w) fun _ σ => Q σ.2 :=
  (h s).mono fun _ _ hσ => hσ.1 ▸ hQ

/-- An imported function that leaves the contexts. -/
theorem reads_imported {c : HostCall} {f : Reply → α} {P : α → Prop}
    (h : ∀ s reply, (hostCall vm c s w).result = .ok reply →
      (hostCall vm c s w).world = w ∧ P (f reply)) :
    Reads vm callee w (liftM (.ask (.inl c) fun reply => .ret (f reply) : Program α)) P :=
  fun s => returns_lift.2 ((ends_imported rfl).2 fun reply hreply => h s reply hreply)

/-- A number that the host answers with at once. -/
theorem reads_value {c : HostCall} {n : Nat}
    (h : ∀ s, hostCall vm c s w = { state := s, world := w, result := .ok (.value n) }) :
    Reads vm callee w (liftM (value c)) fun m => m = n := by
  refine reads_imported fun s reply hreply => ?_
  rw [h] at hreply ⊢
  cases hreply
  exact ⟨rfl, rfl⟩

/-! ### Shares -/

theorem ends_shareToVec {shareId : Nat} : Ends (hostEnv vm callee) (shareToVec shareId) (s, w)
    fun found σ => σ = (s, w) ∧
      ∀ bytes, found = some bytes → AssocMap.get? s.shares shareId = some bytes := by
  have hlen : hostCall vm (.shareLen shareId) s w =
    { state := s, world := w, result := .ok (.value (s.shareToLen shareId)) } := rfl
  have hread : hostCall vm (.shareRead shareId) s w =
    { state := s, world := w, result := (s.shareToVec shareId).map .data } := rfl
  rw [shareToVec]
  refine ends_bind.2 ((ends_imported hlen).2 ?_)
  rintro reply ⟨⟩
  by_cases hn : s.shareToLen shareId = 2 ^ 64 - 1
  · rw [number, if_pos hn]
    exact ⟨rfl, nofun⟩
  · rw [number, if_neg hn]
    refine ends_bind.2 ((ends_imported hread).2 fun reply hreply => ?_)
    rw [State.shareToVec] at hreply
    cases hget : AssocMap.get? s.shares shareId with
    | none =>
        rw [hget] at hreply
        cases hreply
    | some bytes =>
        rw [hget] at hreply
        cases hreply
        exact ⟨rfl, fun _ h => h⟩

theorem vecToShare_eq_ok {config : VMConfig} {shareId : Nat} {data : Bytes} {s' : State}
    (h : s.vecToShare config shareId data = (s', .ok ())) :
    AssocMap.get? s'.shares shareId = some data := by
  rw [State.vecToShare] at h
  split at h
  · cases h
  · simp only at h
    split at h
    · cases h
    · cases h
      simp

/-- What has just been shared is read. -/
theorem returns_sharedVec {config : VMConfig} {shareId : Nat} {data : Bytes} {s' : State}
    (h : s.vecToShare config shareId data = (s', .ok ())) :
    Returns (hostEnv vm callee) (sharedVec shareId) (s', w) fun found σ =>
      σ.2 = w ∧ found = data := by
  rw [sharedVec, Dialogue.returns_bind, returns_lift]
  refine ends_shareToVec.mono ?_
  rintro found σ ⟨rfl, hfound⟩
  refine (reads_okOr s').mono fun bytes σ' hbytes => ⟨hbytes.1, ?_⟩
  have hget := hfound bytes hbytes.2
  rw [vecToShare_eq_ok h] at hget
  exact (Option.some.inj hget).symm

theorem reads_optionVecFromFunc {c : Nat → HostCall} {data : Option Bytes}
    (h : ∀ s, hostCall vm (c 0) s w = s.shareOption vm.config w 0 data) :
    Reads vm callee w (optionVecFromFunc fun shareId => value (c shareId)) fun found =>
      found = data := by
  intro s
  rw [optionVecFromFunc, Dialogue.returns_bind, returns_lift]
  cases data with
  | none =>
      have hnone : hostCall vm (c 0) s w =
        { state := s, world := w, result := .ok (.value 0) } := h s
      refine (ends_imported hnone).2 ?_
      rintro reply ⟨⟩
      exact returns_pure.2 ⟨rfl, rfl⟩
  | some data =>
      have hshared := h s
      rw [State.shareOption, State.share] at hshared
      generalize hshare : s.vecToShare vm.config 0 data = r at hshared
      obtain ⟨s', e | u⟩ := r
      · exact (ends_imported hshared).2 nofun
      · refine (ends_imported hshared).2 ?_
        rintro reply ⟨⟩
        have hread : Returns (hostEnv vm callee) (sharedVec 0) (s', w) fun found σ =>
          σ.2 = w ∧ found = data := returns_sharedVec hshare
        refine Dialogue.returns_bind.2 (hread.mono ?_)
        rintro found σ ⟨hworld, rfl⟩
        exact returns_pure.2 ⟨hworld, rfl⟩

/-! ### The context of a contract -/

theorem reads_contextNew : Reads vm callee w Context.new fun context =>
    context = ⟨w.executor.env, w.executor.callEnv, w.top.contractEnv⟩ := by
  rw [Context.new]
  refine (reads_value (n := w.executor.env.number) fun _ => rfl).bind ?_
  rintro number rfl
  refine (reads_value (n := w.executor.env.timestamp) fun _ => rfl).bind ?_
  rintro timestamp rfl
  refine (reads_optionVecFromFunc (c := .envTxHashRead) fun _ => rfl).bind ?_
  rintro txHash rfl
  refine (reads_optionVecFromFunc (c := .envContractAddressRead) fun _ => rfl).bind ?_
  rintro contractAddress rfl
  refine (reads_optionVecFromFunc (c := .envSenderAddressRead) fun _ => rfl).bind ?_
  rintro senderAddress rfl
  refine reads_pure ?_
  have hhash : (w.executor.callEnv.txHash.map Hash.bytes).map Hash.mk =
      w.executor.callEnv.txHash := by
    rw [Option.map_map]
    exact congrFun Option.map_id_fun _
  have haddress (found : Option Address) :
      (found.map Address.bytes).map Address.mk = found := by
    rw [Option.map_map]
    exact congrFun Option.map_id_fun _
  rw [hhash, haddress, haddress]

theorem reads_validateAddress (address : Address) :
    Reads vm callee w (Util.validateAddress address) fun _ =>
      address.bytes.length = vm.util.addressLength := by
  refine reads_imported fun s reply hreply => ⟨rfl, ?_⟩
  by_contra hlength
  rw [hostCall, utilValidateAddress, Executor.Util.validateAddress, if_pos hlength] at hreply
  cases hreply

/-! ## Storage and events -/

section Storage

variable {serde : SerdeJson} {address : Address} {key : Bytes}

/-- What the contract at the address has under a key. -/
def owned (util : Executor.Util) (address : Address) (w : CallStack) (key : Bytes) :
    Option DBValue :=
  w.payloadGet (moduleKey util address key)

theorem reads_storageGet [Deserialize α]
    (haddress : w.top.contractEnv.contractAddress = some address) :
    Reads vm callee w (storageGet serde key : ContractResult (Option α)) fun found =>
      match owned vm.util address w key with
      | some value => (serde.fromSlice value).bind deserialize = some found
      | none => found = none := by
  have hread : Reads vm callee w
      (optionVecFromFunc fun shareId => Sdk.value (.storageRead key shareId)) fun found =>
        found = owned vm.util address w key := by
    refine reads_optionVecFromFunc (c := .storageRead key) fun s => ?_
    simp only [hostCall, CallStack.vmToModuleKey, haddress, owned]
  refine hread.bind ?_
  rintro found rfl
  cases owned vm.util address w key with
  | none => exact reads_pure rfl
  | some value => exact reads_okOr

theorem returns_storageSet [Serialize α] {value : α}
    (haddress : w.top.contractEnv.contractAddress = some address) :
    Returns (hostEnv vm callee) (storageSet serde key value) (s, w) fun _ σ =>
      ∃ text, serde.toVec (serialize value) = some text ∧
        σ.2 = w.payloadSet (moduleKey vm.util address key) (some text) := by
  refine reads_okOr.returns_bind fun text htext s => ?_
  refine returns_lift.2 ((ends_imported (o := {
    state := s, world := w.payloadSet (moduleKey vm.util address key) (some text),
    result := .ok .unit }) ?_).2 ?_)
  · simp only [hostCall, CallStack.vmToModuleKey, haddress]
  · rintro reply ⟨⟩
    exact ⟨text, htext, rfl⟩

theorem returns_emitEvent [Serialize α] {name : String} {data : α} :
    Returns (hostEnv vm callee) (Context.emitEvent serde name data) (s, w) fun _ σ =>
      ∃ event, σ.2 = w.emitEvent event := by
  refine reads_okOr.returns_bind fun event _ s => ?_
  refine returns_lift.2 ((ends_imported rfl).2 ?_)
  rintro reply ⟨⟩
  exact ⟨_, rfl⟩

end Storage

/-! ## Exported functions -/

section Macro

variable {serde : SerdeJson} {C : Type} {Q : CallStack → Prop}

/-- A method that is not payable does what its body does. -/
theorem returns_moduleMethod [Deserialize α] [Serialize β] {methodIdent : String}
    {validate : Option (C → α → ContractResult Unit)} {execute : C → α → ContractResult β}
    {contract : C} {params : Bytes} {payValue : Balance}
    (h : ∀ params, (∃ json, deserialize json = some params) → ∀ s,
      Returns (hostEnv vm callee) (execute contract params) (s, w) fun _ σ => Q σ.2) :
    Returns (hostEnv vm callee)
      ((moduleMethod serde methodIdent false validate execute).execute contract params payValue)
      (s, w) fun _ σ => Q σ.2 := by
  refine reads_failIf.returns_bind fun _ hpay s => ?_
  have hpay : ¬ 0 < payValue := fun h => hpay ⟨h, rfl⟩
  rw [if_neg hpay]
  refine reads_okOr.returns_bind fun params hparams s => ?_
  obtain ⟨json, -, hjson⟩ := Option.bind_eq_some_iff.1 hparams
  refine Dialogue.returns_bind.2 ((h params ⟨json, hjson⟩ s).mono fun result σ hσ => ?_)
  exact (reads_okOr σ.1).mono fun _ σ' hσ' => hσ'.1 ▸ hσ

/-- A method that only reads. -/
theorem returns_readMethod [Deserialize α] [Serialize β] {methodIdent : String}
    {validate : Option (C → α → ContractResult Unit)} {execute : C → α → ContractResult β}
    {contract : C} {params : Bytes} {payValue : Balance}
    (h : ∀ params, Reads vm callee w (execute contract params) fun _ => True) (hQ : Q w) :
    Returns (hostEnv vm callee)
      ((moduleMethod serde methodIdent false validate execute).execute contract params payValue)
      (s, w) fun _ σ => Q σ.2 :=
  returns_moduleMethod fun params _ _ => (h params).returns_of hQ

/-- The first share is filled, its length read and then its bytes. -/
theorem reads_shared {c : HostCall} {f : Bytes → ContractResult α}
    (hc : ∀ s, (hostCall vm c s w).world = w)
    (hf : ∀ bytes, Reads vm callee w (f bytes) fun _ => True) :
    Reads vm callee w (do
      invoke c
      let _ ← value (.shareLen 0)
      f (← data (.shareRead 0))) fun _ => True := by
  refine (reads_imported (P := fun _ => True) fun s _ _ => ⟨hc s, trivial⟩).bind fun _ _ => ?_
  refine (reads_imported (P := fun _ => True) fun _ _ _ => ⟨rfl, trivial⟩).bind fun _ _ => ?_
  refine (reads_imported (P := fun _ => True) fun _ _ _ => ⟨rfl, trivial⟩).bind fun bytes _ => ?_
  exact hf bytes

theorem reads_getMethod : Reads vm callee w getMethod fun _ => True :=
  reads_shared (fun _ => rfl) fun _ => reads_okOr.mono fun _ _ => trivial

theorem reads_getParams : Reads vm callee w getParams fun _ => True :=
  reads_shared (fun _ => rfl) fun _ => reads_pure trivial

theorem reads_getPayValue : Reads vm callee w getPayValue fun _ => True :=
  reads_imported fun _ _ _ => ⟨rfl, trivial⟩

variable {new : ContractResult C} {methods : List (ModuleMethod C)} {P : C → Prop}

/-- What every method does to the contexts, an exported function that succeeds
does. -/
theorem ends_execute (hnew : Reads vm callee w new P)
    (hmethods : ∀ m ∈ methods, ∀ contract, P contract → ∀ params payValue s,
      Returns (hostEnv vm callee) (m.execute contract params payValue) (s, w) fun _ σ => Q σ.2) :
    Ends (hostEnv vm callee) (execute new methods) (s, w) fun _ σ => Q σ.2 := by
  have hinner : Returns (hostEnv vm callee) (innerExecute new methods) (s, w) fun _ σ => Q σ.2 := by
    refine reads_getMethod.returns_bind fun method _ s => ?_
    refine reads_getParams.returns_bind fun params _ s => ?_
    refine reads_getPayValue.returns_bind fun payValue _ s => ?_
    refine hnew.returns_bind fun contract hcontract s => ?_
    refine reads_okOr.returns_bind fun m hm s => ?_
    have hmem : m ∈ methods := List.mem_of_find?_eq_some hm
    refine Dialogue.returns_bind.2 ((hmethods m hmem contract hcontract params payValue s).mono ?_)
    rintro result ⟨s', w'⟩ hQ
    refine returns_lift.2 ((ends_imported rfl).2 ?_)
    rintro reply ⟨⟩
    exact hQ
  refine ends_bind.2 (Ends.mono hinner fun r σ hσ => ?_)
  cases r with
  | ok u => exact hσ u rfl
  | error e =>
      -- The host ends the run.
      refine (ends_imported rfl).2 ?_
      rintro reply ⟨⟩

end Macro

end Finastate.Contract.Sdk
