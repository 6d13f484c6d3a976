import Finastate.Module.Versions

/-!
# The code that runs

The code that is run for a contract is its last one: `execute` looks it up in
the state it is called in, and so does a nested call, at every point of an
execution, since what contracts write while they run is no version. A call adds
at most one code, and what is stored of the earlier ones stays.
-/

namespace Finastate

open Executor
open Vm (VMConfig VMResult Mode)

/-! ## Lookups of a running contract -/

/-- `raw_get`: the value under a key that is encoded already. -/
def Executor.StorageMap.rawGet {C K V : Type} [ContextT C] (s : StorageMap K V) (context : C)
    (key : Bytes) : ModuleResult (Option V) :=
  contextGet s.decode context (s.moduleKey ++ SEPARATOR ++ s.storageKey ++ SEPARATOR ++ key)

namespace Contract.CallStack

variable (w : CallStack)

/-- `inner_get_version` of `DefaultVMContext`, which reads from the executor and
not from the buffers. -/
def innerGetVersion (contractAddress : Address) : Option Nat → VMResult (Option Nat)
  | some v => .ok (some v)
  | none => (version.get w.executor contractAddress).mapError moduleToVmError

def innerGetCodeHash (contractAddress : Address) (v : Option Nat) : VMResult (Option Hash) :=
  (w.innerGetVersion contractAddress v).bind fun v =>
    match v with
    | none => .ok none
    | some v =>
        (codeHash.rawGet w.executor (encodeVersioned (contractAddress, v))).mapError moduleToVmError

def innerGetCode (contractAddress : Address) (v : Option Nat) : VMResult (Option Bytes) :=
  (w.innerGetVersion contractAddress v).bind fun v =>
    match v with
    | none => .ok none
    | some v =>
        (code.rawGet w.executor (encodeVersioned (contractAddress, v))).mapError moduleToVmError

/-- A running contract finds what the module finds. -/
theorem innerGetCodeHash_eq (contractAddress : Address) (v : Option Nat) :
    w.innerGetCodeHash contractAddress v =
      (Contract.innerGetCodeHash w.executor contractAddress v).mapError moduleToVmError := by
  cases v with
  | some v => rfl
  | none =>
      rw [innerGetCodeHash, innerGetVersion, Contract.innerGetCodeHash, Contract.innerGetVersion]
      cases version.get w.executor contractAddress with
      | error e => rfl
      | ok found =>
          cases found with
          | none => rfl
          | some v => rfl

theorem innerGetCode_eq (contractAddress : Address) (v : Option Nat) :
    w.innerGetCode contractAddress v =
      (Contract.innerGetCode w.executor contractAddress v).mapError moduleToVmError := by
  cases v with
  | some v => rfl
  | none =>
      rw [innerGetCode, innerGetVersion, Contract.innerGetCode, Contract.innerGetVersion]
      cases version.get w.executor contractAddress with
      | error e => rfl
      | ok found =>
          cases found with
          | none => rfl
          | some v => rfl

end Contract.CallStack

namespace Governance

open Contract (Admin Library Machine)

/-! ## Calls add versions -/

/-- The codes that are added for one contract. -/
def addedTo (a : Address) : Option (Address × Bytes) → List Bytes
  | some (a', code) => if a' = a then [code] else []
  | none => []

theorem Codes.add_eq (codes : Codes) (passed : Option (Address × Bytes)) (a : Address) :
    codes.add passed a = codes a ++ addedTo a passed := by
  cases passed with
  | none => exact (List.append_nil _).symm
  | some x =>
      obtain ⟨a', code⟩ := x
      by_cases heq : a' = a
      · subst heq
        rw [add, Function.update_self, addedTo, if_pos rfl]
      · rw [add, Function.update_of_ne (Ne.symm heq), addedTo, if_neg heq, List.append_nil]

theorem length_addedTo (passed : Option (Address × Bytes)) (a : Address) :
    (addedTo a passed).length = if passed.map Prod.fst = some a then 1 else 0 := by
  cases passed with
  | none => rfl
  | some x =>
      by_cases heq : x.1 = a
      · rw [addedTo, if_pos heq, Option.map_some, if_pos (congrArg some heq),
          List.length_singleton]
      · rw [addedTo, if_neg heq, Option.map_some, if_neg fun h => heq (Option.some.inj h),
          List.length_nil]

/-- What happens to the contracts that are there: the version goes up by one
where a code has passed, and what is stored of the versions so far stays. -/
def Grows (passed : Option (Address × Bytes)) (c c' : Context) : Prop :=
  ∀ a v, Contract.version.get c a = .ok (some v) →
    1 ≤ v ∧
    Contract.version.get c' a =
      .ok (some (v + if passed.map Prod.fst = some a then 1 else 0)) ∧
    ∀ k, 1 ≤ k → k ≤ v → Contract.code.get c' (a, k) = Contract.code.get c (a, k) ∧
      Contract.codeHash.get c' (a, k) = Contract.codeHash.get c (a, k)

namespace Agrees

variable {lib : Library} {codes codes' : Codes} {c c' : Context} {sender : Option Address}

/-- A contract that is there keeps its codes, and gets those that pass. -/
theorem addCodes_eq (h : Agrees lib.util codes c) {call : Invocation}
    (hfresh : call.Fresh lib c) {a : Address} (hne : codes a ≠ []) :
    call.addCodes lib c sender codes a = codes a ++ addedTo a (call.passes c sender) := by
  cases call with
  | create params =>
      have hadded : addedTo a (Invocation.passes c sender (.create params)) = [] := rfl
      rw [hadded, List.append_nil]
      cases htxHash : c.callEnv.txHash with
      | none => simp only [Invocation.addCodes, htxHash]
      | some txHash =>
          have hother : a ≠ lib.contractAddress txHash := by
            rintro rfl
            exact hne ((h.holds _).eq_nil_iff.2 (hfresh txHash htxHash))
          simp only [Invocation.addCodes, htxHash]
          exact Function.update_of_ne hother _ _
  | hotstuffInit params => exact codes.add_eq (Invocation.passes c sender (.hotstuffInit params)) a
  | raftInit params => exact codes.add_eq (Invocation.passes c sender (.raftInit params)) a
  | poaInit params => exact codes.add_eq (Invocation.passes c sender (.poaInit params)) a
  | contractInit params => exact codes.add_eq (Invocation.passes c sender (.contractInit params)) a
  | execute params => exact codes.add_eq (Invocation.passes c sender (.execute params)) a
  | propose o value => exact codes.add_eq (Invocation.passes c sender (.propose o value)) a
  | vote o id => exact codes.add_eq (Invocation.passes c sender (.vote o id)) a

theorem grows (h : Agrees lib.util codes c) (h' : Agrees lib.util codes' c')
    {passed : Option (Address × Bytes)}
    (hcodes : ∀ a, codes a ≠ [] → codes' a = codes a ++ addedTo a passed) :
    Grows passed c c' := by
  intro a v hv
  have hne : codes a ≠ [] := by
    intro hnil
    rw [(h.holds a).eq_nil_iff.1 hnil] at hv
    cases hv
  obtain rfl : (codes a).length = v := by
    rw [(h.holds a).version_of_ne_nil hne] at hv
    cases hv
    rfl
  have hcodes' := hcodes a hne
  have hne' : codes' a ≠ [] := by
    rw [hcodes']
    exact List.append_ne_nil_of_left_ne_nil hne _
  refine ⟨List.length_pos_of_ne_nil hne, ?_, fun k hpos hle => ?_⟩
  · rw [(h'.holds a).version_of_ne_nil hne', hcodes', List.length_append, length_addedTo]
  · obtain ⟨n, rfl⟩ := Nat.exists_eq_add_of_le' hpos
    have hget : (codes a)[n]? = some (codes a)[n] := List.getElem?_eq_getElem (by omega)
    have hget' : (codes' a)[n]? = some (codes a)[n] := by
      rw [hcodes', List.getElem?_append_left (by omega), hget]
    obtain ⟨hcode, hhash⟩ := (h.holds a).stored n _ hget
    obtain ⟨hcode', hhash'⟩ := (h'.holds a).stored n _ hget'
    exact ⟨hcode'.trans hcode.symm, hhash'.trans hhash.symm⟩

/-! ## Calls run the last code -/

/-- `execute` runs the last code. -/
theorem execute_eq (h : Agrees lib.util codes c) {params : Library.ExecuteParams} {code : Bytes}
    (hcode : (codes params.contractAddress).getLast? = some code) (x : Address) :
    lib.execute c (some x) params = lib.innerVmExecute c x params.contractAddress code .call
      params.method params.params params.payValue := by
  have hholds := h.holds params.contractAddress
  have hget := hholds.innerGetCode_eq
  have hhash := hholds.innerGetCodeHash_eq
  rw [hcode] at hget hhash
  rw [Library.execute]
  simp only [hget, hhash, Option.map_some]
  cases hconfig : Contract.innerGetVmConfig c with
  | error e => rw [Library.innerVmExecute, hconfig]
  | ok config => rfl

/-- The contracts have their codes wherever a run of a contract goes. -/
theorem steps (h : Agrees lib.util codes c) {config : VMConfig} {x address : Address}
    {code : Bytes} {mode : Mode} {method : String} {params : Bytes} {payValue : Balance}
    {m : Machine}
    (hsteps : Machine.Steps (lib.vm config)
      (lib.start config c x address code mode method params payValue) m) :
    Agrees lib.util codes m.world.executor := by
  have hwf := lib.wf_start config c x address code mode method params payValue
  have hstart := lib.bounded_start config c x address code mode method params payValue
  exact h.touched_vmKeys (Machine.Steps.bounded hsteps hwf hstart).executor

end Agrees

/-- At this point of an execution the lookups find the last code of every
contract, and a nested call runs it. -/
structure RunsLast (lib : Library) (config : VMConfig) (codes : Codes) (m : Machine) : Prop where
  code : ∀ a, m.world.innerGetCode a none = .ok (codes a).getLast?
  codeHash : ∀ a, m.world.innerGetCodeHash a none = .ok ((codes a).getLast?.map lib.util.hash)
  nested : ∀ (c : Vm.NestedCall) (next : Vm.Reply → Vm.Process) (m' : Machine),
    m.process = .execute c next → m.step (lib.vm config) = some m' →
    m'.frames.length = m.frames.length + 1 →
    ∃ code, (codes c.contractAddress).getLast? = some code ∧
      m'.process = lib.run config code Mode.call.executeFunc

theorem runsLast_of_agrees {lib : Library} {config : VMConfig} {codes : Codes} {m : Machine}
    (hwf : Machine.WF (lib.vm config) m) (h : Agrees lib.util codes m.world.executor) :
    RunsLast lib config codes m := by
  refine ⟨fun a => ?_, fun a => ?_, ?_⟩
  · rw [Contract.CallStack.innerGetCode_eq, (h.holds a).innerGetCode_eq]
    rfl
  · rw [Contract.CallStack.innerGetCodeHash_eq, (h.holds a).innerGetCodeHash_eq]
    rfl
  intro c next m' hprocess hstep hlength
  cases Machine.Step.walk hstep hwf.idle with
  | host hprocess' => cases hprocess.symm.trans hprocess'
  | enter hprocess' hentered hframes =>
      cases hprocess.symm.trans hprocess'
      obtain ⟨code, hcode, hrun⟩ := hentered.code
      rw [(h.holds c.contractAddress).innerGetCode_eq] at hcode
      exact ⟨code, Except.ok.inj hcode, hrun⟩
  | refuse hprocess' hworld hfinished hstate hframes =>
      rw [hframes] at hlength
      omega
  | back hprocess' => cases hprocess.symm.trans hprocess'

/-- The machine that a call starts, if it gets to running a contract. -/
def Invocation.start? (lib : Library) (c : Context) (sender : Option Address) :
    Invocation → Option (VMConfig × Machine)
  | create params => do
      let sender ← sender
      let txHash ← c.callEnv.txHash
      let address := lib.contractAddress txHash
      let context := lib.store c sender address params.code
      let config ← (Contract.innerGetVmConfig context).toOption
      return (config, lib.start config context sender address params.code .init params.initMethod
        params.initParams params.initPayValue)
  | execute params => do
      let sender ← sender
      let _ ← (Contract.innerGetCodeHash c params.contractAddress none).toOption.join
      let config ← (Contract.innerGetVmConfig c).toOption
      let code ← (Contract.innerGetCode c params.contractAddress none).toOption.join
      return (config, lib.start config c sender params.contractAddress code .call params.method
        params.params params.payValue)
  | _ => none

/-- What a call starts, the new contract of the call included. -/
theorem Agrees.runsLast {lib : Library} {codes : Codes} {c : Context} {sender : Option Address}
    (hlength : ∀ data, (lib.util.address data).bytes.length = lib.util.addressLength)
    (hhash : ∀ data, Codec.ValidBytes (lib.util.hash data).bytes) (h : Agrees lib.util codes c)
    {call : Invocation} (hencodable : call.Encodable) {config : VMConfig} {m m' : Machine}
    (hstart : call.start? lib c sender = some (config, m))
    (hsteps : Machine.Steps (lib.vm config) m m') :
    RunsLast lib config (call.addCodes lib c sender codes) m' := by
  cases call with
  | create params =>
      obtain ⟨x, rfl, hstart⟩ := Option.bind_eq_some_iff.1 hstart
      obtain ⟨txHash, htxHash, hstart⟩ := Option.bind_eq_some_iff.1 hstart
      obtain ⟨config', -, hstart⟩ := Option.bind_eq_some_iff.1 hstart
      cases hstart
      have hwf := lib.wf_start config (lib.store c x (lib.contractAddress txHash) params.code) x
        (lib.contractAddress txHash) params.code .init params.initMethod params.initParams
        params.initPayValue
      have haddress : (lib.contractAddress txHash).bytes.length = lib.util.addressLength :=
        hlength _
      have hstore := h.store haddress hhash x hencodable
      simp only [Invocation.addCodes, htxHash]
      exact runsLast_of_agrees (hwf.steps hsteps) (hstore.steps hsteps)
  | execute params =>
      obtain ⟨x, rfl, hstart⟩ := Option.bind_eq_some_iff.1 hstart
      obtain ⟨hash, -, hstart⟩ := Option.bind_eq_some_iff.1 hstart
      obtain ⟨config', -, hstart⟩ := Option.bind_eq_some_iff.1 hstart
      obtain ⟨code, -, hstart⟩ := Option.bind_eq_some_iff.1 hstart
      cases hstart
      have hwf := lib.wf_start config c x params.contractAddress code .call params.method
        params.params params.payValue
      exact runsLast_of_agrees (hwf.steps hsteps) (h.steps hsteps)
  | _ => cases hstart

/-! ## Runs -/

/-- The contracts of a state have these codes: they are stored as the versions
`1` to the current one, each with its hash, and the last one is what runs. -/
structure Versioned (lib : Library) (codes : Codes) (c : Context) : Prop where
  holds : ∀ a, Holds lib.util c a (codes a)
  executes : ∀ (params : Library.ExecuteParams) (code : Bytes) (x : Address),
    (codes params.contractAddress).getLast? = some code →
    lib.execute c (some x) params = lib.innerVmExecute c x params.contractAddress code .call
      params.method params.params params.payValue
  runs : ∀ (sender : Option Address) (call : Invocation) (config : VMConfig) (m m' : Machine),
    call.Encodable → call.start? lib c sender = some (config, m) →
    Machine.Steps (lib.vm config) m m' →
    RunsLast lib config (call.addCodes lib c sender codes) m'

/-- A call that succeeds adds what passes. -/
def Upgrades (lib : Library) (P : History → Option Address → Invocation → Prop) (h : History) :
    Prop :=
  ∀ sender call c', P h sender call → call.exec lib h.context sender = .ok c' →
    Grows (call.passes h.context sender) h.context c'

/-- Every contract has its versions, as long as no contract takes the address of
another one and no version is the last of its type when a code passes. -/
theorem Course.versions_stored {lib : Library}
    (hlength : ∀ data, (lib.util.address data).bytes.length = lib.util.addressLength)
    (hhash : ∀ data, Codec.ValidBytes (lib.util.hash data).bytes) {h : History} {codes : Codes}
    (hcourse : Course lib (fun h sender call => call.Encodable ∧ call.Fresh lib h.context ∧
      call.Roomy h.context sender) h codes) :
    Versioned lib codes h.context ∧
      Upgrades lib (fun h sender call => call.Encodable ∧ call.Fresh lib h.context ∧
        call.Roomy h.context sender) h := by
  have hagrees := hcourse.agrees hlength hhash fun _ _ _ hcall => ⟨hcall.1, hcall.2.2⟩
  constructor
  · exact ⟨hagrees.holds, fun params code x hcode => hagrees.execute_eq hcode x,
      fun sender call config m m' hencodable => hagrees.runsLast hlength hhash hencodable⟩
  · intro sender call c' hcall hexec
    have hagrees' := hagrees.call hlength hhash hcall.1 hcall.2.2 hexec
    exact hagrees.grows hagrees' fun a => hagrees.addCodes_eq hcall.2.1

/-! A chain with one-byte addresses and short hashes, and a contract whose
creator is its only admin. -/

namespace Sample

def util : Util where
  hash := fun data => ⟨data.take 32⟩
  address := Contract.Sample.util.address
  addressLength := 1

def library : Library := { Contract.Sample.library [] with util }

def limits : Contract.InitParams := ⟨none, none, none, none, none, none⟩

def owner : Address := ⟨[7]⟩

def owned : Address := ⟨[5]⟩

def creation : Library.CreateParams where
  code := [1]
  initMethod := "init"
  initParams := []
  initPayValue := 0

/-- The transaction with hash `5` after genesis. -/
def opened : Context :=
  { Result.get (Contract.init (C := Context) (.new ⟨0, 0⟩ [] []) limits) rfl with
    callEnv := { txHash := some ⟨[5]⟩ } }

def created : Context :=
  Result.get (Invocation.exec library opened (some owner) (.create creation)) (by decide +kernel)

/-- The next code. -/
def upgrade : Invocation := .propose (.contract .code owned) [2]

theorem validBytes : Codec.ValidBytes [2] := by decide

/-- The owner alone decides on the code. -/
structure Owned (c : Context) : Prop where
  admin : Contract.admin.get c owned = .ok (some ⟨1, [(owner, 1)]⟩)
  version : ∃ v, Contract.version.get c owned = .ok (some v)
  next : ∃ next, Contract.updateCodeProposalId.get c owned = .ok next

/-- A proposal of the owner passes at once. -/
theorem Owned.upgrade {c : Context} (h : Owned c) :
    ∃ c', upgrade.exec library c (some owner) = .ok c' ∧ Owned c' := by
  have hs := ContractOffice.sound_code owned util
  have hid : (Contract.codeKind util owned).proposalId.get c =
      Contract.updateCodeProposalId.get c owned := StorageMap.get_entry _ owned c
  obtain ⟨next, hnext⟩ := h.next
  have hadmin : (Contract.codeKind util owned).admin.get c = .ok (some ⟨1, [(owner, 1)]⟩) :=
    (StorageMap.get_entry _ owned c).trans h.admin
  have hverify := (Contract.codeKind util owned).verifySender_eq_ok_iff.2
    ⟨_, hadmin, List.mem_singleton_self owner, rfl, rfl⟩
  have hready := (hs.emit_congr c "Created" ⟨next.getD 1, [2], []⟩).2 h.version
  obtain ⟨c', hc'⟩ := hs.exists_voteAndPass hready ⟨next.getD 1, [2], []⟩ owner 1 [(owner, 1)]
  have hcall : (Contract.codeKind util owned).update (Contract.passCode util owned) c (some owner)
      [2] = .ok c' :=
    Result.bind_eq_ok.2 ⟨_, hverify, Result.bind_eq_ok.2 ⟨next, hid.trans hnext, hc'⟩⟩
  obtain ⟨x, a, next', c₁, -, -, -, -, rfl, hvoted⟩ := Kind.update_eq_ok _ _ hcall
  refine ⟨c', hcall, ?_, ?_, ?_⟩
  · have hkey : (Contract.admin.entry owned).key ∉ ContractOffice.written util owned .code :=
      ContractOffice.reads_notMem_written (show ContractOffice.code ≠ .admin by decide) rfl
    have hsame := (hs.touched_update hcall).get_eq hkey
    exact (StorageMap.get_entry _ owned c').symm.trans (hsame.trans hadmin)
  · have hready' := (hs.emit_congr c "Created" ⟨next'.getD 1, [2], []⟩).2 h.version
    exact (hs.read_voted (p := ⟨next'.getD 1, [2], [x]⟩) validBytes hready' hvoted).2.2
  · have hlt : ∀ n, Codec.U32 (wrapAdd 32 n 1) :=
      fun n => Nat.mod_lt (n + 1) (Nat.two_pow_pos 32)
    refine ⟨some (wrapAdd 32 (next'.getD 1) 1), ?_⟩
    rw [← StorageMap.get_entry]
    cases hvoted with
    | passed hpasses hpass => exact StorageValue.get_set Codec.roundTrip_u32 (hlt _) _
    | recorded hnot => exact StorageValue.get_set Codec.roundTrip_u32 (hlt _) _

theorem fresh_creation : Invocation.Fresh library opened (.create creation) := by
  intro txHash htxHash
  cases htxHash
  decide +kernel

theorem owned_created : Owned created :=
  ⟨by decide +kernel, ⟨1, by decide +kernel⟩, ⟨none, by decide +kernel⟩⟩

/-- The contract with its first code. -/
theorem course_created {P : History → Option Address → Invocation → Prop}
    (hinit : P (.start ⟨0, 0⟩) none (.contractInit limits))
    (hcreate : P ⟨opened, fun _ => []⟩ (some owner) (.create creation)) :
    Course library P ⟨created, fun _ => []⟩ (Function.update (fun _ => []) owned [[1]]) := by
  have hstarted : Course library P ⟨{ opened with callEnv := ⟨none⟩ }, fun _ => []⟩ fun _ => [] :=
    .call (.start ⟨0, 0⟩) hinit rfl
  have hopened : Course library P ⟨opened, fun _ => []⟩ fun _ => [] :=
    hstarted.resume ⟨fun _ => rfl, fun _ _ => rfl⟩
  exact .call hopened hcreate (Result.eq_ok_get _ _)

theorem passes_upgrade {c : Context} (h : Owned c) :
    upgrade.passes c (some owner) = some (owned, [2]) :=
  (Invocation.passes_propose h.admin [2]).trans (if_pos (by decide))

/-- The owner passes the next code. -/
theorem course_upgrade {P : History → Option Address → Invocation → Prop} {h : History}
    {codes : Codes} (hcourse : Course library P h codes) (howned : Owned h.context)
    (hP : P h (some owner) upgrade) :
    ∃ h', Course library P h' (codes.add (some (owned, [2]))) ∧ Owned h'.context := by
  obtain ⟨c', hexec, howned'⟩ := howned.upgrade
  have hcodes : upgrade.addCodes library h.context (some owner) codes =
      codes.add (some (owned, [2])) := congrArg codes.add (passes_upgrade howned)
  have hnext := Course.call hcourse hP hexec
  rw [hcodes] at hnext
  exact ⟨_, hnext, howned'⟩

/-- The owner has passed any number of codes. -/
theorem exists_course (n : Nat) : ∃ h codes,
    Course library (fun h _ call => call.Encodable ∧ call.Fresh library h.context) h codes ∧
      Owned h.context ∧ (codes owned).length = n + 1 := by
  induction n with
  | zero =>
      have hcode : Codec.ValidBytes creation.code := by decide
      refine ⟨_, _, course_created ⟨trivial, trivial⟩ ⟨hcode, fresh_creation⟩, owned_created, ?_⟩
      rw [Function.update_self]
      rfl
  | succ n ih =>
      obtain ⟨h, codes, hcourse, howned, hlength⟩ := ih
      obtain ⟨h', hcourse', howned'⟩ := course_upgrade hcourse howned ⟨validBytes, trivial⟩
      refine ⟨h', _, hcourse', howned', ?_⟩
      rw [Codes.add, Function.update_self, List.length_append, hlength]
      rfl

theorem validBytes_hash (data : Bytes) : Codec.ValidBytes (library.util.hash data).bytes := by
  have hle : (data.take 32).length ≤ 32 := List.length_take_le 32 data
  have hlt : 32 < 2 ^ 32 := by decide
  exact Nat.lt_of_le_of_lt hle hlt

end Sample

/-- After `2 ^ 32 - 1` proposals for one contract its version is `0`. -/
theorem not_versioned_overflow : ¬ ∀ lib : Library,
    (∀ data, (lib.util.address data).bytes.length = lib.util.addressLength) →
    (∀ data, Codec.ValidBytes (lib.util.hash data).bytes) → ∀ (h : History) (codes : Codes),
      Course lib (fun h _ call => call.Encodable ∧ call.Fresh lib h.context) h codes →
        Versioned lib codes h.context ∧
          Upgrades lib (fun h _ call => call.Encodable ∧ call.Fresh lib h.context) h := by
  intro hall
  obtain ⟨h, codes, hcourse, -, hlength⟩ := Sample.exists_course (2 ^ 32 - 1)
  have hholds := (hall _ (fun _ => rfl) Sample.validBytes_hash h codes hcourse).1.holds Sample.owned
  have hne : codes Sample.owned ≠ [] := by
    intro hnil
    rw [hnil] at hlength
    cases hlength
  have hlt := Holds.version_lt (hholds.version_of_ne_nil hne)
  omega

/-- The owner passes a second code. -/
theorem versioned_upgraded : ∃ h codes, codes Sample.owned = [[1], [2]] ∧
    Versioned Sample.library codes h.context ∧
      Upgrades Sample.library (fun h sender call => call.Encodable ∧
        call.Fresh Sample.library h.context ∧ call.Roomy h.context sender) h := by
  have hroomy : ∀ (c : Context) (sender : Option Address) (call : Invocation),
      call.passes c sender = none → call.Roomy c sender := by
    intro c sender call hnone a code hpasses
    rw [hnone] at hpasses
    cases hpasses
  have hcode : Codec.ValidBytes Sample.creation.code := by decide
  have hcreated := Sample.course_created
    (P := fun h sender call => call.Encodable ∧ call.Fresh Sample.library h.context ∧
      call.Roomy h.context sender)
    ⟨trivial, trivial, hroomy _ _ _ rfl⟩ ⟨hcode, Sample.fresh_creation, hroomy _ _ _ rfl⟩
  have hupgrade : Sample.upgrade.Roomy Sample.created (some Sample.owner) := by
    intro a code hpasses
    rw [Sample.passes_upgrade Sample.owned_created] at hpasses
    cases hpasses
    decide +kernel
  obtain ⟨h, hcourse, -⟩ := Sample.course_upgrade hcreated Sample.owned_created
    ⟨Sample.validBytes, trivial, hupgrade⟩
  refine ⟨h, _, ?_, Course.versions_stored (fun _ => rfl) Sample.validBytes_hash hcourse⟩
  rw [Codes.add, Function.update_self, Function.update_self]
  rfl

end Finastate.Governance
