import Finastate.Contract.Token
import Finastate.Contract.Transactional
import Finastate.Module.Frame

/-!
# The token among other contracts

Whatever contracts run and call each other, the data of the token changes by
operations of its ledger only, each made by the signer of a transaction or by a
contract. A run of the token is one of its methods (`Token`). Other contracts
cannot write its data, and a nested call works on a copy of it, which becomes
its caller's or is dropped. So of the copies that the running contracts have, each
comes from the one below by operations of the ledger (`Kept`), but for the copy
of the token itself while it runs.
-/

namespace Finastate.Contract

open Executor Vm

namespace CallStack

variable {vm : VM} {c : HostCall} {s : State} {w w' : CallStack}

/-- What the running contract has of the data. -/
def ownCopy (w : CallStack) : Savepoint.Copy DataKey DBValue Event :=
  Savepoint.copy Subtype.val w.executor.payloadGet w.executor.events w.pending

/-- What its callers and the executor have. -/
def lowerCopies (w : CallStack) : List (Savepoint.Copy DataKey DBValue Event) :=
  Savepoint.copies Subtype.val w.executor.payloadGet w.executor.events
    (w.callers.map fun c => (c.payload, c.events))

theorem copies_eq (w : CallStack) : w.copies = w.ownCopy :: w.lowerCopies := rfl

theorem ownCopy_get (w : CallStack) (key : DataKey) : w.ownCopy.get key = w.payloadGet key.1 :=
  (w.payloadGet_eq_read key.1).symm

theorem lowerCopies_leave {caller : VMContext} {callers : List VMContext}
    (hcallers : w.callers = caller :: callers) :
    w.lowerCopies = w.leave.ownCopy :: w.leave.lowerCopies := by
  obtain ⟨executor, top, callers', nested⟩ := w
  cases hcallers
  rfl

theorem lowerCopies_effect (h : Effect vm c s w w') : w'.lowerCopies = w.lowerCopies := by
  cases h with
  | same => rfl
  | write hcall haddress => rfl
  | event event => rfl
  | @move move hmove hmovable =>
      have hcopies := w.copies_moved move
      rw [copies_eq, copies_eq] at hcopies
      exact (List.cons.inj hcopies).2

/-- A contract writes no data but its own. -/
theorem ownCopy_effect (h : Effect vm c s w w') {key : DataKey}
    (hkey : ∀ address own, w.top.contractEnv.contractAddress = some address →
      moduleKey vm.util address own ≠ key.1) : w'.ownCopy.get key = w.ownCopy.get key := by
  cases h with
  | same => rfl
  | @write address own value hcall haddress =>
      rw [ownCopy_get, ownCopy_get, Machine.payloadGet_payloadSet,
        if_neg (hkey address own haddress).symm]
  | event event => rw [ownCopy_get, ownCopy_get]; rfl
  | @move move hmove hmovable =>
      have hcopies := w.copies_moved move
      rw [copies_eq, copies_eq] at hcopies
      rw [(List.cons.inj hcopies).1, ownCopy_get, ownCopy_get]
      rfl

/-- A nested call starts with what its caller has. -/
theorem ownCopy_entered {address : Address} (hempty : (w.callee address).payload = [])
    (key : DataKey) : (w.entered address).ownCopy.get key = w.ownCopy.get key := by
  rw [ownCopy_get, ownCopy_get, payloadGet, payloadGet]
  change Overlay.read _ ((w.callee address).payload :: _) _ = _
  rw [hempty, Overlay.read_empty_cons]
  rfl

/-- The data of a nested call that succeeds becomes its caller's. -/
theorem ownCopy_applied {caller : VMContext} {callers : List VMContext}
    (hcallers : w.callers = caller :: callers) (key : DataKey) :
    (w.leave.applied w.top w.nested).ownCopy.get key = w.ownCopy.get key := by
  obtain ⟨executor, top, callers', nested⟩ := w
  cases hcallers
  rw [ownCopy_get, ownCopy_get, payloadGet, payloadGet]
  exact Overlay.read_extend_cons _ _

end CallStack

/-- A nested call that does not begin leaves the data. -/
theorem Finished.copies_error {e : VMError} {w w' : CallStack} (h : Finished (.error e) w w') :
    w'.copies = w.copies := by
  cases h with
  | same => rfl
  | apply hok hnested => cases hok
  | drain hnested => rfl

theorem Finished.lowerCopies_eq {result : VMResult Bytes} {w w' : CallStack}
    (h : Finished result w w') : w'.lowerCopies = w.lowerCopies := by
  cases h with
  | same => rfl
  | apply hok hnested => rfl
  | drain hnested => rfl

/-- The code of a contract is read under its own keys. -/
theorem innerGetCode_eq_of_codeKeys {context context' : Context} {address : Address}
    (hget : ∀ key ∈ Governance.ContractOffice.codeKeys address,
      context'.payloadGet key = context.payloadGet key) :
    innerGetCode context' address none = innerGetCode context address none := by
  have hversion : version.get context' address = version.get context address :=
    Executor.contextGet_congr (hget _ (Or.inl rfl))
  simp only [innerGetCode, innerGetVersion, hversion]
  congr 1
  funext found
  cases found with
  | none => rfl
  | some v => exact Executor.contextGet_congr (hget _ (Or.inr ⟨v, Or.inl rfl⟩))

/-- What running contracts write is not the code of a contract. -/
theorem innerGetCode_touched {util : Util} {context context' : Context} (address : Address)
    (h : Touched (vmKeys util) context context') :
    innerGetCode context' address none = innerGetCode context address none :=
  innerGetCode_eq_of_codeKeys fun _ hkey => h.payloadGet_eq
    (Governance.ContractOffice.entryKeys_notMem_vmKeys
      (Governance.ContractOffice.mem_entryKeys_of_codeKeys hkey))

namespace Token

open Sdk Dialogue

variable (serde : SerdeJson) (trap : VMError) (util : Util) (token : Address) (P : Address → Prop)

/-- The ledger of the token in a copy of the data. -/
def copyLedger (c : Savepoint.Copy DataKey DBValue Event) : Ledger.Accounts (Holder util) :=
  accounts serde util fun key => c.get (dataKey util token key)

/-- The ledger of the token in the state. -/
def contextLedger (context : Executor.Context) : Ledger.Accounts (Holder util) :=
  copyLedger serde util token (contextCopy context)

/-- What operations of these accounts make of the ledger. -/
def Grows (lower upper : Ledger.Accounts (Holder util)) : Prop :=
  Ledger.Reaches (fun i : Holder util => P i.1) lower upper

/-- No other contract may be called. -/
def alone : Env NestedCall Reply (State × CallStack) where
  may _ _ := False
  answers _ _ _ _ := False

variable {serde trap util token P}

theorem copyLedger_congr {c c' : Savepoint.Copy DataKey DBValue Event}
    (h : ∀ key, c'.get (dataKey util token key) = c.get (dataKey util token key)) :
    copyLedger serde util token c' = copyLedger serde util token c := by
  rw [copyLedger, copyLedger, funext h]

theorem ledger_eq (w : CallStack) :
    ledger serde util token w = copyLedger serde util token w.ownCopy := by
  rw [ledger, copyLedger]
  congr 1
  funext key
  rw [CallStack.ownCopy_get]
  rfl

variable {vm : VM} {context : Executor.Context} {m m' : Machine}

/-- The running function calls no other contract, and what is so when it succeeds. -/
def Running (vm : VM) (Q : CallStack → Prop) (m : Machine) : Prop :=
  ∃ d : Sdk.Program Unit, m.process = toProcess d ∧
    d.Ends (hostEnv vm alone) (m.state, m.world) fun _ σ => Q σ.2

namespace Running

variable {Q : CallStack → Prop}

theorem ne_execute (h : Running vm Q m) (c : NestedCall) (next : Reply → Process) :
    m.process ≠ .execute c next := by
  intro hprocess
  obtain ⟨d, hd, hends⟩ := h
  rw [hprocess] at hd
  cases d with
  | ret u => cases hd
  | stop e => cases hd
  | ask c next =>
      cases c with
      | inl c => cases hd
      | inr c => exact hends.1

theorem of_done (h : Running vm Q m) {u : Unit} (hprocess : m.process = .done (.ok u)) :
    Q m.world := by
  obtain ⟨d, hd, hends⟩ := h
  rw [hprocess] at hd
  cases d with
  | ret u => exact hends
  | stop e => cases hd
  | ask c next =>
      cases c with
      | inl c => cases hd
      | inr c => cases hd

theorem host (h : Running vm Q m) {c : HostCall} {next : Reply → Process}
    (hprocess : m.process = .call c next) (hstep : Machine.Step vm m m') : Running vm Q m' := by
  obtain ⟨d, hd, hends⟩ := h
  rw [hprocess] at hd
  rw [Machine.Step, Machine.step, hprocess] at hstep
  cases hstep
  rw [Running]
  simp only [Machine.resume]
  cases d with
  | ret u => cases hd
  | stop e => cases hd
  | ask c' next' =>
      cases c' with
      | inr c' => cases hd
      | inl c' =>
          cases hd
          cases hresult : (hostCall vm c m.state m.world).result with
          | ok reply => exact ⟨next' reply, rfl, (ends_host rfl).1 hends reply hresult⟩
          | error e => exact ⟨.stop e, rfl, trivial⟩

theorem step (h : Running vm Q m) (hframes : m.frames = []) (hstep : Machine.Step vm m m') :
    Running vm Q m' ∧ m'.frames = [] := by
  cases hprocess : m.process with
  | call c next =>
      refine ⟨h.host hprocess hstep, ?_⟩
      rw [Machine.Step, Machine.step, hprocess] at hstep
      cases hstep
      exact hframes
  | execute c next => exact absurd hprocess (h.ne_execute c next)
  | done r =>
      rw [Machine.Step, Machine.step, hprocess] at hstep
      simp only [hframes] at hstep
      cases hstep

theorem steps (h : Running vm Q m) (hframes : m.frames = []) (hsteps : Machine.Steps vm m m') :
    Running vm Q m' := by
  have hboth : Running vm Q m' ∧ m'.frames = [] := by
    induction hsteps with
    | refl => exact ⟨h, hframes⟩
    | tail hsteps hstep ih => exact ih.1.step ih.2 hstep
  exact hboth.1

end Running

variable (serde trap token P vm context) in
/-- What the contracts that run have of the token. -/
structure Kept (m : Machine) : Prop where
  lower : m.world.lowerCopies.IsChain fun upper lower =>
    Grows vm.util P (copyLedger serde vm.util token lower) (copyLedger serde vm.util token upper)
  base : [contextCopy context] <:+ m.world.lowerCopies
  bounded : m.world.Bounded vm.util context
  senders : ∀ env ∈ m.world.top.contractEnv :: m.world.callers.map VMContext.contractEnv,
    ∀ a, env.senderAddress = some a → P a
  callers : ∀ env ∈ m.world.callers.map VMContext.contractEnv, env.contractAddress ≠ some token
  away : m.world.top.contractEnv.contractAddress ≠ some token →
    ∀ lower ∈ m.world.lowerCopies.head?,
      Grows vm.util P (copyLedger serde vm.util token lower) (ledger serde vm.util token m.world)
  inside : m.world.top.contractEnv.contractAddress = some token →
    Running vm (fun w => ∀ lower ∈ m.world.lowerCopies.head?,
      Grows vm.util P (copyLedger serde vm.util token lower) (ledger serde vm.util token w)) m

namespace Kept

/-- Only other contracts make nested calls. -/
theorem away_of_execute (h : Kept serde token P vm context m) {c : NestedCall}
    {next : Reply → Process} (hprocess : m.process = .execute c next) :
    m.world.top.contractEnv.contractAddress ≠ some token :=
  fun htoken => (h.inside htoken).ne_execute c next hprocess

/-- A contract that has succeeded has made operations of the ledger. -/
theorem grows_of_done (h : Kept serde token P vm context m) {u : Unit}
    (hprocess : m.process = .done (.ok u)) :
    ∀ lower ∈ m.world.lowerCopies.head?,
      Grows vm.util P (copyLedger serde vm.util token lower)
        (ledger serde vm.util token m.world) := by
  by_cases htoken : m.world.top.contractEnv.contractAddress = some token
  · exact (h.inside htoken).of_done hprocess
  · exact h.away htoken

/-- A host function of another contract leaves the ledger. -/
theorem ledger_effect (hinj : Function.Injective vm.util.hash) {c : HostCall} {s : State}
    {w w' : CallStack} (heffect : Effect vm c s w w')
    (haway : w.top.contractEnv.contractAddress ≠ some token)
    (hlength : ∀ a, w.top.contractEnv.contractAddress = some a →
      a.bytes.length = token.bytes.length) :
    ledger serde vm.util token w' = ledger serde vm.util token w := by
  rw [ledger_eq, ledger_eq]
  apply copyLedger_congr
  intro key
  apply CallStack.ownCopy_effect heffect
  intro address own haddress hkey
  have heq := (Machine.moduleKey_inj hinj (hlength address haddress) hkey).1
  exact haway (heq ▸ haddress)

theorem host (h : Kept serde token P vm context m) (hinj : Function.Injective vm.util.hash)
    (hwf : Machine.WF vm m) {c : HostCall} {next : Reply → Process}
    (hprocess : m.process = .call c next)
    (hlength : ∀ a, m.world.top.contractEnv.contractAddress = some a →
      a.bytes.length = token.bytes.length)
    (hstep : Machine.Step vm m m') : Kept serde token P vm context m' := by
  have heffect := hostCall_effect vm c m.state hwf.idle
  have hsame := heffect.sameContexts
  have hlower := CallStack.lowerCopies_effect heffect
  have hbounded := hstep.bounded hwf h.bounded
  have hrunning (htoken : m.world.top.contractEnv.contractAddress = some token) :=
    (h.inside htoken).host hprocess hstep
  rw [Machine.Step, Machine.step, hprocess] at hstep
  cases hstep
  refine ⟨?_, ?_, hbounded, ?_, ?_, ?_, ?_⟩
  · simp only [Machine.resume, hlower]
    exact h.lower
  · simp only [Machine.resume, hlower]
    exact h.base
  · simp only [Machine.resume, hsame.top, hsame.callers]
    exact h.senders
  · simp only [Machine.resume, hsame.callers]
    exact h.callers
  · simp only [Machine.resume, hsame.top, hlower]
    intro haway
    rw [ledger_effect hinj heffect haway hlength]
    exact h.away haway
  · simp only [Machine.resume, hsame.top, hlower]
    exact hrunning

/-- A nested call starts on a copy of the data. -/
theorem enter (h : Kept serde token P vm context m) (hinj : Function.Injective vm.util.hash)
    (hcode : ∀ code, innerGetCode context token none = .ok (some code) →
      vm.run code Mode.call.executeFunc = toProcess (executeCall serde trap))
    (hchained : Machine.Chained vm m) (hmatched : m.Matched) (hclean : m.Clean)
    (hruns : ∀ a, m.world.top.contractEnv.contractAddress = some a → P a)
    {c : NestedCall} {next : Reply → Process} (hprocess : m.process = .execute c next)
    (hentered : Entered vm c m.world m'.world m'.process m'.state)
    (hframes : m'.frames = ⟨m.state, c, next⟩ :: m.frames) (hstep : Machine.Step vm m m') :
    Kept serde token P vm context m' := by
  have haway := h.away_of_execute hprocess
  have hrunning := (hchained.step hmatched hstep).contractAddress hframes
  have hbounded := hstep.bounded hchained.wf h.bounded
  have hlower : m'.world.lowerCopies = m.world.copies := by
    rw [hentered.world]
    rfl
  have hledger : ledger serde vm.util token m'.world = ledger serde vm.util token m.world := by
    rw [ledger_eq, ledger_eq, hentered.world]
    exact copyLedger_congr fun key =>
      CallStack.ownCopy_entered (hclean.callee hprocess).1 (dataKey vm.util token key)
  have hgrows : ∀ lower ∈ m'.world.lowerCopies.head?,
      Grows vm.util P (copyLedger serde vm.util token lower)
        (ledger serde vm.util token m'.world) := by
    rw [hlower, CallStack.copies_eq, hledger, ledger_eq]
    rintro lower ⟨⟩
    exact Ledger.Reaches.refl _ _
  have hsenders : ∀ env ∈ m'.world.top.contractEnv ::
      m'.world.callers.map VMContext.contractEnv, ∀ a, env.senderAddress = some a → P a := by
    rw [hentered.world]
    intro env henv a ha
    rcases List.mem_cons.1 henv with rfl | henv
    · have hsender := (@Machine.linked_callee m.world c.contractAddress hchained.linked).1
      exact hruns a (hsender.symm.trans ha)
    · exact h.senders env henv a ha
  refine ⟨?_, ?_, hbounded, hsenders, ?_, fun _ => hgrows, ?_⟩
  · rw [hlower, CallStack.copies_eq]
    refine List.isChain_cons.2 ⟨?_, h.lower⟩
    rw [← ledger_eq]
    exact h.away haway
  · rw [hlower, CallStack.copies_eq]
    exact h.base.trans (List.suffix_cons _ _)
  · rw [hentered.world]
    intro env henv
    rcases List.mem_cons.1 henv with rfl | henv
    · exact haway
    · exact h.callers env henv
  · intro htoken
    obtain ⟨code, hget, hrun⟩ := hentered.code
    rw [hrunning] at htoken
    rw [Option.some.inj htoken, innerGetCode_touched token h.bounded.executor] at hget
    refine ⟨executeCall serde trap, hrun.trans (hcode code hget), ?_⟩
    refine (ends_executeCall hinj (hrunning.trans htoken)).mono fun _ σ hacted lower hlow => ?_
    refine (hgrows lower hlow).trans (Ledger.Reaches.mono hacted fun i hi => ?_)
    exact hsenders _ List.mem_cons_self _ hi

/-- A nested call that does not begin. -/
theorem refuse (h : Kept serde token P vm context m) (hwf : Machine.WF vm m) {c : NestedCall}
    {next : Reply → Process} (hprocess : m.process = .execute c next) {w : CallStack} {e : VMError}
    (hworld : w = m.world ∨ m.world.Room vm.config ∧ w = m.world.prepared c.contractAddress)
    (hfinished : Finished (.error e) w m'.world) (hstep : Machine.Step vm m m') :
    Kept serde token P vm context m' := by
  have haway := h.away_of_execute hprocess
  have hbounded := hstep.bounded hwf h.bounded
  have hsame := hfinished.sameContexts
  have htop : w.top = m.world.top := by
    rcases hworld with rfl | ⟨-, rfl⟩
    · rfl
    · rfl
  have hcallers : w.callers = m.world.callers := by
    rcases hworld with rfl | ⟨-, rfl⟩
    · rfl
    · rfl
  have hcopies : m'.world.copies = m.world.copies := by
    rw [hfinished.copies_error]
    rcases hworld with rfl | ⟨-, rfl⟩
    · rfl
    · rfl
  rw [CallStack.copies_eq, CallStack.copies_eq] at hcopies
  obtain ⟨hown, hlower⟩ := List.cons.inj hcopies
  have henv := hsame.top
  have henvs := hsame.callers
  rw [htop] at henv
  rw [hcallers] at henvs
  refine ⟨?_, ?_, hbounded, ?_, ?_, ?_, ?_⟩
  · rw [hlower]
    exact h.lower
  · rw [hlower]
    exact h.base
  · rw [henv, henvs]
    exact h.senders
  · rw [henvs]
    exact h.callers
  · rw [henv, hlower, ledger_eq, hown, ← ledger_eq]
    exact h.away
  · rw [henv]
    exact fun htoken => absurd htoken haway

/-- The end of a nested call: its copy becomes its caller's, or is dropped. -/
theorem back (h : Kept serde token P vm context m) (hwf : Machine.WF vm m) {r : VMResult Unit}
    {f : Frame} (hprocess : m.process = .done r)
    (hfinished : Finished (r.map fun _ => m.state.output) m.world.leave m'.world)
    (hframes : m.frames = f :: m'.frames) (hstep : Machine.Step vm m m') :
    Kept serde token P vm context m' := by
  obtain ⟨caller, callers, hcallers, hleave⟩ := hwf.exists_leave hframes
  have hlow := CallStack.lowerCopies_leave hcallers
  have hlower := hfinished.lowerCopies_eq
  have hsame := hfinished.sameContexts
  have hbounded := hstep.bounded hwf h.bounded
  obtain ⟨hcaller, hchain⟩ := List.isChain_cons.1 (hlow ▸ h.lower)
  have hnested : m.world.leave.nested = m.world.top :: m.world.nested := by rw [hleave]
  have htop : m.world.leave.top = caller := by rw [hleave]
  have hrest : m.world.leave.callers = callers := by rw [hleave]
  have hgrows : ∀ lower ∈ m.world.leave.lowerCopies.head?,
      Grows vm.util P (copyLedger serde vm.util token lower)
        (ledger serde vm.util token m'.world) := by
    have hdropped := hcaller
    rw [← ledger_eq] at hdropped
    generalize m'.world = w' at hfinished
    cases hfinished with
    | same => exact hdropped
    | drain hn => exact hdropped
    | @apply n nested data hok hn =>
        cases hnested.symm.trans hn
        have happlied : ledger serde vm.util token (m.world.leave.applied m.world.top
            m.world.nested) = ledger serde vm.util token m.world := by
          rw [ledger_eq, ledger_eq]
          exact copyLedger_congr fun key =>
            CallStack.ownCopy_applied hcallers (dataKey vm.util token key)
        cases r with
        | error e => cases hok
        | ok u =>
            have hdone := h.grows_of_done hprocess
            rw [hlow] at hdone
            intro lower hlowest
            rw [happlied]
            exact (hcaller lower hlowest).trans (hdone _ rfl)
  have hsenders := h.senders
  have hothers := h.callers
  rw [hcallers] at hsenders hothers
  refine ⟨?_, ?_, hbounded, ?_, ?_, ?_, ?_⟩
  · rw [hlower]
    exact hchain
  · have hbase := h.base
    rw [hlow, List.suffix_cons_iff] at hbase
    rw [hlower]
    rcases hbase with heq | hbase
    · obtain ⟨cs, hcs⟩ := Savepoint.exists_copies (Subtype.val : DataKey → DBKey)
        m.world.leave.executor.payloadGet m.world.leave.executor.events
        (m.world.leave.callers.map fun c => (c.payload, c.events))
      have hnil := (List.cons.inj heq).2
      rw [CallStack.lowerCopies, hcs] at hnil
      cases hnil
    · exact hbase
  · rw [hsame.top, hsame.callers, htop, hrest]
    exact fun env henv => hsenders env (List.mem_cons_of_mem _ henv)
  · rw [hsame.callers, hrest]
    exact fun env henv => hothers env (List.mem_cons_of_mem _ henv)
  · rw [hlower]
    exact fun _ => hgrows
  · rw [hsame.top, htop]
    exact fun htoken => absurd htoken (hothers _ List.mem_cons_self)

variable (token P) in
/-- No nested call finds a context of another contract or what a failed one has
left, and a contract that runs has an address of the chain, which may act. -/
structure Regular (m : Machine) : Prop where
  matched : m.Matched
  clean : m.Clean
  runs : ∀ a, m.world.top.contractEnv.contractAddress = some a →
    P a ∧ a.bytes.length = token.bytes.length

theorem step (h : Kept serde token P vm context m) (hinj : Function.Injective vm.util.hash)
    (hcode : ∀ code, innerGetCode context token none = .ok (some code) →
      vm.run code Mode.call.executeFunc = toProcess (executeCall serde trap))
    (hchained : Machine.Chained vm m) (hregular : Regular token P m)
    (hstep : Machine.Step vm m m') : Kept serde token P vm context m' := by
  cases hstep.walk hchained.wf.idle with
  | host hprocess heffect hstate hframes =>
      exact h.host hinj hchained.wf hprocess (fun a ha => (hregular.runs a ha).2) hstep
  | enter hprocess hentered hframes =>
      exact h.enter hinj hcode hchained hregular.matched hregular.clean
        (fun a ha => (hregular.runs a ha).1) hprocess hentered hframes hstep
  | refuse hprocess hworld hfinished hstate hframes =>
      exact h.refuse hchained.wf hprocess hworld hfinished hstep
  | back hprocess hfinished hstate hframes =>
      exact h.back hchained.wf hprocess hfinished hframes hstep

theorem steps (h : Kept serde token P vm context m) (hinj : Function.Injective vm.util.hash)
    (hcode : ∀ code, innerGetCode context token none = .ok (some code) →
      vm.run code Mode.call.executeFunc = toProcess (executeCall serde trap))
    (hchained : Machine.Chained vm m) (hregular : ∀ m', Machine.Steps vm m m' → Regular token P m')
    (hsteps : Machine.Steps vm m m') : Kept serde token P vm context m' := by
  have hboth : Kept serde token P vm context m' ∧ Machine.Chained vm m' := by
    induction hsteps with
    | refl => exact ⟨h, hchained⟩
    | tail hsteps hstep ih =>
        exact ⟨ih.1.step hinj hcode ih.2 (hregular _ hsteps) hstep,
          ih.2.step (hregular _ hsteps).matched hstep⟩
  exact hboth.1

end Kept

/-! ## Transactions -/

section Transactions

variable (lib : Library) {config : VMConfig} {context context' : Executor.Context}

variable (serde trap token) in
/-- The code of the token, if there is one, is that of the token contract. -/
def IsToken (context : Executor.Context) : Prop :=
  ∀ code, innerGetCode context token none = .ok (some code) →
    ∀ config, lib.run config code Mode.call.executeFunc = toProcess (executeCall serde trap)

/-- A contract starts on what the state has. -/
theorem kept_start (hinj : Function.Injective lib.util.hash) {senderAddress : Address}
    (hsender : P senderAddress) (contractAddress : Address) {code : Bytes} {mode : Mode}
    (htoken : contractAddress = token →
      lib.run config code mode.executeFunc = toProcess (executeCall serde trap))
    (method : String) (params : Bytes) (payValue : Balance) :
    Kept serde token P (lib.vm config) context (lib.start config context senderAddress
      contractAddress code mode method params payValue) := by
  have hlower : (lib.start config context senderAddress contractAddress code mode method params
      payValue).world.lowerCopies = [contextCopy context] := copies_context context
  have hgrows : ∀ lower ∈ (lib.start config context senderAddress contractAddress code mode method
      params payValue).world.lowerCopies.head?,
      Grows (lib.vm config).util P (copyLedger serde (lib.vm config).util token lower)
        (ledger serde (lib.vm config).util token
          (lib.start config context senderAddress contractAddress code mode method params
            payValue).world) := by
    rw [hlower]
    rintro lower ⟨⟩
    exact Ledger.Reaches.refl _ _
  refine ⟨?_, ?_, lib.bounded_start config context senderAddress contractAddress code mode method
    params payValue, ?_, List.forall_mem_nil _, fun _ => hgrows, ?_⟩
  · rw [hlower]
    exact .singleton _
  · exact ⟨[], hlower.symm⟩
  · intro env henv a ha
    rw [List.mem_singleton.1 henv] at ha
    cases ha
    exact hsender
  · intro haddress
    refine ⟨executeCall serde trap, htoken (Option.some.inj haddress), ?_⟩
    refine (ends_executeCall hinj haddress).mono fun _ σ hacted lower hlow => ?_
    refine (hgrows lower hlow).trans (Ledger.Reaches.mono hacted fun i hi => ?_)
    cases hi
    exact hsender

variable (serde token P) in
/-- What is known of the executor after a call of a module: below the transaction
buffer nothing has changed, and a successful call has kept the code of the token
and made operations of its ledger. -/
structure Follows {α : Type} (context : Executor.Context)
    (r : Executor.Context × ModuleResult α) : Prop where
  base : context.SameBase r.1
  code : ∀ out, r.2 = .ok out → innerGetCode r.1 token none = innerGetCode context token none
  grows : ∀ out, r.2 = .ok out → Grows lib.util P (contextLedger serde lib.util token context)
    (contextLedger serde lib.util token r.1)

theorem Follows.error {α : Type} (context : Executor.Context) (e : ModuleError) :
    Follows serde token P lib context (context, (.error e : ModuleResult α)) :=
  ⟨.refl context, nofun, nofun⟩

theorem Follows.map {α β : Type} {r : Executor.Context × ModuleResult α}
    (h : Follows serde token P lib context r) (f : α → β) :
    Follows serde token P lib context (r.map id fun result => result.map f) := by
  obtain ⟨c, result⟩ := r
  cases result with
  | error e => exact ⟨h.base, nofun, nofun⟩
  | ok a => exact ⟨h.base, fun _ _ => h.code a rfl, fun _ _ => h.grows a rfl⟩

theorem sameBase_finish {f : Final}
    (h : context.SameBase f.world.executor) (hdepth : f.world.callers.length = 0) :
    context.SameBase (Library.finish f).1 := by
  obtain ⟨state, ⟨executor, top, callers, nested⟩, result⟩ := f
  cases List.eq_nil_of_length_eq_zero hdepth
  cases result with
  | error e => exact h
  | ok u =>
      have happly := h.trans (Context.SameBase.foldr_payloadSet executor top.payload)
      exact happly.trans (Context.SameBase.foldl_emitEvent _ _)

/-- A run that is over and has succeeded has applied its copy. -/
theorem payloadGet_finish {f : Final} (hdepth : f.world.callers.length = 0) {out : Bytes}
    (hout : (Library.finish f).2 = .ok out) (key : DBKey) :
    (Library.finish f).1.payloadGet key = f.world.payloadGet key := by
  obtain ⟨state, ⟨executor, top, callers, nested⟩, result⟩ := f
  cases List.eq_nil_of_length_eq_zero hdepth
  cases result with
  | error e => cases hout
  | ok u =>
      change (top.events.foldl Context.emitEvent _).payloadGet _ = _
      rw [Context.payloadGet_foldl_emitEvent]
      exact Context.payloadGet_foldr_payloadSet executor top.payload _

theorem exists_done {f : Final} {out : Bytes} (hout : (Library.finish f).2 = .ok out) :
    ∃ u, f.result = .ok u := by
  obtain ⟨state, world, result⟩ := f
  cases result with
  | error e => cases hout
  | ok u => exact ⟨u, rfl⟩

theorem grows_finish {f : Final} (h : Kept serde token P vm context (Machine.ended f []))
    (hdepth : f.world.callers.length = 0) {out : Bytes} (hout : (Library.finish f).2 = .ok out) :
    Grows vm.util P (contextLedger serde vm.util token context)
      (contextLedger serde vm.util token (Library.finish f).1) := by
  have happlied : contextLedger serde vm.util token (Library.finish f).1 =
      ledger serde vm.util token f.world := by
    rw [ledger_eq, contextLedger]
    refine copyLedger_congr fun key => ?_
    rw [CallStack.ownCopy_get]
    exact payloadGet_finish hdepth hout _
  obtain ⟨u, hu⟩ := exists_done hout
  have hdone := h.grows_of_done (congrArg Process.done hu)
  have hbase := h.base
  obtain ⟨state, ⟨executor, top, callers, nested⟩, result⟩ := f
  cases List.eq_nil_of_length_eq_zero hdepth
  have hlower : (Machine.ended ⟨state, ⟨executor, top, [], nested⟩, result⟩ []).world.lowerCopies =
    [contextCopy executor] := copies_context executor
  rw [hlower] at hbase hdone
  have hcopy := List.cons.inj (hbase.eq_of_length rfl)
  rw [happlied, contextLedger, hcopy.1]
  exact hdone _ rfl

theorem follows_innerVmExecute (hinj : Function.Injective lib.util.hash)
    (hcode : IsToken serde trap token lib context) {senderAddress contractAddress : Address}
    (hsender : P senderAddress) {code : Bytes} {mode : Mode}
    (htoken : contractAddress = token → ∀ config,
      lib.run config code mode.executeFunc = toProcess (executeCall serde trap))
    {method : String} {params : Bytes} {payValue : Balance}
    (hregular : ∀ config, innerGetVmConfig context = .ok config → ∀ m,
      Machine.Steps (lib.vm config) (lib.start config context senderAddress contractAddress code
        mode method params payValue) m → Kept.Regular token P m) :
    Follows serde token P lib context (lib.innerVmExecute context senderAddress contractAddress code
      mode method params payValue) := by
  cases hconfig : innerGetVmConfig context with
  | error e =>
      rw [Library.innerVmExecute, hconfig]
      exact .error lib context e
  | ok config =>
      have htouched : Touched (vmKeys lib.util) context (lib.innerVmExecute context senderAddress
          contractAddress code mode method params payValue).1 :=
        lib.touched_innerVmExecute senderAddress contractAddress code mode method params payValue
      obtain ⟨f, hsteps, heq⟩ := lib.innerVmExecute_eq_finish hconfig senderAddress
        contractAddress code mode method params payValue
      have hwf := lib.wf_start config context senderAddress contractAddress code mode method params
        payValue
      have hkept : Kept serde token P (lib.vm config) context (Machine.ended f []) :=
        (kept_start lib hinj hsender contractAddress (fun h => htoken h config) method params
          payValue).steps hinj (fun code hget => hcode code hget config)
          (lib.chained_start config context senderAddress contractAddress code mode method params
            payValue) (hregular config hconfig) hsteps
      have hbase := Machine.Steps.sameBase hsteps hwf
      have hdepth := (hwf.steps hsteps).depth
      refine ⟨?_, fun _ _ => innerGetCode_touched token htouched, ?_⟩
      · rw [heq]
        exact sameBase_finish hbase hdepth
      · rw [heq]
        exact fun out hout => grows_finish hkept hdepth hout

variable (token) in
/-- What the state has of the storage of the token. -/
def stored (util : Executor.Util) (context : Executor.Context) (key : Bytes) : Option DBValue :=
  context.payloadGet (moduleKey util token key)

/-- The run that creates a token issues it. -/
theorem issued_innerVmExecute (hinj : Function.Injective lib.util.hash) {code : Bytes}
    (hrun : ∀ config, lib.run config code Mode.init.executeFunc = toProcess (executeInit serde))
    {senderAddress : Address} {method : String} {params : Bytes} {payValue : Balance} {out : Bytes}
    (hout : (lib.innerVmExecute context senderAddress token code .init method params
      payValue).2 = .ok out) :
    ∃ supply, Issued serde lib.util (some senderAddress) (stored token lib.util context)
      (stored token lib.util (lib.innerVmExecute context senderAddress token code .init method
        params payValue).1) supply := by
  cases hconfig : innerGetVmConfig context with
  | error e =>
      rw [Library.innerVmExecute, hconfig] at hout
      cases hout
  | ok config =>
      obtain ⟨f, hsteps, heq⟩ := lib.innerVmExecute_eq_finish hconfig senderAddress token code
        .init method params payValue
      have hwf := lib.wf_start config context senderAddress token code .init method params payValue
      have hrunning : Running (lib.vm config) (fun w => ∃ supply,
          Issued serde lib.util (some senderAddress) (stored token lib.util context)
            (owned lib.util token w) supply)
          (lib.start config context senderAddress token code .init method params payValue) := by
        have hread : owned lib.util token (lib.start config context senderAddress token code .init
            method params payValue).world = stored token lib.util context := rfl
        refine ⟨executeInit serde, hrun config, ?_⟩
        rw [← hread]
        exact ends_executeInit hinj rfl
      rw [heq] at hout ⊢
      obtain ⟨u, hu⟩ := exists_done hout
      have hdepth := (hwf.steps hsteps).depth
      obtain ⟨supply, hissued⟩ :=
        (hrunning.steps rfl hsteps).of_done (congrArg Process.done hu)
      have hread : stored token lib.util (Library.finish f).1 = owned lib.util token f.world := by
        funext key
        exact payloadGet_finish hdepth hout _
      exact ⟨supply, hread ▸ hissued⟩

end Transactions

end Token

end Finastate.Contract
