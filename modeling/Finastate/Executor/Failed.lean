import Finastate.Executor.Batch

/-!
# Batches that fail

`execute_txs` writes into the context while it runs and takes nothing back when
it returns an error. `Stops` lists the transactions at which its loop ends
early, `FailsIn` the ways in which the whole call fails, and `Left` says what a
failed call leaves: the transactions before the one it ends at stay executed,
and only the lists of the context are those from before the call.
-/

namespace Finastate.Executor

namespace Context

/-- The environment, the databases and what finished batches have recorded. -/
structure SameRecords (c c' : Context) : Prop where
  env : c'.env = c.env
  statedb : ∀ isMeta, (c'.state isMeta).statedb = (c.state isMeta).statedb
  txs : c'.txs = c.txs
  receipts : c'.receipts = c.receipts
  payloadPhase : c'.payloadPhase = c.payloadPhase

namespace SameRecords

variable {c c' c'' : Context}

theorem refl (c : Context) : SameRecords c c := ⟨rfl, fun _ => rfl, rfl, rfl, rfl⟩

theorem trans (h : SameRecords c c') (h' : SameRecords c' c'') : SameRecords c c'' where
  env := h'.env.trans h.env
  statedb isMeta := (h'.statedb isMeta).trans (h.statedb isMeta)
  txs := h'.txs.trans h.txs
  receipts := h'.receipts.trans h.receipts
  payloadPhase := h'.payloadPhase.trans h.payloadPhase

theorem of_callEnv {callEnv : CallEnv} (h : SameRecords { c with callEnv } c') :
    SameRecords c c' := by
  refine ⟨h.env, fun isMeta => ?_, h.txs, h.receipts, h.payloadPhase⟩
  rw [h.statedb, state_callEnv]

theorem applyTxIn (h : SameRecords c c') (order : HashOrder) (n : Nat) :
    SameRecords c (c'.applyTxIn order n) := by
  refine ⟨h.env, fun isMeta => ?_, h.txs, h.receipts, h.payloadPhase⟩
  rw [state_applyTxIn, ← h.statedb]
  rfl

theorem dropTx (h : SameRecords c c') : SameRecords c c'.dropTx := by
  refine ⟨h.env, fun isMeta => ?_, h.txs, h.receipts, h.payloadPhase⟩
  rw [state_dropTx, ← h.statedb]
  rfl

end SameRecords

theorem Keeps.sameRecords {isMeta : Bool} {c c' : Context} (h : Keeps isMeta c c') :
    SameRecords c c' := by
  refine ⟨h.env, fun b => ?_, h.txs, h.receipts, h.payloadPhase⟩
  by_cases hb : b = isMeta
  · rw [hb, h.statedb]
  · rw [Bool.eq_not.2 hb, h.other]

end Context

section Executor

variable {executor : Executor} {order : HashOrder} {c c' mid : Context}

theorem executeTxIn_sameRecords (hmodular : executor.dispatcher.Modular) {isMeta : Bool} {n : Nat}
    {tx : FullTransaction} {result : Except CommonError FullReceipt}
    (hkind : executor.dispatcher.isMeta tx.tx.call.module = .ok isMeta)
    (h : executor.executeTxIn order n c tx = (c', result)) : Context.SameRecords c c' := by
  have hkeeps := hmodular { c with callEnv := { txHash := some tx.txHash } }
    (tx.tx.witness.map fun witness => executor.address witness.publicKey) tx.tx.call isMeta hkind
  have hrecords := hkeeps.sameRecords.of_callEnv
  rw [executeTxIn] at h
  generalize executor.dispatcher.executeCall _ _ _ = out at h hrecords
  obtain ⟨c₁, answer⟩ := out
  cases answer with
  | error e =>
      cases h
      exact hrecords
  | ok answer =>
      cases answer with
      | ok _ =>
          cases h
          exact hrecords.applyTxIn order n
      | error _ =>
          cases h
          exact hrecords.dropTx

/-- The transaction at which the loop ends with an error: with the kind of the
batch before it, to what is left and the error. -/
inductive Stops (executor : Executor) (order : HashOrder) (n : Nat) (mid : Context)
    (kind : Option Bool) (tx : FullTransaction) : Context → CommonError → Prop
  | unknown {e : CommonError} (hmodule : executor.dispatcher.isMeta tx.tx.call.module = .error e) :
      Stops executor order n mid kind tx mid e
  | mixed {isMeta : Bool} (hmodule : executor.dispatcher.isMeta tx.tx.call.module = .ok isMeta)
      (hkind : kind = some (!isMeta)) :
      Stops executor order n mid kind tx mid
        (.invalidTxs "Mixed meta and payload in one txs batch")
  | system {isMeta : Bool} {c' : Context} {e : CommonError}
      (hmodule : executor.dispatcher.isMeta tx.tx.call.module = .ok isMeta)
      (hkind : ∀ b ∈ kind, b = isMeta)
      (htx : executor.executeTxIn order n mid tx = (c', .error e)) :
      Stops executor order n mid kind tx c' e

/-- A batch whose loop has come through: nothing has changed of an empty one,
and every other has one kind. -/
theorem executeLoopIn_kind {n : Nat} {txs : List FullTransaction} {receipts : List FullReceipt}
    {txsIsMeta kind : Option Bool}
    (h : executor.executeLoopIn order n c txsIsMeta txs = (c', .ok (receipts, kind))) :
    (∀ b ∈ txsIsMeta, kind = some b) ∧
      (∀ tx ∈ txs, ∃ isMeta, kind = some isMeta ∧
        executor.dispatcher.isMeta tx.tx.call.module = .ok isMeta) ∧
      (txs = [] → c' = c ∧ kind = txsIsMeta) := by
  induction txs generalizing n c txsIsMeta receipts with
  | nil =>
      cases h
      exact ⟨fun b hb => hb, nofun, fun _ => ⟨rfl, rfl⟩⟩
  | cons tx txs ih =>
      simp only [executeLoopIn] at h
      split at h
      · cases h
      · next isMeta hisMeta =>
        split at h
        · cases h
        · next hsame =>
          split at h
          · cases h
          · split at h
            · cases h
            · next hrest =>
              cases h
              obtain ⟨hkept, hkinds, -⟩ := ih hrest
              have hkind := hkept isMeta rfl
              refine ⟨fun b hb => ?_, fun tx' htx' => ?_, nofun⟩
              · rw [Option.mem_def.1 hb, Option.getD_some, not_not] at hsame
                rw [hkind, hsame]
              · rcases List.mem_cons.1 htx' with rfl | htx'
                · exact ⟨isMeta, hkind, hisMeta⟩
                · exact hkinds tx' htx'

theorem executeLoopIn_sameRecords (hmodular : executor.dispatcher.Modular) {n : Nat}
    {txs : List FullTransaction} {txsIsMeta : Option Bool}
    {result : Except CommonError (List FullReceipt × Option Bool)}
    (h : executor.executeLoopIn order n c txsIsMeta txs = (c', result)) :
    Context.SameRecords c c' := by
  induction txs generalizing n c txsIsMeta result with
  | nil =>
      cases h
      exact .refl _
  | cons tx txs ih =>
      simp only [executeLoopIn] at h
      split at h
      · cases h
        exact .refl _
      · next isMeta hisMeta =>
        split at h
        · cases h
          exact .refl _
        · split at h
          · next htx =>
            cases h
            exact executeTxIn_sameRecords hmodular hisMeta htx
          · next htx =>
            have hfirst := executeTxIn_sameRecords hmodular hisMeta htx
            split at h
            · next hrest =>
              cases h
              exact hfirst.trans (ih hrest)
            · next hrest =>
              cases h
              exact hfirst.trans (ih hrest)

/-- The loop over two lists is the loop over the second from where the loop
over the first ends. -/
theorem executeLoopIn_append {n : Nat} {before : List FullTransaction}
    {receipts : List FullReceipt} {txsIsMeta kind : Option Bool}
    (h : executor.executeLoopIn order n c txsIsMeta before = (mid, .ok (receipts, kind)))
    (rest : List FullTransaction) :
    executor.executeLoopIn order n c txsIsMeta (before ++ rest) =
      match executor.executeLoopIn order (n + before.length) mid kind rest with
      | (c', .error e) => (c', .error e)
      | (c', .ok (receipts', kind)) => (c', .ok (receipts ++ receipts', kind)) := by
  induction before generalizing n c txsIsMeta receipts with
  | nil =>
      cases h
      rw [List.nil_append, List.length_nil, Nat.add_zero]
      split
      · assumption
      · assumption
  | cons tx before ih =>
      simp only [executeLoopIn] at h
      split at h
      · cases h
      · next isMeta hisMeta =>
        split at h
        · cases h
        · next hsame =>
          split at h
          · cases h
          · next htx =>
            split at h
            · cases h
            · next hrest =>
              cases h
              have hlength : n + (tx :: before).length = n + 1 + before.length := by
                rw [List.length_cons]
                omega
              rw [List.cons_append, executeLoopIn, hisMeta, hlength]
              simp only [if_neg hsame, htx, ih hrest]
              generalize executor.executeLoopIn order (n + 1 + before.length) mid kind rest = out
              obtain ⟨c₂, result⟩ := out
              cases result with
              | error e => rfl
              | ok result => rfl

theorem Stops.executeLoopIn {n : Nat} {kind : Option Bool} {tx : FullTransaction}
    {e : CommonError} (h : Stops executor order n mid kind tx c' e) (rest : List FullTransaction) :
    executor.executeLoopIn order n mid kind (tx :: rest) = (c', .error e) := by
  rw [Executor.executeLoopIn]
  cases h with
  | unknown hmodule => rw [hmodule]
  | mixed hmodule hkind =>
      rw [hmodule, hkind]
      simp
  | @system isMeta _ _ hmodule hkind htx =>
      have hsame : kind.getD isMeta = isMeta := by
        cases kind with
        | none => rfl
        | some b => exact hkind b rfl
      rw [hmodule]
      simp only [hsame, ne_eq, not_true_eq_false, if_false, htx]

/-- A loop that ends with an error has come through all the transactions before
one at which it stops. -/
theorem stops_of_executeLoopIn {n : Nat} {txs : List FullTransaction} {txsIsMeta : Option Bool}
    {e : CommonError} (h : executor.executeLoopIn order n c txsIsMeta txs = (c', .error e)) :
    ∃ before tx rest mid receipts kind, txs = before ++ tx :: rest ∧
      executor.executeLoopIn order n c txsIsMeta before = (mid, .ok (receipts, kind)) ∧
      Stops executor order (n + before.length) mid kind tx c' e := by
  induction txs generalizing n c txsIsMeta with
  | nil => cases h
  | cons tx txs ih =>
      simp only [executeLoopIn] at h
      split at h
      · next hmodule =>
        cases h
        exact ⟨[], tx, txs, _, [], txsIsMeta, rfl, rfl, .unknown hmodule⟩
      · next isMeta hmodule =>
        split at h
        · next hmixed =>
          cases h
          have hkind : txsIsMeta = some (!isMeta) := by
            cases txsIsMeta with
            | none => exact absurd rfl hmixed
            | some b => exact congrArg some (Bool.eq_not.2 hmixed)
          exact ⟨[], tx, txs, _, [], txsIsMeta, rfl, rfl, .mixed hmodule hkind⟩
        · next hsame =>
          split at h
          · next htx =>
            cases h
            have hkind : ∀ b ∈ txsIsMeta, b = isMeta := by
              intro b hb
              rw [Option.mem_def.1 hb] at hsame
              exact not_not.1 hsame
            exact ⟨[], tx, txs, c, [], txsIsMeta, rfl, rfl, .system hmodule hkind htx⟩
          · next receipt htx =>
            split at h
            · next hrest =>
              cases h
              obtain ⟨before, tx', rest, mid, receipts, kind, htxs, hbefore, hstops⟩ := ih hrest
              refine ⟨tx :: before, tx', rest, mid, receipt :: receipts, kind, ?_, ?_, ?_⟩
              · rw [htxs, List.cons_append]
              · rw [executeLoopIn, hmodule]
                simp only [if_neg hsame, htx, hbefore]
              · rw [List.length_cons, ← Nat.add_assoc, Nat.add_right_comm]
                exact hstops
            · cases h

/-- How a call fails: at a transaction, or with all of them executed. -/
inductive FailsIn (executor : Executor) (order : HashOrder) (c : Context)
    (txs : List FullTransaction) : Context → CommonError → Prop
  | stopped {before rest : List FullTransaction} {tx : FullTransaction} {mid c' : Context}
      {receipts : List FullReceipt} {kind : Option Bool} {e : CommonError}
      (htxs : txs = before ++ tx :: rest)
      (hbefore : executor.executeLoopIn order 0 c none before = (mid, .ok (receipts, kind)))
      (hstops : Stops executor order before.length mid kind tx c' e) :
      FailsIn executor order c txs c' e
  | afterPayload {mid : Context} {receipts : List FullReceipt}
      (hloop : executor.executeLoopIn order 0 c none txs = (mid, .ok (receipts, some true)))
      (hphase : mid.payloadPhase = true) :
      FailsIn executor order c txs mid (.invalidTxs "Meta after payload not allowed")

/-- The exits of `execute_txs` with an error. -/
theorem executeTxsIn_eq_error_iff {txs : List FullTransaction} {e : CommonError} :
    executor.executeTxsIn order c txs = (c', .error e) ↔
      FailsIn executor order c txs c' e := by
  constructor
  · intro h
    rw [executeTxsIn] at h
    split at h
    · next hloop =>
      cases h
      obtain ⟨before, tx, rest, mid, receipts, kind, htxs, hbefore, hstops⟩ :=
        stops_of_executeLoopIn hloop
      rw [Nat.zero_add] at hstops
      exact .stopped htxs hbefore hstops
    · next receipts kind hloop =>
      cases kind with
      | none => cases h
      | some isMeta =>
          cases isMeta with
          | false => cases h
          | true =>
              rw [closeTxs] at h
              split at h
              · next hphase =>
                cases h
                exact .afterPayload hloop hphase
              · cases h
  · intro h
    rw [executeTxsIn]
    cases h with
    | stopped htxs hbefore hstops =>
        rw [htxs, executeLoopIn_append hbefore, Nat.zero_add, hstops.executeLoopIn]
    | afterPayload hloop hphase =>
        rw [hloop]
        simp only [closeTxs, hphase, if_true]

end Executor

namespace Modules

variable {modules : Modules} {address : PublicKey → Address} {order : HashOrder}
  {c c' mid : Context}

/-- What the call of a module that ends the batch leaves: its own writes in the
transaction buffer of its state and its own events, over what was there. -/
structure Interrupted (modules : Modules) (address : PublicKey → Address) (isMeta : Bool)
    (mid c' : Context) (tx : FullTransaction) (e : CommonError) : Prop where
  kind : modules.isMeta tx.tx.call.module = .ok isMeta
  keeps : Context.Keeps isMeta { mid with callEnv := { txHash := some tx.txHash } } c'
  call : (modules.executeCall (tx.tx.witness.map fun witness => address witness.publicKey)
    tx.tx.call).plain mid.env { txHash := some tx.txHash } (mid.plain isMeta) =
      (c'.plain isMeta, .error e)

/-- What a failed batch leaves: the transactions `before` stay executed, all of
one kind and as if they were the whole batch, and nothing is left of those after
but, when it is a call of a module that fails, of that call. -/
structure Left (modules : Modules) (address : PublicKey → Address) (order : HashOrder)
    (c c' : Context) (txs : List FullTransaction) (e : CommonError) (isMeta : Bool)
    (before rest : List FullTransaction) (mid : Context) : Prop where
  txs : txs = before ++ rest
  kind : ∀ tx ∈ before, modules.isMeta tx.tx.call.module = .ok isMeta
  ran : ∃ receipts kind, (modules.executor address).executeLoopIn order 0 c none before =
    (mid, .ok (receipts, kind))
  nothing : before = [] → mid = c
  folded : c.Idle → mid.Idle ∧
    mid.get isMeta = before.foldl (modules.writeTx address c.env) (c.get isMeta) ∧
    mid.state (!isMeta) = c.state (!isMeta)
  stopped : c' = mid ∨ ∃ tx ∈ rest.head?, modules.Interrupted address isMeta mid c' tx e

/-- A system error comes from the call of the module. -/
theorem interrupted_of_executeTxIn {isMeta : Bool} {n : Nat} {tx : FullTransaction}
    {e : CommonError} (hkind : modules.isMeta tx.tx.call.module = .ok isMeta)
    (h : (modules.executor address).executeTxIn order n mid tx = (c', .error e)) :
    modules.Interrupted address isMeta mid c' tx e := by
  obtain ⟨start, hstart⟩ : ∃ start : Context,
      start = { mid with callEnv := { txHash := some tx.txHash } } := ⟨_, rfl⟩
  obtain ⟨program, hprogram⟩ : ∃ program, program = modules.executeCall
      (tx.tx.witness.map fun witness => address witness.publicKey) tx.tx.call := ⟨_, rfl⟩
  have hcall : (modules.executor address).dispatcher.executeCall start
      (tx.tx.witness.map fun witness => (modules.executor address).address witness.publicKey)
      tx.tx.call = program.run isMeta start := by
    simp only [executor, dispatcher, hkind, hprogram]
  have hplain : start.plain isMeta = mid.plain isMeta := by
    rw [Context.plain, Context.plain, Context.get_eq, Context.get_eq, hstart, mid.state_callEnv]
  have hkeeps := program.run_keeps isMeta start
  have hrun := program.run_plain isMeta start
  rw [hplain] at hrun
  rw [Executor.executeTxIn, ← hstart, hcall] at h
  generalize program.run isMeta start = out at h hkeeps hrun
  obtain ⟨c₁, answer⟩ := out
  cases answer with
  | error _ =>
      cases h
      rw [hstart] at hkeeps hrun
      rw [hprogram] at hrun
      exact ⟨hkind, hkeeps, hrun.symm⟩
  | ok answer =>
      cases answer with
      | ok _ => cases (Prod.mk.inj h).2
      | error _ => cases (Prod.mk.inj h).2

/-- The transactions before the end of a failed batch were executed as a batch
of their own. -/
theorem left_of_ran {isMeta : Bool} {txs before rest : List FullTransaction} {e : CommonError}
    {receipts : List FullReceipt} {kind : Option Bool} (htxs : txs = before ++ rest)
    (hbefore : (modules.executor address).executeLoopIn order 0 c none before =
      (mid, .ok (receipts, kind)))
    (hkind : ∀ b ∈ kind, b = isMeta)
    (hstopped : c' = mid ∨ ∃ tx ∈ rest.head?, modules.Interrupted address isMeta mid c' tx e) :
    modules.Left address order c c' txs e isMeta before rest mid := by
  obtain ⟨-, hkinds, hnothing⟩ := Executor.executeLoopIn_kind hbefore
  have hall : ∀ tx ∈ before, modules.isMeta tx.tx.call.module = .ok isMeta := by
    intro tx htx
    obtain ⟨b, hb, hmodule⟩ := hkinds tx htx
    rw [← hkind b hb]
    exact hmodule
  refine ⟨htxs, hall, ⟨receipts, kind, hbefore⟩, fun hnil => (hnothing hnil).1, ?_, hstopped⟩
  intro hidle
  have hsettled := (Executor.executeLoopIn_settled modules.modular hidle (by simp)
    (fun tx htx => hall tx (List.mem_of_mem_head? htx)) hbefore).1
  exact ⟨hsettled.idle, (executeLoopIn_eq hidle hall hbefore).1, hsettled.other⟩

theorem executeTxsIn_sameRecords {txs : List FullTransaction} {e : CommonError}
    (h : (modules.executor address).executeTxsIn order c txs = (c', .error e)) :
    Context.SameRecords c c' := by
  have hmodular : (modules.executor address).dispatcher.Modular := modules.modular
  cases Executor.executeTxsIn_eq_error_iff.1 h with
  | @stopped before rest tx mid _ receipts kind _ htxs hbefore hstops =>
      have hloop := Executor.executeLoopIn_append hbefore (tx :: rest)
      rw [Nat.zero_add, hstops.executeLoopIn] at hloop
      exact Executor.executeLoopIn_sameRecords hmodular hloop
  | afterPayload hloop hphase => exact Executor.executeLoopIn_sameRecords hmodular hloop

/-- A failed batch is not taken back: what the contexts record of finished
batches is as before, and all else is as the transactions before its end leave
it. -/
theorem executeTxsIn_left {txs : List FullTransaction} {e : CommonError}
    (h : (modules.executor address).executeTxsIn order c txs = (c', .error e)) :
    Context.SameRecords c c' ∧
      ∃ isMeta before rest mid, modules.Left address order c c' txs e isMeta before rest mid := by
  refine ⟨executeTxsIn_sameRecords h, ?_⟩
  cases Executor.executeTxsIn_eq_error_iff.1 h with
  | @stopped before rest tx mid _ receipts kind _ htxs hbefore hstops =>
      cases hstops with
      | unknown hmodule =>
          exact ⟨kind.getD true, before, tx :: rest, c', left_of_ran htxs hbefore
            (fun b hb => by rw [Option.mem_def.1 hb, Option.getD_some]) (.inl rfl)⟩
      | @mixed isMeta hmodule hkind =>
          exact ⟨!isMeta, before, tx :: rest, c', left_of_ran htxs hbefore
            (fun b hb => Option.some.inj (hb.symm.trans hkind)) (.inl rfl)⟩
      | @system isMeta _ _ hmodule hkind htx =>
          exact ⟨isMeta, before, tx :: rest, mid, left_of_ran htxs hbefore hkind
            (.inr ⟨tx, rfl, interrupted_of_executeTxIn hmodule htx⟩)⟩
  | afterPayload hloop hphase =>
      exact ⟨true, txs, [], c', left_of_ran (List.append_nil txs).symm hloop
        (fun b hb => (Option.some.inj hb).symm) (.inl rfl)⟩

end Modules

/-- Nothing of a batch is seen in the context. -/
structure Context.NoTrace (c c' : Context) : Prop where
  get : ∀ isMeta, c'.get isMeta = c.get isMeta
  updates : ∀ isMeta, (c'.state isMeta).buffer = (c.state isMeta).buffer
  txs : c'.txs = c.txs
  receipts : c'.receipts = c.receipts
  events : c'.events = c.events

/-! The module with entries as a meta and as a payload module, with a method
that writes an entry, emits its value and then meets a system error. -/

namespace Sample

def kinds : Modules where
  isMeta := fun module =>
    match module with
    | "meta" => .ok true
    | "entries" => .ok false
    | other => .error (.invalidTxModule other)
  validateCall := entries.validateCall
  isWriteCall := entries.isWriteCall
  executeCall := fun sender call =>
    match call.method, call.params with
    | "break", [key, value] =>
        .set [key] (some [value]) (.emitEvent (.raw [value]) (.done (.error .codec)))
    | _, _ => entries.executeCall sender call

def metaEntryTx : FullTransaction where
  tx := { witness := none, call := { module := "meta", method := "put", params := [1, 5] } }
  txHash := ⟨[9]⟩

/-- A payload transaction and a meta transaction after it. -/
def mixedTxs : List FullTransaction := [entryTx 0 "put" 1 5, metaEntryTx]

def brokenTxs : List FullTransaction :=
  [entryTx 0 "put" 1 5, entryTx 1 "break" 2 6, entryTx 2 "put" 4 8]

def broken : Context × Except CommonError Unit :=
  (kinds.executor address).executeTxsIn .kept context brokenTxs

end Sample

namespace Modules

/-- The entry put by the first transaction of a mixed batch stays. -/
theorem executeTxs_trace :
    ¬ ∀ (modules : Modules) (address : PublicKey → Address) (c c' : Context)
      (txs : List FullTransaction) (e : CommonError),
      (modules.executor address).executeTxs c txs = (c', .error e) → c.NoTrace c' := by
  intro hall
  have h := hall Sample.kinds Sample.address Sample.context
    ((Sample.kinds.executor Sample.address).executeTxs Sample.context Sample.mixedTxs).1
    Sample.mixedTxs (.invalidTxs "Mixed meta and payload in one txs batch") rfl
  have hread := congrFun (h.get false) [1]
  revert hread
  decide

theorem executeTxsIn_left_broken :
    (Context.SameRecords Sample.context Sample.broken.1 ∧
      ∃ isMeta before rest mid, Sample.kinds.Left Sample.address .kept Sample.context
        Sample.broken.1 Sample.brokenTxs .codec isMeta before rest mid) ∧
    (Sample.broken.1.get false [1], Sample.broken.1.get false [2],
      Sample.broken.1.get false [4]) = (some [5], some [6], none) ∧
    Sample.broken.1.payloadState.buffer = [([1], some [5])] ∧
    Sample.broken.1.events = [.raw [6]] := by
  have hbroken : (Sample.kinds.executor Sample.address).executeTxsIn .kept Sample.context
      Sample.brokenTxs = (Sample.broken.1, .error .codec) := rfl
  exact ⟨executeTxsIn_left hbroken, by decide, by decide, by decide⟩

end Modules

end Finastate.Executor
