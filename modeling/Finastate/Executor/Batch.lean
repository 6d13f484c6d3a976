import Finastate.Executor.Program

/-!
# What a batch of transactions does

The context keeps two buffers for each state, and drains hash maps, whose
entries come out in any order. `executeTxsIn` is `execute_txs` with that order
written out. The reference is a plain map: `writeTx` is what one transaction
makes of it, and a batch is the left fold of it. `executeTxsIn_eq_fold`
connects the two. An empty value can be read back from the context, but it does
not get into the trie.
-/

namespace Finastate.Executor

/-- The order in which the `n`th transaction of a batch finds the entries of
its two buffers when it drains them. -/
structure HashOrder where
  iter : Nat → Bool → Buffer → Buffer
  perm : ∀ n isMeta buffer, (iter n isMeta buffer).Perm buffer

/-- The entries as they are kept in the model. -/
def HashOrder.kept : HashOrder := ⟨fun _ _ buffer => buffer, fun _ _ buffer => .refl buffer⟩

namespace ContextState

variable {s : ContextState} {items : List (DBKey × Option DBValue)}

theorem get_apply_of_perm (h : (s.txBuffer.map Prod.fst).Nodup)
    (hperm : items.Perm s.txBuffer) : (s.drainTxBuffer.2.apply items).get = s.get := by
  have hitems : (items.map Prod.fst).Nodup := (hperm.map Prod.fst).nodup_iff.2 h
  funext key
  have hget : AssocMap.get? items key = AssocMap.get? s.txBuffer key :=
    AssocMap.get?_congr hitems h (fun _ => hperm.mem_iff) key
  rw [get_eq_read, get_eq_read, drainTxBuffer, apply, Overlay.read_empty_cons,
    Overlay.read_extend_cons, Overlay.read_cons, hget, ← Overlay.read_cons]

theorem nodup_apply (h : (s.buffer.map Prod.fst).Nodup)
    (items : List (DBKey × Option DBValue)) :
    ((s.drainTxBuffer.2.apply items).buffer.map Prod.fst).Nodup := by
  induction items with
  | nil => exact h
  | cons item items ih => exact AssocMap.nodup_keys_insert item.1 item.2 ih

/-- With nothing in its transaction buffer a state is its buffer over the
database. -/
theorem get_of_drained (h : s.txBuffer = []) (key : DBKey) :
    s.get key = (AssocMap.get? s.buffer key).getD (AssocMap.get? s.statedb key) := by
  rw [get_eq_read, h]
  rfl

end ContextState

namespace Context

/-- `applyTx` with the buffers drained in some order. -/
def applyTxIn (order : HashOrder) (n : Nat) (c : Context) : Context :=
  { c with
    metaState :=
      c.metaState.drainTxBuffer.2.apply (order.iter n true c.metaState.drainTxBuffer.1)
    payloadState :=
      c.payloadState.drainTxBuffer.2.apply (order.iter n false c.payloadState.drainTxBuffer.1)
    events := [] }

/-- No transaction is running. -/
structure Idle (c : Context) : Prop where
  txBuffer : ∀ isMeta, (c.state isMeta).txBuffer = []
  buffer : ∀ isMeta, ((c.state isMeta).buffer.map Prod.fst).Nodup
  events : c.events = []

theorem idle_new (env : ContextEnv) (metaStatedb payloadStatedb : List (DBKey × DBValue)) :
    (new env metaStatedb payloadStatedb).Idle where
  txBuffer isMeta := by
    cases isMeta with
    | false => rfl
    | true => rfl
  buffer isMeta := by
    cases isMeta with
    | false => exact List.nodup_nil
    | true => exact List.nodup_nil
  events := rfl

theorem state_applyTxIn (order : HashOrder) (n : Nat) (c : Context) (isMeta : Bool) :
    (c.applyTxIn order n).state isMeta =
      (c.state isMeta).drainTxBuffer.2.apply
        (order.iter n isMeta (c.state isMeta).txBuffer) := by
  cases isMeta with
  | false => rfl
  | true => rfl

theorem state_dropTx (c : Context) (isMeta : Bool) :
    c.dropTx.state isMeta = (c.state isMeta).drainTxBuffer.2 := by
  cases isMeta with
  | false => rfl
  | true => rfl

theorem get_applyTxIn (order : HashOrder) (n : Nat) {c : Context} {isMeta : Bool}
    (h : ((c.state isMeta).txBuffer.map Prod.fst).Nodup) :
    (c.applyTxIn order n).get isMeta = c.get isMeta := by
  rw [get_eq, get_eq, state_applyTxIn]
  exact ContextState.get_apply_of_perm h (order.perm n isMeta _)

end Context

section Executor

variable (executor : Executor)

/-- `executeTx` with the buffers drained in some order. -/
def executeTxIn (order : HashOrder) (n : Nat) (context : Context) (tx : FullTransaction) :
    Context × Except CommonError FullReceipt :=
  let sender := tx.tx.witness.map fun witness => executor.address witness.publicKey
  let context := { context with callEnv := { txHash := some tx.txHash } }
  match executor.dispatcher.executeCall context sender tx.tx.call with
  | (context, .error e) => (context, .error e)
  | (context, .ok (.ok result)) =>
      (context.applyTxIn order n,
        .ok
          { receipt :=
              { blockNumber := context.env.number
                events := context.events
                result := .ok result }
            txHash := tx.txHash })
  | (context, .ok (.error e)) =>
      (context.dropTx,
        .ok
          { receipt :=
              { blockNumber := context.env.number
                events := []
                result := .error e }
            txHash := tx.txHash })

/-- `executeLoop` with the buffers drained in some order. -/
def executeLoopIn (order : HashOrder) (n : Nat) (context : Context) (txsIsMeta : Option Bool) :
    List FullTransaction → Context × Except CommonError (List FullReceipt × Option Bool)
  | [] => (context, .ok ([], txsIsMeta))
  | tx :: txs =>
      match executor.dispatcher.isMeta tx.tx.call.module with
      | .error e => (context, .error e)
      | .ok isMeta =>
          if txsIsMeta.getD isMeta ≠ isMeta then
            (context, .error (.invalidTxs "Mixed meta and payload in one txs batch"))
          else
            match executor.executeTxIn order n context tx with
            | (context, .error e) => (context, .error e)
            | (context, .ok receipt) =>
                match executeLoopIn order (n + 1) context (some isMeta) txs with
                | (context, .error e) => (context, .error e)
                | (context, .ok (receipts, txsIsMeta)) =>
                    (context, .ok (receipt :: receipts, txsIsMeta))

def executeTxsIn (order : HashOrder) (context : Context) (txs : List FullTransaction) :
    Context × Except CommonError Unit :=
  match executor.executeLoopIn order 0 context none txs with
  | (context, .error e) => (context, .error e)
  | (context, .ok (receipts, txsIsMeta)) => closeTxs context txs receipts txsIsMeta

/-- The model without an order is one of the orders. -/
theorem executeTxsIn_kept (context : Context) (txs : List FullTransaction) :
    executor.executeTxsIn .kept context txs = executor.executeTxs context txs := by
  have hloop : ∀ n context txsIsMeta,
      executor.executeLoopIn .kept n context txsIsMeta txs =
        executor.executeLoop context txsIsMeta txs := by
    induction txs with
    | nil =>
        intro n context txsIsMeta
        rfl
    | cons tx txs ih =>
        intro n context txsIsMeta
        have htx : executor.executeTxIn .kept n context tx = executor.executeTx context tx := rfl
        simp only [executeLoopIn, htx, ih]
        rfl
  rw [executeTxsIn, hloop]
  rfl

end Executor

/-! ## The reference -/

namespace Modules

variable (modules : Modules) (address : PublicKey → Address) (env : ContextEnv)

/-- One transaction on a plain map. -/
def runTx (state : DBKey → Option DBValue) (tx : FullTransaction) :
    Plain × Except CommonError OpaqueCallResult :=
  let sender := tx.tx.witness.map fun witness => address witness.publicKey
  (modules.executeCall sender tx.tx.call).plain env { txHash := some tx.txHash }
    { state, events := [] }

/-- The map with the writes of the transaction if it succeeds. -/
def writeTx (state : DBKey → Option DBValue) (tx : FullTransaction) : DBKey → Option DBValue :=
  match modules.runTx address env state tx with
  | (plain, .ok (.ok _)) => plain.state
  | (_, .ok (.error _)) => state
  | (_, .error _) => state

/-- The receipt of the transaction, with its events if it succeeds. -/
def receiptTx (state : DBKey → Option DBValue) (tx : FullTransaction) :
    Except CommonError FullReceipt :=
  match modules.runTx address env state tx with
  | (plain, .ok (.ok result)) =>
      .ok
        { receipt := { blockNumber := env.number, events := plain.events, result := .ok result }
          txHash := tx.txHash }
  | (_, .ok (.error e)) =>
      .ok
        { receipt := { blockNumber := env.number, events := [], result := .error e }
          txHash := tx.txHash }
  | (_, .error e) => .error e

/-- The receipts of transactions one after the other. -/
def receiptTxs (state : DBKey → Option DBValue) :
    List FullTransaction → Except CommonError (List FullReceipt)
  | [] => .ok []
  | tx :: txs =>
      match modules.receiptTx address env state tx with
      | .error e => .error e
      | .ok receipt =>
          match receiptTxs (modules.writeTx address env state tx) txs with
          | .error e => .error e
          | .ok receipts => .ok (receipt :: receipts)

variable {modules address env}

end Modules

/-! ## The executor follows the reference -/

namespace Context

/-- Between two transactions of one kind: only the buffer of that kind has
changed. -/
structure Settled (isMeta : Bool) (c c' : Context) : Prop where
  idle : c'.Idle
  env : c'.env = c.env
  other : c'.state (!isMeta) = c.state (!isMeta)
  statedb : (c'.state isMeta).statedb = (c.state isMeta).statedb
  txs : c'.txs = c.txs
  receipts : c'.receipts = c.receipts

namespace Settled

variable {isMeta : Bool} {c c₁ c' : Context}

theorem refl (h : c.Idle) : Settled isMeta c c := ⟨h, rfl, rfl, rfl, rfl, rfl⟩

theorem trans (h : Settled isMeta c c₁) (h' : Settled isMeta c₁ c') : Settled isMeta c c' where
  idle := h'.idle
  env := h'.env.trans h.env
  other := h'.other.trans h.other
  statedb := h'.statedb.trans h.statedb
  txs := h'.txs.trans h.txs
  receipts := h'.receipts.trans h.receipts

end Settled

/-- A state whose transaction buffer is empty is not changed by draining it. -/
theorem Keeps.other_drained {isMeta : Bool} {c c₁ : Context} (hidle : c.Idle)
    (hkeeps : Keeps isMeta c c₁) {items : List (DBKey × Option DBValue)}
    (hperm : items.Perm (c₁.state (!isMeta)).txBuffer) :
    (c₁.state (!isMeta)).drainTxBuffer.2.apply items = c.state (!isMeta) := by
  have htx := hidle.txBuffer (!isMeta)
  rw [hkeeps.other, htx] at hperm
  rw [hperm.eq_nil, hkeeps.other]
  cases hstate : c.state (!isMeta) with
  | mk statedb txBuffer buffer =>
      rw [hstate] at htx
      simp only at htx
      simp [ContextState.drainTxBuffer, ContextState.apply, AssocMap.extend, htx]

theorem Keeps.settled_applyTxIn {isMeta : Bool} {c c₁ : Context} (hidle : c.Idle)
    (hkeeps : Keeps isMeta c c₁) (order : HashOrder) (n : Nat) :
    Settled isMeta c (c₁.applyTxIn order n) := by
  have hother : (c₁.applyTxIn order n).state (!isMeta) = c.state (!isMeta) := by
    rw [state_applyTxIn]
    exact hkeeps.other_drained hidle (order.perm n _ _)
  have hbuffer : ((c₁.state isMeta).buffer.map Prod.fst).Nodup := by
    rw [hkeeps.buffer]
    exact hidle.buffer isMeta
  constructor
  case idle =>
    constructor
    case txBuffer =>
      intro b
      rw [state_applyTxIn]
      rfl
    case buffer =>
      intro b
      by_cases hb : b = isMeta
      · rw [hb, state_applyTxIn]
        exact ContextState.nodup_apply hbuffer _
      · rw [Bool.eq_not.2 hb, hother]
        exact hidle.buffer _
    case events => rfl
  case env => exact hkeeps.env
  case other => exact hother
  case statedb =>
    rw [state_applyTxIn, ← hkeeps.statedb]
    rfl
  case txs => exact hkeeps.txs
  case receipts => exact hkeeps.receipts

theorem Keeps.state_dropTx {isMeta : Bool} {c c₁ : Context} (hidle : c.Idle)
    (hkeeps : Keeps isMeta c c₁) (b : Bool) : c₁.dropTx.state b = c.state b := by
  have hdrained := hidle.txBuffer b
  have hstatedb : (c₁.state b).statedb = (c.state b).statedb := by
    by_cases hb : b = isMeta
    · rw [hb, hkeeps.statedb]
    · rw [Bool.eq_not.2 hb, hkeeps.other]
  have hbuffer : (c₁.state b).buffer = (c.state b).buffer := by
    by_cases hb : b = isMeta
    · rw [hb, hkeeps.buffer]
    · rw [Bool.eq_not.2 hb, hkeeps.other]
  rw [Context.state_dropTx, ContextState.drainTxBuffer]
  cases hstate : c.state b with
  | mk statedb txBuffer buffer =>
      rw [hstate] at hdrained hstatedb hbuffer
      simp_all

theorem Keeps.settled_dropTx {isMeta : Bool} {c c₁ : Context} (hidle : c.Idle)
    (hkeeps : Keeps isMeta c c₁) : Settled isMeta c c₁.dropTx := by
  have hstate := hkeeps.state_dropTx hidle
  constructor
  case idle =>
    constructor
    case txBuffer =>
      intro b
      rw [hstate]
      exact hidle.txBuffer b
    case buffer =>
      intro b
      rw [hstate]
      exact hidle.buffer b
    case events => rfl
  case env => exact hkeeps.env
  case other => exact hstate _
  case statedb => rw [hstate]
  case txs => exact hkeeps.txs
  case receipts => exact hkeeps.receipts

theorem state_callEnv (c : Context) (callEnv : CallEnv) (isMeta : Bool) :
    ({ c with callEnv } : Context).state isMeta = c.state isMeta := by
  cases isMeta with
  | false => rfl
  | true => rfl

theorem Idle.callEnv {c : Context} (h : c.Idle) (callEnv : CallEnv) :
    ({ c with callEnv } : Context).Idle := by
  constructor
  · intro isMeta
    rw [state_callEnv, h.txBuffer]
  · intro isMeta
    rw [state_callEnv]
    exact h.buffer isMeta
  · exact h.events

theorem Settled.of_callEnv {isMeta : Bool} {c c' : Context} {callEnv : CallEnv}
    (h : Settled isMeta { c with callEnv } c') : Settled isMeta c c' := by
  obtain ⟨hidle, henv, hother, hstatedb, htxs, hreceipts⟩ := h
  rw [state_callEnv] at hother hstatedb
  exact ⟨hidle, henv, hother, hstatedb, htxs, hreceipts⟩

end Context

section Executor

variable {executor : Executor} {order : HashOrder} {isMeta : Bool} {c c' : Context}

/-- After a transaction the context is idle again. -/
theorem executeTxIn_settled (hmodular : executor.dispatcher.Modular) {n : Nat}
    {tx : FullTransaction} {receipt : FullReceipt} (hidle : c.Idle)
    (hkind : executor.dispatcher.isMeta tx.tx.call.module = .ok isMeta)
    (h : executor.executeTxIn order n c tx = (c', .ok receipt)) :
    Context.Settled isMeta c c' ∧ receipt.txHash = tx.txHash := by
  have hkeeps := hmodular { c with callEnv := { txHash := some tx.txHash } }
    (tx.tx.witness.map fun witness => executor.address witness.publicKey) tx.tx.call isMeta hkind
  rw [executeTxIn] at h
  generalize executor.dispatcher.executeCall _ _ _ = out at h hkeeps
  obtain ⟨c₁, result⟩ := out
  match result, h with
  | .error e, h => cases (Prod.mk.inj h).2
  | .ok (.ok result), h =>
      cases h
      exact ⟨(hkeeps.settled_applyTxIn (hidle.callEnv _) order n).of_callEnv, rfl⟩
  | .ok (.error e), h =>
      cases h
      exact ⟨(hkeeps.settled_dropTx (hidle.callEnv _)).of_callEnv, rfl⟩

/-- A loop that ends well ran transactions of one kind, each with its
receipt. -/
theorem executeLoopIn_settled (hmodular : executor.dispatcher.Modular) {n : Nat}
    {txs : List FullTransaction} {receipts : List FullReceipt} {txsIsMeta kind : Option Bool}
    (hidle : c.Idle) (hfirst : ∀ b ∈ txsIsMeta, b = isMeta)
    (hkind : ∀ tx ∈ txs.head?, executor.dispatcher.isMeta tx.tx.call.module = .ok isMeta)
    (h : executor.executeLoopIn order n c txsIsMeta txs = (c', .ok (receipts, kind))) :
    Context.Settled isMeta c c' ∧
      receipts.map FullReceipt.txHash = txs.map FullTransaction.txHash ∧
      (∀ tx ∈ txs, executor.dispatcher.isMeta tx.tx.call.module = .ok isMeta) ∧
      kind = if txs = [] then txsIsMeta else some isMeta := by
  induction txs generalizing n c txsIsMeta receipts with
  | nil =>
      cases h
      exact ⟨.refl hidle, rfl, nofun, rfl⟩
  | cons tx txs ih =>
      have htx := hkind tx rfl
      simp only [executeLoopIn, htx] at h
      split at h
      · cases h
      · generalize hone : executor.executeTxIn order n c tx = one at h
        obtain ⟨c₁, result⟩ := one
        cases result with
        | error e => cases h
        | ok receipt =>
            simp only at h
            generalize hrest : executor.executeLoopIn order (n + 1) c₁ (some isMeta) txs = rest
              at h
            obtain ⟨c₂, result⟩ := rest
            cases result with
            | error e => cases h
            | ok rest =>
                cases h
                have hnext : ∀ tx' ∈ txs.head?,
                    executor.dispatcher.isMeta tx'.tx.call.module = .ok isMeta := by
                  intro tx' htx'
                  obtain ⟨txs', rfl⟩ := List.head?_eq_some_iff.1 htx'
                  by_contra hne
                  simp only [executeLoopIn] at hrest
                  split at hrest
                  · cases hrest
                  · next isMeta' hisMeta =>
                    rw [hisMeta] at hne
                    have hmixed : (some isMeta).getD isMeta' ≠ isMeta' := fun heq =>
                      hne (by rw [← heq, Option.getD_some])
                    rw [if_pos hmixed] at hrest
                    cases hrest
                obtain ⟨hsettled, hhash⟩ := executeTxIn_settled hmodular hidle htx hone
                obtain ⟨hsettled', hhashes, hall, hkind'⟩ :=
                  ih hsettled.idle (fun b hb => (Option.some.inj hb).symm) hnext hrest
                refine ⟨hsettled.trans hsettled', ?_, ?_, ?_⟩
                · rw [List.map_cons, List.map_cons, hhash, hhashes]
                · intro tx' htx'
                  rcases List.mem_cons.1 htx' with rfl | htx'
                  · exact htx
                  · exact hall tx' htx'
                · simpa using hkind'

end Executor

namespace Modules

variable {modules : Modules} {address : PublicKey → Address} {order : HashOrder}
  {isMeta : Bool} {c c' : Context}

/-- One transaction on an idle context is one step of the reference. -/
theorem executeTxIn_eq {n : Nat} {tx : FullTransaction} {receipt : FullReceipt} (hidle : c.Idle)
    (hkind : modules.isMeta tx.tx.call.module = .ok isMeta)
    (h : (modules.executor address).executeTxIn order n c tx = (c', .ok receipt)) :
    Context.Settled isMeta c c' ∧
      c'.get isMeta = modules.writeTx address c.env (c.get isMeta) tx ∧
      modules.receiptTx address c.env (c.get isMeta) tx = .ok receipt := by
  refine ⟨(Executor.executeTxIn_settled modules.modular hidle hkind h).1, ?_⟩
  obtain ⟨start, hstart⟩ : ∃ start : Context,
      start = { c with callEnv := { txHash := some tx.txHash } } := ⟨_, rfl⟩
  obtain ⟨program, hprogram⟩ : ∃ program, program = modules.executeCall
      (tx.tx.witness.map fun witness => address witness.publicKey) tx.tx.call := ⟨_, rfl⟩
  have hstate : ∀ b, start.state b = c.state b := by
    rw [hstart]
    exact c.state_callEnv _
  have hidle' : start.Idle := by
    rw [hstart]
    exact hidle.callEnv _
  have hplain : start.plain isMeta = { state := c.get isMeta, events := [] } := by
    rw [Context.plain, Context.get_eq, Context.get_eq, hstate, hidle'.events]
  have hkeeps := program.run_keeps isMeta start
  have hrun : modules.runTx address c.env (c.get isMeta) tx =
      ((program.run isMeta start).1.plain isMeta, (program.run isMeta start).2) := by
    rw [program.run_plain isMeta start, hplain, runTx, hprogram, hstart]
  have hcall : (modules.executor address).dispatcher.executeCall start
      (tx.tx.witness.map fun witness => (modules.executor address).address witness.publicKey)
      tx.tx.call = program.run isMeta start := by
    simp only [executor, dispatcher, hkind, hprogram]
  have henv : (program.run isMeta start).1.env = c.env := by
    rw [hkeeps.env, hstart]
  have hnodup : (((program.run isMeta start).1.state isMeta).txBuffer.map Prod.fst).Nodup := by
    apply hkeeps.nodup
    rw [hidle'.txBuffer]
    exact List.nodup_nil
  rw [Executor.executeTxIn, ← hstart, hcall] at h
  rw [writeTx, receiptTx, hrun]
  generalize program.run isMeta start = out at h hkeeps henv hnodup ⊢
  obtain ⟨c₁, result⟩ := out
  cases result with
  | error e => cases (Prod.mk.inj h).2
  | ok answer =>
      cases answer with
      | ok result =>
          obtain ⟨rfl, hreceipt⟩ := Prod.mk.inj h
          rw [henv] at hreceipt
          exact ⟨Context.get_applyTxIn order n hnodup, hreceipt⟩
      | error e =>
          obtain ⟨rfl, hreceipt⟩ := Prod.mk.inj h
          rw [henv] at hreceipt
          refine ⟨?_, hreceipt⟩
          rw [Context.get_eq, Context.get_eq, hkeeps.state_dropTx hidle', hstate]

theorem executeLoopIn_eq {n : Nat} {txs : List FullTransaction} {receipts : List FullReceipt}
    {txsIsMeta kind : Option Bool} (hidle : c.Idle)
    (hkind : ∀ tx ∈ txs, modules.isMeta tx.tx.call.module = .ok isMeta)
    (h : (modules.executor address).executeLoopIn order n c txsIsMeta txs =
      (c', .ok (receipts, kind))) :
    c'.get isMeta = txs.foldl (modules.writeTx address c.env) (c.get isMeta) ∧
      modules.receiptTxs address c.env (c.get isMeta) txs = .ok receipts := by
  induction txs generalizing n c txsIsMeta receipts with
  | nil =>
      cases h
      exact ⟨rfl, rfl⟩
  | cons tx txs ih =>
      have htx := hkind tx List.mem_cons_self
      have hmeta : (modules.executor address).dispatcher.isMeta tx.tx.call.module =
          .ok isMeta := htx
      simp only [Executor.executeLoopIn, hmeta] at h
      split at h
      · cases h
      · generalize hone : (modules.executor address).executeTxIn order n c tx = one at h
        obtain ⟨c₁, result⟩ := one
        cases result with
        | error e => cases h
        | ok receipt =>
            simp only at h
            generalize hrest : (modules.executor address).executeLoopIn order (n + 1) c₁
              (some isMeta) txs = rest at h
            obtain ⟨c₂, result⟩ := rest
            cases result with
            | error e => cases h
            | ok rest =>
                cases h
                obtain ⟨hsettled, hget, hreceipt⟩ := executeTxIn_eq hidle htx hone
                obtain ⟨hget', hreceipts⟩ :=
                  ih hsettled.idle (fun tx htx => hkind tx (List.mem_cons_of_mem _ htx)) hrest
                rw [hsettled.env, hget] at hget' hreceipts
                refine ⟨hget', ?_⟩
                rw [receiptTxs, hreceipt]
                simp only [hreceipts]

end Modules

section Executor

variable {executor : Executor} {order : HashOrder} {c c' : Context}

/-- What the end of a batch puts into the context. -/
theorem closeTxs_eq_ok {txs : List FullTransaction} {receipts : List FullReceipt} {isMeta : Bool}
    (h : closeTxs c txs receipts (some isMeta) = (c', .ok ())) :
    c'.state = c.state ∧ c'.txs isMeta = c.txs isMeta ++ txs ∧
      c'.txs (!isMeta) = c.txs (!isMeta) ∧ c'.receipts isMeta = c.receipts isMeta ++ receipts ∧
      c'.receipts (!isMeta) = c.receipts (!isMeta) := by
  cases isMeta with
  | false =>
      cases h
      exact ⟨rfl, rfl, rfl, rfl, rfl⟩
  | true =>
      rw [closeTxs] at h
      split at h
      · cases h
      · cases h
        exact ⟨rfl, rfl, rfl, rfl, rfl⟩

/-- What a batch of one kind leaves in the context. -/
structure Batched (executor : Executor) (isMeta : Bool) (c c' : Context)
    (txs : List FullTransaction) (receipts : List FullReceipt) : Prop where
  kind : ∀ tx ∈ txs, executor.dispatcher.isMeta tx.tx.call.module = .ok isMeta
  other : c'.state (!isMeta) = c.state (!isMeta)
  appended : c'.txs isMeta = c.txs isMeta ++ txs
  otherTxs : c'.txs (!isMeta) = c.txs (!isMeta)
  appendedReceipts : c'.receipts isMeta = c.receipts isMeta ++ receipts
  otherReceipts : c'.receipts (!isMeta) = c.receipts (!isMeta)
  txHash : receipts.map FullReceipt.txHash = txs.map FullTransaction.txHash

theorem batched_of_loop (hmodular : executor.dispatcher.Modular) {isMeta : Bool}
    {txs : List FullTransaction} {receipts : List FullReceipt} {kind : Option Bool}
    {c₁ : Context} (hidle : c.Idle)
    (hkind : ∀ tx ∈ txs.head?, executor.dispatcher.isMeta tx.tx.call.module = .ok isMeta)
    (hloop : executor.executeLoopIn order 0 c none txs = (c₁, .ok (receipts, kind)))
    (hclose : closeTxs c₁ txs receipts kind = (c', .ok ())) :
    executor.Batched isMeta c c' txs receipts ∧ c'.state = c₁.state := by
  obtain ⟨hsettled, htxHash, hall, hkind'⟩ :=
    executeLoopIn_settled hmodular hidle (by simp) hkind hloop
  by_cases hnil : txs = []
  · subst hnil
    cases hloop
    cases hclose
    have hsame : ∀ {α : Type} (l : List α), l = l ++ [] := fun l => (List.append_nil l).symm
    exact ⟨⟨nofun, rfl, hsame _, rfl, hsame _, rfl, rfl⟩, rfl⟩
  · rw [hkind', if_neg hnil] at hclose
    obtain ⟨hstate, htxs, hotherTxs, hreceipts, hotherReceipts⟩ := closeTxs_eq_ok hclose
    rw [hsettled.txs] at htxs hotherTxs
    rw [hsettled.receipts] at hreceipts hotherReceipts
    have hother : c'.state (!isMeta) = c.state (!isMeta) := by
      rw [hstate, hsettled.other]
    exact ⟨⟨hall, hother, htxs, hotherTxs, hreceipts, hotherReceipts, htxHash⟩, hstate⟩

/-- A batch that is executed has one kind, that of its first transaction. -/
theorem executeTxs_eq_ok (hmodular : executor.dispatcher.Modular) {txs : List FullTransaction}
    (hidle : c.Idle) (h : executor.executeTxs c txs = (c', .ok ())) :
    ∃ isMeta receipts, executor.Batched isMeta c c' txs receipts ∧
      ∀ tx ∈ txs.head?, executor.dispatcher.isMeta tx.tx.call.module = .ok isMeta := by
  rw [← executeTxsIn_kept, executeTxsIn] at h
  generalize hloop : executor.executeLoopIn .kept 0 c none txs = out at h
  obtain ⟨c₁, result⟩ := out
  cases result with
  | error e => cases h
  | ok result =>
      obtain ⟨receipts, kind⟩ := result
      have hfirst : ∃ isMeta, ∀ tx ∈ txs.head?,
          executor.dispatcher.isMeta tx.tx.call.module = .ok isMeta := by
        cases txs with
        | nil => exact ⟨true, nofun⟩
        | cons tx txs =>
            simp only [executeLoopIn] at hloop
            split at hloop
            · cases hloop
            · next isMeta hisMeta =>
              refine ⟨isMeta, fun tx' htx' => ?_⟩
              obtain rfl := Option.some.inj htx'
              exact hisMeta
      obtain ⟨isMeta, hfirst⟩ := hfirst
      exact ⟨isMeta, receipts, (batched_of_loop hmodular hidle hfirst hloop h).1, hfirst⟩

/-! The lists of transactions, on a context that need not be idle. -/

theorem executeTx_txs (hmodular : executor.dispatcher.Modular) {isMeta : Bool}
    {tx : FullTransaction} {receipt : FullReceipt}
    (hkind : executor.dispatcher.isMeta tx.tx.call.module = .ok isMeta)
    (h : executor.executeTx c tx = (c', .ok receipt)) : c'.txs = c.txs := by
  simp only [executeTx] at h
  have hkeeps := hmodular { c with callEnv := { txHash := some tx.txHash } }
    (tx.tx.witness.map fun witness => executor.address witness.publicKey) tx.tx.call isMeta hkind
  generalize executor.dispatcher.executeCall _ _ _ = out at h hkeeps
  obtain ⟨c₁, result⟩ := out
  have htxs : c₁.txs = c.txs := hkeeps.txs
  match result, h with
  | .error e, h => cases (Prod.mk.inj h).2
  | .ok (.ok result), h =>
      obtain ⟨rfl, -⟩ := Prod.mk.inj h
      exact htxs
  | .ok (.error e), h =>
      obtain ⟨rfl, -⟩ := Prod.mk.inj h
      exact htxs

theorem executeLoop_txs (hmodular : executor.dispatcher.Modular) {isMeta : Bool}
    {txs : List FullTransaction} {receipts : List FullReceipt} {txsIsMeta kind : Option Bool}
    (hkind : ∀ tx ∈ txs, executor.dispatcher.isMeta tx.tx.call.module = .ok isMeta)
    (h : executor.executeLoop c txsIsMeta txs = (c', .ok (receipts, kind))) :
    c'.txs = c.txs ∧ kind = if txs = [] then txsIsMeta else some isMeta := by
  induction txs generalizing c txsIsMeta receipts with
  | nil =>
      cases h
      exact ⟨rfl, rfl⟩
  | cons tx txs ih =>
      have htx := hkind tx List.mem_cons_self
      simp only [executeLoop, htx] at h
      split at h
      · cases h
      · generalize hone : executor.executeTx c tx = one at h
        obtain ⟨c₁, result⟩ := one
        cases result with
        | error e => cases h
        | ok receipt =>
            simp only at h
            generalize hrest : executor.executeLoop c₁ (some isMeta) txs = rest at h
            obtain ⟨c₂, result⟩ := rest
            cases result with
            | error e => cases h
            | ok rest =>
                cases h
                obtain ⟨htxs, hlast⟩ :=
                  ih (fun tx htx => hkind tx (List.mem_cons_of_mem _ htx)) hrest
                rw [executeTx_txs hmodular htx hone] at htxs
                refine ⟨htxs, ?_⟩
                rw [hlast, if_neg (List.cons_ne_nil _ _), ite_self]

theorem executeTxs_txs (hmodular : executor.dispatcher.Modular) {isMeta : Bool}
    {txs : List FullTransaction}
    (hkind : ∀ tx ∈ txs, executor.dispatcher.isMeta tx.tx.call.module = .ok isMeta)
    (h : executor.executeTxs c txs = (c', .ok ())) :
    c'.txs isMeta = c.txs isMeta ++ txs ∧ c'.txs (!isMeta) = c.txs (!isMeta) := by
  unfold executeTxs at h
  generalize hloop : executor.executeLoop c none txs = out at h
  obtain ⟨c₁, result⟩ := out
  cases result with
  | error e => cases h
  | ok result =>
      obtain ⟨receipts, kind⟩ := result
      obtain ⟨htxs, rfl⟩ := executeLoop_txs hmodular hkind hloop
      by_cases hnil : txs = []
      · rw [if_pos hnil] at h
        cases h
        rw [hnil, List.append_nil, htxs]
        exact ⟨rfl, rfl⟩
      · rw [if_neg hnil] at h
        obtain ⟨-, happended, hother, -, -⟩ := closeTxs_eq_ok h
        rw [happended, hother, htxs]
        exact ⟨rfl, rfl⟩

end Executor

namespace Modules

variable {modules : Modules} {address : PublicKey → Address} {order : HashOrder}
  {isMeta : Bool} {c c' : Context}

/-- The update of a drained state is the state as it is read, less its empty
values. -/
theorem get_update_of_drained {s : ContextState} (h : s.txBuffer = [])
    (hnodup : (s.buffer.map Prod.fst).Nodup) {base : StateMap}
    (hbase : s.statedb = base.entries) (key : DBKey) :
    (base.update s.buffer).get key = StateMap.trieValue (s.get key) := by
  rw [base.get_update hnodup, s.get_of_drained h, hbase]
  rfl

/-- A batch of one kind is the left fold of the writes of its transactions, in
whatever order the entries of the hash maps come out. The trie of the update
has this map without its empty values, so the map itself if it has none. -/
theorem executeTxsIn_eq_fold (stateRoot : StateMap → Hash) {txs : List FullTransaction}
    (hidle : c.Idle) (hkind : ∀ tx ∈ txs, modules.isMeta tx.tx.call.module = .ok isMeta)
    (h : (modules.executor address).executeTxsIn order c txs = (c', .ok ())) :
    c'.get isMeta = txs.foldl (modules.writeTx address c.env) (c.get isMeta) ∧
    c'.state (!isMeta) = c.state (!isMeta) ∧
    (∀ base : StateMap, (c.state isMeta).statedb = base.entries →
      ∃ m : StateMap,
        (∀ key, m.get key = StateMap.trieValue
          (txs.foldl (modules.writeTx address c.env) (c.get isMeta) key)) ∧
        (m.get = txs.foldl (modules.writeTx address c.env) (c.get isMeta) ↔
          ∀ key, txs.foldl (modules.writeTx address c.env) (c.get isMeta) key ≠ some []) ∧
        ∀ data, data.Perm (c'.state isMeta).buffer →
          prepareUpdate stateRoot base data = (stateRoot m, m)) ∧
    ∃ receipts, modules.receiptTxs address c.env (c.get isMeta) txs = .ok receipts ∧
      receipts.map FullReceipt.txHash = txs.map FullTransaction.txHash ∧
      c'.receipts isMeta = c.receipts isMeta ++ receipts ∧
      c'.receipts (!isMeta) = c.receipts (!isMeta) := by
  rw [Executor.executeTxsIn] at h
  generalize hloop : (modules.executor address).executeLoopIn order 0 c none txs = out at h
  obtain ⟨c₁, result⟩ := out
  cases result with
  | error e => cases h
  | ok result =>
      obtain ⟨receipts, kind⟩ := result
      have hfirst : ∀ tx ∈ txs.head?,
          (modules.executor address).dispatcher.isMeta tx.tx.call.module = .ok isMeta :=
        fun tx htx => hkind tx (List.mem_of_mem_head? htx)
      obtain ⟨hget, hreceipts⟩ := executeLoopIn_eq hidle hkind hloop
      have hsettled :=
        (Executor.executeLoopIn_settled modules.modular hidle (by simp) hfirst hloop).1
      obtain ⟨hbatched, hstate⟩ :=
        Executor.batched_of_loop modules.modular hidle hfirst hloop h
      have hget' : c'.get isMeta =
          txs.foldl (modules.writeTx address c.env) (c.get isMeta) := by
        rw [← hget, Context.get_eq, Context.get_eq, hstate]
      refine ⟨hget', hbatched.other, ?_, receipts, hreceipts, hbatched.txHash,
        hbatched.appendedReceipts, hbatched.otherReceipts⟩
      intro base hbase
      have hnodup := hsettled.idle.buffer isMeta
      have hupdate : ∀ key, (base.update (c₁.state isMeta).buffer).get key =
          StateMap.trieValue (txs.foldl (modules.writeTx address c.env) (c.get isMeta) key) := by
        intro key
        rw [get_update_of_drained (hsettled.idle.txBuffer isMeta) hnodup
          (hsettled.statedb.trans hbase), ← hget, Context.get_eq]
      refine ⟨base.update (c₁.state isMeta).buffer, hupdate, ?_, fun data hperm => ?_⟩
      · rw [funext_iff]
        refine forall_congr' fun key => ?_
        rw [hupdate, StateMap.trieValue_eq_self_iff]
      · rw [hstate] at hperm
        rw [prepareUpdate, base.update_perm hnodup hperm]

end Modules

/-! A payload module with entries of one byte: `put` writes an entry and emits
its value, `clear` writes an empty value, as `storage_write` does with the
length 0, `remove` deletes an entry, and `fail` deletes it and then fails. -/

namespace Sample

def entry (method : String) (key value : UInt8) :
    Program (Except CommonError OpaqueCallResult) :=
  match method with
  | "put" => .set [key] (some [value]) (.emitEvent (.raw [value]) (.done (.ok (.ok []))))
  | "clear" => .set [key] (some []) (.done (.ok (.ok [])))
  | "remove" => .set [key] none (.done (.ok (.ok [])))
  | _ => .set [key] none (.emitEvent (.raw [key]) (.done (.ok (.error "Failed"))))

def entries : Modules where
  isMeta := fun _ => .ok false
  validateCall := fun _ _ => .done (.ok (.ok ()))
  isWriteCall := fun _ => .ok true
  executeCall := fun _ call =>
    match call.params with
    | [key, value] => entry call.method key value
    | _ => .done (.error .codec)

def address (publicKey : PublicKey) : Address := ⟨publicKey.bytes⟩

def entryTx (hash : UInt8) (method : String) (key value : UInt8) : FullTransaction where
  tx := { witness := none, call := { module := "entries", method, params := [key, value] } }
  txHash := ⟨[hash]⟩

/-- Put twice, deleted, put again, and a transaction that fails. -/
def entryTxs : List FullTransaction :=
  [entryTx 0 "put" 1 5, entryTx 1 "put" 2 6, entryTx 2 "remove" 1 0, entryTx 3 "fail" 2 0,
    entryTx 4 "put" 1 7, entryTx 5 "remove" 3 0]

def base : StateMap := StateMap.empty.put [3] (some [9])

def context : Context := .new { number := 1, timestamp := 0 } [] base.entries

/-- Hash maps that come out last entry first. -/
def reversed : HashOrder where
  iter _ _ buffer := buffer.reverse
  perm _ _ buffer := buffer.reverse_perm

def executed : Context × Except CommonError Unit :=
  (entries.executor address).executeTxsIn reversed context entryTxs

/-- A new entry with an empty value. -/
def cleared : Context × Except CommonError Unit :=
  (entries.executor address).executeTxsIn reversed context [entryTx 0 "clear" 1 0]

end Sample

namespace Modules

theorem executeTxsIn_eq_fold_entries :
    Sample.executed.1.get false =
      Sample.entryTxs.foldl (Sample.entries.writeTx Sample.address Sample.context.env)
        (Sample.context.get false) ∧
    (Sample.executed.1.get false [1], Sample.executed.1.get false [2],
      Sample.executed.1.get false [3]) = (some [7], some [6], none) := by
  have hkind : ∀ tx ∈ Sample.entryTxs, Sample.entries.isMeta tx.tx.call.module = .ok false :=
    fun _ _ => rfl
  have hok : (Sample.entries.executor Sample.address).executeTxsIn Sample.reversed Sample.context
      Sample.entryTxs = (Sample.executed.1, .ok ()) := rfl
  have h := executeTxsIn_eq_fold (fun _ => ⟨[]⟩) (Context.idle_new _ _ _) hkind hok
  exact ⟨h.1, by decide⟩

/-- An empty value is an entry of the fold and is read back from the context;
the update of the trie has no such key. -/
theorem update_ne_fold_cleared :
    Sample.cleared.2 = .ok () ∧
    [Sample.entryTx 0 "clear" 1 0].foldl (Sample.entries.writeTx Sample.address Sample.context.env)
      (Sample.context.get false) [1] = some [] ∧
    Sample.cleared.1.get false [1] = some [] ∧
    (prepareUpdate (fun _ => ⟨[]⟩) Sample.base (Sample.cleared.1.state false).buffer).2.get [1] =
      none :=
  ⟨rfl, by decide, by decide, by decide⟩

end Modules

end Finastate.Executor
