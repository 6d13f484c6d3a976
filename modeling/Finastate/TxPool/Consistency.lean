import Finastate.TxPool.Pool

/-!
# The map, the buffer and the queue

A transaction that is in the map is sent to the buffer by the call that put it
there, and a removal takes it from the queue before it takes it from the map.
Between these steps the transaction is in the map only. A removal does not look
into the buffer, so `Run.queue_consistent` speaks of removals that find the
transactions of their set no longer on the way to the queue. When the receiver
of the buffer is dropped, what is in the buffer is lost, and insertions take
back what they can no longer send.
-/

namespace Finastate.TxPool

def hashes (txs : List FullTransaction) : List Hash := txs.map FullTransaction.txHash

@[simp] theorem hashes_nil : hashes [] = [] := rfl

@[simp] theorem hashes_singleton (poolTx : FullTransaction) : hashes [poolTx] = [poolTx.txHash] :=
  rfl

@[simp] theorem hashes_append (txs txs' : List FullTransaction) :
    hashes (txs ++ txs') = hashes txs ++ hashes txs' := List.map_append

namespace Call

/-- What is in the map and is sent to the buffer next. -/
def sending : Call → List FullTransaction
  | .bufferSend poolTx => [poolTx]
  | _ => []

/-- What could not be sent and is taken back next. -/
def takingBack : Call → List Hash
  | .mapRemove txHash => [txHash]
  | _ => []

theorem eq_of_mem_takingBack {call : Call} {h : Hash} (hmem : h ∈ call.takingBack) :
    call = .mapRemove h := by
  cases call with
  | mapRemove txHash => rw [List.mem_singleton.1 hmem]
  | _ => cases hmem

/-- What the call has put into the map and not yet passed on. -/
def holding (call : Call) : List Hash := hashes call.sending ++ call.takingBack

/-- What is taken from the map next. -/
def retaining : Call → List Hash
  | .mapRetain txHashSet => txHashSet
  | _ => []

/-- A step of such a call changes neither the buffer nor the hashes of the map, unless it
inserts. -/
def Quiet : Call → Prop
  | .bufferSend _ | .mapRemove _ | .mapRetain _ => False
  | _ => True

theorem Quiet.holding_eq {call : Call} (h : call.Quiet) : call.holding = [] := by
  cases call <;> first | rfl | exact h.elim

theorem Quiet.retaining_eq {call : Call} (h : call.Quiet) : call.retaining = [] := by
  cases call <;> first | rfl | exact h.elim

theorem holding_bufferSend (poolTx : FullTransaction) :
    (bufferSend poolTx).holding = [poolTx.txHash] := rfl

theorem holding_mapRemove (txHash : Hash) : (mapRemove txHash).holding = [txHash] := rfl

theorem holding_mapInsert (poolTx : FullTransaction) : (mapInsert poolTx).holding = [] := rfl

theorem holding_onTxInserted (txHash : Hash) : (onTxInserted txHash).holding = [] := rfl

theorem holding_queueRetain (txHashSet : List Hash) : (queueRetain txHashSet).holding = [] := rfl

theorem holding_mapRetain (txHashSet : List Hash) : (mapRetain txHashSet).holding = [] := rfl

theorem holding_done (result : Except ErrorKind Unit) : (done result).holding = [] := rfl

theorem quiet_andThen {next : Call} (result : Except ErrorKind Unit) (h : next.Quiet) :
    (andThen result next).Quiet := by
  cases result with
  | error e => trivial
  | ok u => exact h

/-- What the steps of a call do. -/
inductive Turn (p : Pool) : Call → Pool × Call → Prop
  | quiet {call next : Call} {p' : Pool} (hcall : call.Quiet) (hnext : next.Quiet)
      (hkeys : ∀ h, h ∈ p'.map.keys ↔ h ∈ p.map.keys) (hqueue : p'.queue = p.queue)
      (hbuffer : p'.buffer = p.buffer) (hreceiving : p'.receiving = p.receiving)
      (hcapacity : p'.poolCapacity = p.poolCapacity) : Turn p call (p', next)
  | mapInsert {poolTx : FullTransaction} (hnew : poolTx.txHash ∉ p.map.keys) :
      Turn p (.mapInsert poolTx)
        ({ p with map := p.map.insert poolTx.txHash poolTx }, .bufferSend poolTx)
  | bufferSend {poolTx : FullTransaction} (hreceiving : p.receiving = true) :
      Turn p (.bufferSend poolTx)
        ({ p with buffer := p.buffer ++ [poolTx] }, .onTxInserted poolTx.txHash)
  | bufferFail {poolTx : FullTransaction} (hreceiving : p.receiving = false) :
      Turn p (.bufferSend poolTx) (p, .mapRemove poolTx.txHash)
  | mapRemove {txHash : Hash} :
      Turn p (.mapRemove txHash) (p.mapRemove txHash, .done (.error .channel))
  | queueRetain {txHashSet : List Hash} :
      Turn p (.queueRetain txHashSet) (p.queueRetain txHashSet, .mapRetain txHashSet)
  | mapRetain {txHashSet : List Hash} :
      Turn p (.mapRetain txHashSet) (p.mapRetain txHashSet, .done (.ok ()))

theorem Turn.same {p : Pool} {call next : Call} (hcall : call.Quiet) (hnext : next.Quiet) :
    Turn p call (p, next) :=
  .quiet hcall hnext (fun _ => Iff.rfl) rfl rfl rfl rfl

theorem Turn.receiving_eq {p : Pool} {call : Call} {next : Pool × Call}
    (hturn : Turn p call next) : next.1.receiving = p.receiving := by
  cases hturn with
  | quiet _ _ _ _ _ hreceiving _ => exact hreceiving
  | mapInsert _ | bufferSend _ | bufferFail _ | mapRemove | queueRetain | mapRetain => rfl

theorem turn_advance (support : Support) (p : Pool) (call : Call) :
    Turn p call (call.advance support p) := by
  cases call with
  | checkCapacity tx => exact .same trivial (quiet_andThen _ trivial)
  | checkPoolExist tx =>
      rw [advance]
      split
      · exact .same trivial trivial
      · exact .same trivial (quiet_andThen _ trivial)
  | validateTransaction poolTx => exact .same trivial (quiet_andThen _ trivial)
  | mapInsert poolTx =>
      by_cases hmem : poolTx.txHash ∈ p.map.keys
      · have hcontain : p.contain poolTx.txHash = true := LinkedMap.contains_iff.2 hmem
        simp only [advance, Pool.mapInsert, hcontain]
        refine .quiet trivial trivial (fun h => ?_) rfl rfl rfl rfl
        rw [LinkedMap.mem_keys_insert]
        constructor
        · rintro (h | rfl)
          · exact h
          · exact hmem
        · exact Or.inl
      · have hcontain : p.contain poolTx.txHash = false := by
          simpa [Pool.contain, LinkedMap.contains] using hmem
        simp only [advance, Pool.mapInsert, hcontain]
        exact .mapInsert hmem
  | bufferSend poolTx =>
      by_cases hreceiving : p.receiving = true
      · simp only [advance, Pool.bufferSend, if_pos hreceiving]
        exact .bufferSend hreceiving
      · simp only [advance, Pool.bufferSend, if_neg hreceiving]
        exact .bufferFail (eq_false_of_ne_true hreceiving)
  | mapRemove txHash => exact .mapRemove
  | onTxInserted txHash =>
      simp only [advance, Pool.onTxInserted]
      cases p.listening with
      | true => exact .quiet trivial trivial (fun _ => Iff.rfl) rfl rfl rfl rfl
      | false => exact .same trivial trivial
  | queueRetain txHashSet => exact .queueRetain
  | mapRetain txHashSet => exact .mapRetain
  | done result => exact .same trivial trivial

end Call

namespace World

/-- The hashes in the queue, in the buffer and in the hands of an insertion. -/
def held (w : World) : List Hash :=
  hashes w.pool.queue ++ hashes w.pool.buffer ++ w.tasks.flatMap fun t => t.call.holding

theorem mem_held {w : World} {h : Hash} : h ∈ w.held ↔ 0 < w.held.count h :=
  List.count_pos_iff.symm

def retaining (w : World) : List Hash := w.tasks.flatMap fun t => t.call.retaining

section Advance

variable {w : World} {i : Nat} {task : Task} (support : Support)

/-- The tasks around the one that takes a step. -/
theorem exists_tasks (htask : w.tasks[i]? = some task) :
    ∃ l r, w.tasks = l ++ task :: r ∧ ∀ t, w.tasks.set i t = l ++ t :: r := by
  obtain ⟨hi, hget⟩ := List.getElem?_eq_some_iff.1 htask
  refine ⟨w.tasks.take i, w.tasks.drop (i + 1), ?_, fun t => ?_⟩
  · rw [← hget, List.getElem_cons_drop, List.take_append_drop]
  · rw [List.set_eq_take_append_cons_drop, if_pos hi]

theorem count_held_advance (htask : w.tasks[i]? = some task) (h : Hash) :
    (w.advance support i task).held.count h + (hashes w.pool.queue).count h +
        (hashes w.pool.buffer).count h + task.call.holding.count h =
      w.held.count h + (hashes (task.call.advance support w.pool).1.queue).count h +
        (hashes (task.call.advance support w.pool).1.buffer).count h +
          (task.call.advance support w.pool).2.holding.count h := by
  obtain ⟨l, r, hl, hset⟩ := exists_tasks htask
  simp only [held, advance, hset]
  simp only [hl, List.flatMap_append, List.flatMap_cons, List.count_append]
  omega

theorem mem_retaining_advance (htask : w.tasks[i]? = some task) {h : Hash}
    (hmem : h ∈ w.retaining) :
    h ∈ (w.advance support i task).retaining ∨ h ∈ task.call.retaining := by
  obtain ⟨l, r, hl, hset⟩ := exists_tasks htask
  simp only [retaining, advance, hset]
  simp only [retaining, hl, List.flatMap_append, List.flatMap_cons, List.mem_append] at hmem ⊢
  tauto

theorem mem_retaining_advance_of_next (htask : w.tasks[i]? = some task) {h : Hash}
    (hmem : h ∈ (task.call.advance support w.pool).2.retaining) :
    h ∈ (w.advance support i task).retaining := by
  obtain ⟨l, r, hl, hset⟩ := exists_tasks htask
  simp only [retaining, advance, hset, List.flatMap_append, List.flatMap_cons, List.mem_append]
  exact Or.inr (Or.inl hmem)

end Advance

/-- Every event but an advance leaves what is held and what the map has. -/
theorem held_start (w : World) (call : Call) (hcall : call.Quiet) :
    ({ w with tasks := w.tasks ++ [.start call] } : World).held = w.held := by
  simp [held, Task.start, hcall.holding_eq]

theorem held_drain (w : World) : ({ w with pool := w.pool.drain } : World).held = w.held := by
  unfold Pool.drain
  split
  · next poolTx buffer hbuffer => simp [held, hbuffer, hashes]
  · rfl

/-! ## All runs -/

/-- As long as the buffer has a receiver, nothing is lost and no insertion is taken back. -/
structure Connected (w : World) : Prop where
  lost : w.pool.receiving = true → w.lost = []
  mapRemove : w.pool.receiving = true → ∀ task ∈ w.tasks, ∀ h, task.call ≠ .mapRemove h

/-- The queue and the buffer have the order of the sends, and a hash of the map is in one of
them, or a call is going to send it, to take it back or to take it from the map, or it was lost. -/
structure Placed (w : World) : Prop where
  order : (w.pool.queue ++ w.pool.buffer).Sublist w.sent
  placed : ∀ h ∈ w.pool.map.keys, h ∈ w.held ∨ h ∈ w.retaining ∨ h ∈ hashes w.lost

/-- No hash is held twice, what is held is in the map, and what was removed is not. -/
structure Settled (w : World) : Prop where
  once : ∀ h, w.held.count h ≤ 1
  known : ∀ h ∈ w.held, h ∈ w.pool.map.keys
  gone : ∀ h ∈ w.removed, h ∉ w.pool.map.keys

/-- A removal takes from the map what is neither queued nor on the way to the queue. -/
def Clear (w : World) : Event → Prop
  | .advance i _ => ∀ task ∈ w.tasks[i]?, ∀ h ∈ task.call.retaining, h ∉ w.held
  | _ => True

instance (w : World) : ∀ event, Decidable (Clear w event)
  | .advance i _ =>
      inferInstanceAs (Decidable (∀ task ∈ w.tasks[i]?, ∀ h ∈ task.call.retaining, h ∉ w.held))
  | .insert _ | .remove _ | .drain | .stopReceiving | .stopListening => .isTrue trivial

section Advance

variable {w : World} {i : Nat} {task : Task} (support : Support)

theorem advance_pool :
    (w.advance support i task).pool = (task.call.advance support w.pool).1 := rfl

theorem Connected.advance (hw : Connected w) (htask : w.tasks[i]? = some task) :
    Connected (w.advance support i task) := by
  have hturn := Call.turn_advance support w.pool task.call
  have hsame : (w.advance support i task).pool.receiving = w.pool.receiving := hturn.receiving_eq
  refine ⟨fun hreceiving => hw.lost (hsame ▸ hreceiving), fun hreceiving t ht => ?_⟩
  have hmapRemove := hw.mapRemove (hsame ▸ hreceiving)
  have hcall := hmapRemove task (List.mem_of_getElem? htask)
  rcases List.mem_or_eq_of_mem_set ht with h | rfl
  · exact hmapRemove t h
  · rw [hsame] at hreceiving
    generalize task.call.advance support w.pool = next at hturn
    generalize task.call = call at hturn hcall
    cases hturn with
    | quiet _ hnext _ _ _ _ _ => exact fun h heq => (heq ▸ hnext : (Call.mapRemove h).Quiet)
    | bufferFail hfailed => exact absurd hreceiving (by simp [hfailed])
    | mapRemove => exact absurd rfl (hcall _)
    | mapInsert _ | bufferSend _ | queueRetain | mapRetain => exact nofun

theorem hashes_queueRetain (p : Pool) (txHashSet : List Hash) :
    hashes (p.queueRetain txHashSet).queue = (hashes p.queue).filter (· ∉ txHashSet) := by
  simp only [hashes, Pool.queueRetain, List.filter_map]
  rfl

/-- What was placed is placed unless the call takes it from the map. -/
theorem placed_of_le (htask : w.tasks[i]? = some task) {h : Hash}
    (hplaced : h ∈ w.held ∨ h ∈ w.retaining ∨ h ∈ hashes w.lost)
    (hle : w.held.count h ≤ (w.advance support i task).held.count h)
    (hnot : h ∉ task.call.retaining) :
    h ∈ (w.advance support i task).held ∨ h ∈ (w.advance support i task).retaining ∨
      h ∈ hashes (w.advance support i task).lost := by
  rcases hplaced with hheld | hretaining | hlost
  · exact Or.inl (mem_held.2 (Nat.lt_of_lt_of_le (mem_held.1 hheld) hle))
  · exact Or.inr (Or.inl ((mem_retaining_advance support htask hretaining).resolve_right hnot))
  · exact Or.inr (Or.inr hlost)

theorem Placed.sublist_advance (hw : Placed w) :
    ((w.advance support i task).pool.queue ++ (w.advance support i task).pool.buffer).Sublist
      (w.advance support i task).sent := by
  have hturn := Call.turn_advance support w.pool task.call
  have horder := hw.order
  have hsent : (w.advance support i task).sent = sentAfter w.sent w.pool task.call := rfl
  rw [hsent, advance_pool]
  generalize task.call.advance support w.pool = next at hturn
  generalize task.call = call at hturn
  cases hturn with
  | quiet hcall' _ _ hqueue hbuffer _ _ =>
      rw [hqueue, hbuffer]
      cases call <;> first | exact horder | exact hcall'.elim
  | mapInsert _ | mapRemove | mapRetain => exact horder
  | bufferSend hreceiving =>
      simp only [sentAfter, hreceiving, if_true, ← List.append_assoc]
      exact horder.append_right _
  | bufferFail hreceiving =>
      simp only [sentAfter, hreceiving, Bool.false_eq_true, if_false]
      exact horder
  | queueRetain => exact (List.filter_sublist.append_right _).trans horder

theorem Placed.advance (hw : Placed w) (htask : w.tasks[i]? = some task) :
    Placed (w.advance support i task) := by
  refine ⟨hw.sublist_advance support, fun h hmem => ?_⟩
  have hturn := Call.turn_advance support w.pool task.call
  have hcount := count_held_advance support htask h
  have hkeep := placed_of_le support htask (h := h)
  have hnext := mem_retaining_advance_of_next support htask (h := h)
  have hplaced := hw.placed h
  rw [advance_pool] at hmem
  generalize task.call.advance support w.pool = next at *
  generalize task.call = call at *
  cases hturn with
  | quiet hcall' hnext' hkeys hqueue hbuffer _ _ =>
      rw [hkeys] at hmem
      rw [hqueue, hbuffer, hcall'.holding_eq, hnext'.holding_eq] at hcount
      rw [hcall'.retaining_eq] at hkeep
      exact hkeep (hplaced hmem) (by omega) List.not_mem_nil
  | mapInsert hnew =>
      simp only [Call.holding_bufferSend, Call.holding_mapInsert, List.count_nil] at hcount
      rcases LinkedMap.mem_keys_insert.1 hmem with hmem | rfl
      · exact hkeep (hplaced hmem) (by omega) List.not_mem_nil
      · rw [List.count_singleton_self] at hcount
        exact Or.inl (mem_held.2 (by omega))
  | bufferSend hreceiving =>
      simp only [Call.holding_bufferSend, Call.holding_onTxInserted, hashes_append,
        hashes_singleton, List.count_append, List.count_nil] at hcount
      exact hkeep (hplaced hmem) (by omega) List.not_mem_nil
  | bufferFail hreceiving =>
      simp only [Call.holding_bufferSend, Call.holding_mapRemove] at hcount
      exact hkeep (hplaced hmem) (by omega) List.not_mem_nil
  | @mapRemove txHash =>
      obtain ⟨hmem, hne⟩ := LinkedMap.mem_keys_remove.1 hmem
      simp only [Call.holding_mapRemove, Call.holding_done, Pool.mapRemove, List.count_nil,
        List.count_singleton, beq_iff_eq, if_neg (Ne.symm hne)] at hcount
      exact hkeep (hplaced hmem) (by omega) List.not_mem_nil
  | @queueRetain txHashSet =>
      by_cases hset : h ∈ txHashSet
      · exact Or.inr (Or.inl (hnext hset))
      · rw [hashes_queueRetain, List.count_filter (by simpa using hset)] at hcount
        simp only [Call.holding_queueRetain, Call.holding_mapRetain, Pool.queueRetain,
          List.count_nil] at hcount
        exact hkeep (hplaced hmem) (by omega) List.not_mem_nil
  | @mapRetain txHashSet =>
      obtain ⟨hmem, hset⟩ := LinkedMap.mem_keys_retain.1 hmem
      simp only [Call.holding_mapRetain, Call.holding_done, Pool.mapRetain,
        List.count_nil] at hcount
      exact hkeep (hplaced hmem) (by omega) (by simpa [Call.retaining] using hset)

theorem Settled.advance (hw : Settled w) (htask : w.tasks[i]? = some task)
    (hclear : ∀ h ∈ task.call.retaining, h ∉ w.held) : Settled (w.advance support i task) := by
  have hturn := Call.turn_advance support w.pool task.call
  have hcount := fun h => count_held_advance support htask h
  have hknown := fun h (hpos : 0 < w.held.count h) => hw.known h (mem_held.2 hpos)
  have honce := hw.once
  have hgone := hw.gone
  suffices hsuff : (∀ h, (w.advance support i task).held.count h ≤ 1) ∧
      (∀ h, 0 < (w.advance support i task).held.count h →
        h ∈ (task.call.advance support w.pool).1.map.keys) ∧
      ∀ h ∈ removedAfter w.removed task.call,
        h ∉ (task.call.advance support w.pool).1.map.keys by
    exact ⟨hsuff.1, fun h hmem => hsuff.2.1 h (mem_held.1 hmem), hsuff.2.2⟩
  generalize task.call.advance support w.pool = next at *
  generalize task.call = call at *
  cases hturn with
  | quiet hcall' hnext' hkeys hqueue hbuffer _ _ =>
      have hsame : ∀ h, (w.advance support i task).held.count h = w.held.count h := by
        intro h
        have := hcount h
        rw [hqueue, hbuffer, hcall'.holding_eq, hnext'.holding_eq] at this
        omega
      simp only [hsame, hkeys]
      refine ⟨honce, hknown, fun h hmem => ?_⟩
      cases call <;>
        first
        | exact hgone h hmem
        | exact hcall'.elim
        | exact hgone h (List.mem_of_mem_filter hmem)
  | @mapInsert poolTx hnew =>
      have hzero : w.held.count poolTx.txHash = 0 := by
        by_contra hne
        exact hnew (hknown _ (Nat.pos_of_ne_zero hne))
      have hadd : ∀ h, (w.advance support i task).held.count h =
          w.held.count h + [poolTx.txHash].count h := by
        intro h
        have := hcount h
        simp only [Call.holding_bufferSend, Call.holding_mapInsert, List.count_nil] at this
        omega
      simp only [hadd, LinkedMap.mem_keys_insert]
      refine ⟨fun h => ?_, fun h hpos => ?_, fun h hmem => ?_⟩
      · by_cases heq : h = poolTx.txHash
        · subst heq
          simp [hzero]
        · rw [List.count_singleton, if_neg (by simpa using Ne.symm heq)]
          exact honce h
      · by_cases heq : h = poolTx.txHash
        · exact Or.inr heq
        · rw [List.count_singleton, if_neg (by simpa using Ne.symm heq)] at hpos
          exact Or.inl (hknown h hpos)
      · obtain ⟨hmem, hne⟩ := List.mem_filter.1 hmem
        rintro (hkey | rfl)
        · exact hgone h hmem hkey
        · simp at hne
  | bufferSend hreceiving =>
      have hsame : ∀ h, (w.advance support i task).held.count h = w.held.count h := by
        intro h
        have := hcount h
        simp only [Call.holding_bufferSend, Call.holding_onTxInserted, hashes_append,
          hashes_singleton, List.count_append, List.count_nil] at this
        omega
      simp only [hsame]
      exact ⟨honce, hknown, hgone⟩
  | bufferFail hreceiving =>
      have hsame : ∀ h, (w.advance support i task).held.count h = w.held.count h := by
        intro h
        have := hcount h
        simp only [Call.holding_bufferSend, Call.holding_mapRemove] at this
        omega
      simp only [hsame]
      exact ⟨honce, hknown, hgone⟩
  | @mapRemove txHash =>
      have hless : ∀ h, (w.advance support i task).held.count h + [txHash].count h =
          w.held.count h := by
        intro h
        have := hcount h
        simp only [Call.holding_mapRemove, Call.holding_done, Pool.mapRemove,
          List.count_nil] at this
        omega
      simp only [Pool.mapRemove, LinkedMap.mem_keys_remove]
      refine ⟨fun h => ?_, fun h hpos => ?_, fun h hmem hkey => hgone h hmem hkey.1⟩
      · have := hless h
        have := honce h
        omega
      · refine ⟨hknown h (by have := hless h; omega), ?_⟩
        rintro rfl
        -- The insertion held it, so nothing else does.
        have := hless h
        have := honce h
        rw [List.count_singleton_self] at *
        omega
  | @queueRetain txHashSet =>
      have hle : ∀ h, (w.advance support i task).held.count h ≤ w.held.count h := by
        intro h
        have := hcount h
        have hsub : (hashes (w.pool.queueRetain txHashSet).queue).count h ≤
            (hashes w.pool.queue).count h :=
          (List.filter_sublist.map _).count_le h
        simp only [Call.holding_queueRetain, Call.holding_mapRetain, List.count_nil,
          Pool.queueRetain] at this hsub
        omega
      refine ⟨fun h => Nat.le_trans (hle h) (honce h), fun h hpos => ?_, hgone⟩
      exact hknown h (Nat.lt_of_lt_of_le hpos (hle h))
  | @mapRetain txHashSet =>
      have hsame : ∀ h, (w.advance support i task).held.count h = w.held.count h := by
        intro h
        have := hcount h
        simp only [Call.holding_mapRetain, Call.holding_done, List.count_nil,
          Pool.mapRetain] at this
        omega
      simp only [hsame, Pool.mapRetain, LinkedMap.mem_keys_retain, decide_eq_true_eq]
      refine ⟨honce, fun h hpos => ⟨hknown h hpos, fun hset => ?_⟩, fun h hmem => ?_⟩
      · exact hclear h hset (mem_held.2 hpos)
      · rcases List.mem_append.1 hmem with hset | hmem
        · exact fun hkey => hkey.2 hset
        · exact fun hkey => hgone h hmem hkey.1

end Advance

section Step

variable {w : World} {event : Event}

theorem retaining_start (w : World) (call : Call) (hcall : call.Quiet) :
    ({ w with tasks := w.tasks ++ [.start call] } : World).retaining = w.retaining := by
  simp [retaining, Task.start, hcall.retaining_eq]

theorem Connected.start (hw : Connected w) {call : Call} (hcall : call.Quiet) :
    Connected { w with tasks := w.tasks ++ [.start call] } := by
  refine ⟨hw.lost, fun hreceiving task ht h heq => ?_⟩
  rcases List.mem_append.1 ht with ht | ht
  · exact hw.mapRemove hreceiving task ht h heq
  · obtain rfl := List.mem_singleton.1 ht
    exact (heq ▸ hcall : (Call.mapRemove h).Quiet)

theorem Connected.step (hw : Connected w) : Connected (w.step event) := by
  cases event with
  | insert tx => exact hw.start trivial
  | remove txHashSet => exact hw.start trivial
  | advance i support =>
      cases htask : w.tasks[i]? with
      | none => simpa only [step, htask] using hw
      | some task => simpa only [step, htask] using hw.advance support htask
  | drain =>
      have hsame : w.pool.drain.receiving = w.pool.receiving := by
        unfold Pool.drain
        split <;> rfl
      exact ⟨fun h => hw.lost (hsame ▸ h), fun h => hw.mapRemove (hsame ▸ h)⟩
  | stopReceiving => exact ⟨nofun, nofun⟩
  | stopListening => exact ⟨hw.lost, hw.mapRemove⟩

theorem map_drain (p : Pool) : p.drain.map = p.map := by
  unfold Pool.drain
  split <;> rfl

theorem queue_drain (p : Pool) : p.drain.queue ++ p.drain.buffer = p.queue ++ p.buffer := by
  unfold Pool.drain
  split
  · next poolTx buffer hbuffer => simp [hbuffer]
  · rfl

/-- What is held when the buffer is dropped. -/
theorem held_stopReceiving (w : World) :
    (w.step .stopReceiving).held.Sublist w.held ∧
      ∀ h ∈ w.held, h ∈ (w.step .stopReceiving).held ∨ h ∈ hashes w.pool.buffer := by
  constructor
  · exact ((List.Sublist.refl _).append (List.nil_sublist _)).append_right _
  · intro h hmem
    simp only [held, World.step, Pool.stopReceiving, hashes_nil, List.mem_append] at hmem ⊢
    tauto

theorem Placed.step (hw : Placed w) : Placed (w.step event) := by
  cases event with
  | insert tx =>
      refine ⟨hw.order, fun h hmem => ?_⟩
      simp only [World.step, held_start w (.checkCapacity tx) trivial,
        retaining_start w (.checkCapacity tx) trivial]
      exact hw.placed h hmem
  | remove txHashSet =>
      refine ⟨hw.order, fun h hmem => ?_⟩
      simp only [World.step, held_start w (.queueRetain txHashSet) trivial,
        retaining_start w (.queueRetain txHashSet) trivial]
      exact hw.placed h hmem
  | advance i support =>
      cases htask : w.tasks[i]? with
      | none => simpa only [World.step, htask] using hw
      | some task => simpa only [World.step, htask] using hw.advance support htask
  | drain =>
      refine ⟨?_, fun h hmem => ?_⟩
      · simpa only [World.step, queue_drain] using hw.order
      · simp only [World.step, map_drain] at hmem
        simp only [World.step, held_drain]
        exact hw.placed h hmem
  | stopReceiving =>
      refine ⟨((List.Sublist.refl _).append (List.nil_sublist _)).trans hw.order, fun h hmem => ?_⟩
      have hlost : hashes (w.step .stopReceiving).lost = hashes w.lost ++ hashes w.pool.buffer :=
        hashes_append _ _
      rw [hlost, List.mem_append]
      rcases hw.placed h hmem with hheld | hretaining | hlost
      · rcases (held_stopReceiving w).2 h hheld with hheld | hbuffer
        · exact Or.inl hheld
        · exact Or.inr (Or.inr (Or.inr hbuffer))
      · exact Or.inr (Or.inl hretaining)
      · exact Or.inr (Or.inr (Or.inl hlost))
  | stopListening => exact ⟨hw.order, hw.placed⟩

theorem Settled.step (hw : Settled w) (hclear : Clear w event) :
    Settled (w.step event) := by
  cases event with
  | insert tx =>
      have hheld := held_start w (.checkCapacity tx) trivial
      exact ⟨fun h => hheld ▸ hw.once h, fun h hmem => hw.known h (hheld ▸ hmem), hw.gone⟩
  | remove txHashSet =>
      have hheld := held_start w (.queueRetain txHashSet) trivial
      exact ⟨fun h => hheld ▸ hw.once h, fun h hmem => hw.known h (hheld ▸ hmem), hw.gone⟩
  | advance i support =>
      cases htask : w.tasks[i]? with
      | none => simpa only [World.step, htask] using hw
      | some task =>
          simpa only [World.step, htask] using hw.advance support htask (hclear task htask)
  | drain =>
      have hheld := held_drain w
      refine ⟨fun h => hheld ▸ hw.once h, fun h hmem => ?_, fun h hmem => ?_⟩
      · simpa only [World.step, map_drain] using hw.known h (hheld ▸ hmem)
      · simpa only [World.step, map_drain] using hw.gone h hmem
  | stopReceiving =>
      have hheld := (held_stopReceiving w).1
      exact ⟨fun h => Nat.le_trans (hheld.count_le h) (hw.once h),
        fun h hmem => hw.known h (hheld.subset hmem), hw.gone⟩
  | stopListening => exact ⟨hw.once, hw.known, hw.gone⟩

end Step

end World

namespace Run

variable {Q : World → Event → Prop} {w : World}

theorem toConnected (hrun : Run Q w) : w.Connected := by
  induction hrun with
  | new poolCapacity => exact ⟨fun _ => rfl, fun _ => nofun⟩
  | step hrun hevent ih => exact ih.step

theorem toPlaced (hrun : Run Q w) : w.Placed := by
  induction hrun with
  | new poolCapacity => exact ⟨List.Sublist.slnil, nofun⟩
  | step hrun hevent ih => exact ih.step

theorem toSettled (hQ : ∀ w event, Q w event → w.Clear event) (hrun : Run Q w) : w.Settled := by
  induction hrun with
  | new poolCapacity => exact ⟨fun h => Nat.zero_le 1, nofun, nofun⟩
  | step hrun hevent ih => exact ih.step (hQ _ _ hevent)

/-- The queue and the buffer keep the order of the sends, and every hash of the map is queued
or buffered, or some call is going to send it to the buffer or to take it from the map; once the
receiver of the buffer is dropped, it may also be lost with the buffer or be taken back. If no
removal takes from the map what is on the way to the queue, no hash is queued twice, what is
queued is in the map, and what was removed is not queued unless it was inserted again. -/
theorem queue_consistent (hrun : Run Q w) :
    (w.pool.queue ++ w.pool.buffer).Sublist w.sent ∧
      (∀ h ∈ w.pool.map.keys, h ∈ hashes w.pool.queue ∨ h ∈ hashes w.pool.buffer ∨
        (∃ task ∈ w.tasks, h ∈ hashes task.call.sending ∨ h ∈ task.call.retaining) ∨
        w.pool.receiving = false ∧ (h ∈ hashes w.lost ∨ ∃ task ∈ w.tasks,
          task.call = .mapRemove h)) ∧
      ((∀ w event, Q w event → w.Clear event) →
        (hashes w.pool.queue).Nodup ∧ (∀ h ∈ hashes w.pool.queue, h ∈ w.pool.map.keys) ∧
          ∀ h ∈ w.removed, h ∉ hashes w.pool.queue) := by
  refine ⟨hrun.toPlaced.order, fun h hmem => ?_, fun hQ => ?_⟩
  · have hstopped : h ∈ hashes w.lost ∨ (∃ task ∈ w.tasks, task.call = .mapRemove h) →
        w.pool.receiving = false := by
      intro hgone
      by_contra hreceiving
      rw [Bool.not_eq_false] at hreceiving
      rcases hgone with hlost | ⟨task, ht, hcall⟩
      · simp [hrun.toConnected.lost hreceiving] at hlost
      · exact hrun.toConnected.mapRemove hreceiving task ht h hcall
    rcases hrun.toPlaced.placed h hmem with hheld | hheld | hlost
    · simp only [World.held, List.mem_append, List.mem_flatMap, Call.holding] at hheld
      rcases hheld with (hqueue | hbuffer) | ⟨task, ht, hsending | hback⟩
      · exact Or.inl hqueue
      · exact Or.inr (Or.inl hbuffer)
      · exact Or.inr (Or.inr (Or.inl ⟨task, ht, Or.inl hsending⟩))
      · have hcall := Call.eq_of_mem_takingBack hback
        exact Or.inr (Or.inr (Or.inr ⟨hstopped (Or.inr ⟨task, ht, hcall⟩),
          Or.inr ⟨task, ht, hcall⟩⟩))
    · obtain ⟨task, ht, hretaining⟩ := List.mem_flatMap.1 hheld
      exact Or.inr (Or.inr (Or.inl ⟨task, ht, Or.inr hretaining⟩))
    · exact Or.inr (Or.inr (Or.inr ⟨hstopped (Or.inl hlost), Or.inl hlost⟩))
  · have hsettled := hrun.toSettled hQ
    have hqueue : ∀ h ∈ hashes w.pool.queue, h ∈ w.held := fun h hmem =>
      List.mem_append_left _ (List.mem_append_left _ hmem)
    refine ⟨?_, fun h hmem => hsettled.known h (hqueue h hmem), fun h hgone hmem => ?_⟩
    · rw [List.nodup_iff_count_le_one]
      intro h
      have := hsettled.once h
      simp only [World.held, List.count_append] at this
      omega
    · exact hsettled.gone h hgone (hsettled.known h (hqueue h hmem))

end Run

/-- A removal that no other call overlaps leaves its set neither in the queue nor in the map. -/
theorem Call.alone_queueRetain (support : Support) (p : Pool) (txHashSet : List Hash) :
    ∀ h ∈ txHashSet,
      h ∉ hashes (Call.alone support 2 (p, .queueRetain txHashSet)).1.queue ∧
        h ∉ (Call.alone support 2 (p, .queueRetain txHashSet)).1.map.keys := by
  intro h hmem
  rw [alone_remove, Pool.remove]
  refine ⟨fun hqueue => ?_, fun hkey => ?_⟩
  · have hkept : h ∈ hashes (p.queueRetain txHashSet).queue := hqueue
    rw [World.hashes_queueRetain] at hkept
    simpa [hmem] using List.of_mem_filter hkept
  · simpa [hmem] using (LinkedMap.mem_keys_retain.1 hkey).2

/-! ## A transaction that is inserted again -/

/-- A chain that finds every transaction valid. -/
def accepting : Support where
  hashTransaction tx := .ok ⟨tx.call.params⟩
  validateTransaction _ _ := .ok ()

def transfer : Transaction where
  witness := none
  call := ⟨"balance", "transfer", [7]⟩

/-- The insertion of `transfer` by the next caller, which is the `i`th. -/
def insertion (i : Nat) : List Event := .insert transfer :: List.replicate 6 (.advance i accepting)

def removal (i : Nat) : List Event := .remove [⟨[7]⟩] :: List.replicate 2 (.advance i accepting)

/-- The insertion before the transaction is sent to the buffer. -/
def begun : World := ((insertion 0).take 5).foldl World.step (.new 2)

def events : List Event := insertion 0 ++ .drain :: removal 1 ++ insertion 2 ++ [.drain]

/-- The removal comes when the transaction is in the buffer. -/
def early : World :=
  (insertion 0 ++ removal 1 ++ insertion 2 ++ [Event.drain, .drain]).foldl World.step (.new 2)

theorem consistent_events :
    (hashes (events.foldl World.step (.new 2)).pool.queue).Nodup := by
  have halong : Along World.Clear (.new 2) events := by decide +kernel
  exact ((Run.queue_consistent (.foldl (.new 2) halong)).2.2 fun _ _ h => h).1

theorem inconsistent_early :
    (Run (fun _ _ => True) begun ∧ ∃ h ∈ begun.pool.map.keys,
        h ∉ hashes begun.pool.queue ∧ h ∉ hashes begun.pool.buffer) ∧
      Run (fun _ _ => True) early ∧ ¬ (hashes early.pool.queue).Nodup := by
  refine ⟨⟨.foldl (.new 2) (by decide +kernel), ⟨[7]⟩, ?_⟩, .foldl (.new 2) (by decide +kernel), ?_⟩
  · decide +kernel
  · decide +kernel

end Finastate.TxPool
