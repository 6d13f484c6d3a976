import Finastate.TxPool.Consistency

/-!
# The capacity of the pool

The room that an insertion finds is not reserved for it, so other insertions may
take it before the map insert. An insertion that finds its transaction in the
map when it inserts has replaced an entry by one with the same hash. A call
that no other one overlaps keeps to the capacity, and changes nothing when it
fails, as long as someone listens (`Call.alone_withinCapacity`).
-/

namespace Finastate.TxPool

variable {hash : Transaction → Except String Hash}

/-- Two transactions have the same hash. -/
def Collision (hash : Transaction → Except String Hash) : Prop :=
  ∃ tx tx' h, tx ≠ tx' ∧ hash tx = .ok h ∧ hash tx' = .ok h

/-- The same transactions are pooled. -/
structure Same (hash : Transaction → Except String Hash)
    (m m' : LinkedMap Hash FullTransaction) : Prop where
  keys : ∀ h, h ∈ m'.keys ↔ h ∈ m.keys
  entries : (∀ e, e ∈ m'.entries ↔ e ∈ m.entries) ∨ Collision hash

theorem Same.refl (m : LinkedMap Hash FullTransaction) : Same hash m m :=
  ⟨fun _ => Iff.rfl, Or.inl fun _ => Iff.rfl⟩

/-- The hash of a full transaction is that of the transaction. -/
def Hashed (hash : Transaction → Except String Hash) (poolTx : FullTransaction) : Prop :=
  hash poolTx.tx = .ok poolTx.txHash

/-- Every entry of the map is filed under its hash. -/
def Filed (hash : Transaction → Except String Hash) (m : LinkedMap Hash FullTransaction) : Prop :=
  ∀ e ∈ m.entries, e.2.txHash = e.1 ∧ Hashed hash e.2

theorem Filed.insert {m : LinkedMap Hash FullTransaction} {poolTx : FullTransaction}
    (hm : Filed hash m) (hhash : Hashed hash poolTx) :
    Filed hash (m.insert poolTx.txHash poolTx) := by
  intro e he
  rcases LinkedMap.mem_entries_insert.1 he with ⟨he, -⟩ | rfl
  · exact hm e he
  · exact ⟨rfl, hhash⟩

/-- What the duplicate branch of `insert` has done to the map. -/
theorem Filed.same_insert {m : LinkedMap Hash FullTransaction} {poolTx : FullTransaction}
    (hm : Filed hash m) (hhash : Hashed hash poolTx) (hmem : poolTx.txHash ∈ m.keys) :
    Same hash m (m.insert poolTx.txHash poolTx) := by
  obtain ⟨poolTx', hentry⟩ := LinkedMap.mem_keys.1 hmem
  obtain ⟨heq, hhash'⟩ := hm _ hentry
  refine ⟨fun h => ?_, ?_⟩
  · rw [LinkedMap.mem_keys_insert]
    exact ⟨fun h => h.elim id fun heq => heq ▸ hmem, Or.inl⟩
  · by_cases htx : poolTx'.tx = poolTx.tx
    · have hsame : poolTx' = poolTx := by
        cases poolTx'
        cases poolTx
        exact congr (congrArg FullTransaction.mk htx) heq
      subst hsame
      refine Or.inl fun e => ?_
      rw [LinkedMap.mem_entries_insert]
      constructor
      · rintro (⟨he, -⟩ | rfl)
        · exact he
        · exact hentry
      · intro he
        by_cases hkey : e.1 = poolTx'.txHash
        · have hval : e.2 = poolTx' := LinkedMap.eq_of_mem (k := e.1) he (hkey ▸ hentry)
          exact Or.inr (Prod.ext hkey hval)
        · exact Or.inl ⟨he, hkey⟩
    · exact Or.inr ⟨_, _, poolTx.txHash, htx, hhash'.trans (congrArg Except.ok heq), hhash⟩

namespace Call

/-- The transaction of an insertion whose hash is known. -/
def carries : Call → List FullTransaction
  | .validateTransaction poolTx | .mapInsert poolTx | .bufferSend poolTx => [poolTx]
  | _ => []

/-- A call that has failed, or that can still fail before it has inserted. -/
def Failing : Call → Prop
  | .checkCapacity _ | .checkPoolExist _ | .validateTransaction _ | .mapInsert _ |
    .done (.error _) => True
  | _ => False

/-- The condition under which the steps of `insert` keep to the capacity and to their result:
there is still room at the map insert, the buffer has its receiver when the transaction is sent,
and someone listens when it is announced. -/
def Fits (p : Pool) : Call → Prop
  | .mapInsert poolTx => poolTx.txHash ∈ p.map.keys ∨ p.map.entries.length < p.poolCapacity
  | .bufferSend _ => p.receiving = true
  | .onTxInserted _ => p.listening = true
  | _ => True

instance (p : Pool) : ∀ call, Decidable (Fits p call)
  | .mapInsert poolTx => inferInstanceAs (Decidable (poolTx.txHash ∈ p.map.keys ∨ _))
  | .bufferSend _ => inferInstanceAs (Decidable (p.receiving = true))
  | .onTxInserted _ => inferInstanceAs (Decidable (p.listening = true))
  | .checkCapacity _ | .checkPoolExist _ | .validateTransaction _ | .mapRemove _ |
    .queueRetain _ | .mapRetain _ | .done _ => .isTrue trivial

section Advance

variable {support : Support} {p : Pool} {call : Call}

theorem carries_andThen {result : Except ErrorKind Unit} {next : Call} {poolTx : FullTransaction}
    (h : poolTx ∈ (andThen result next).carries) : poolTx ∈ next.carries := by
  cases result with
  | error e => exact absurd h List.not_mem_nil
  | ok u => exact h

theorem Turn.poolCapacity_eq {next : Pool × Call} (hturn : Turn p call next) :
    next.1.poolCapacity = p.poolCapacity := by
  cases hturn with
  | quiet _ _ _ _ _ _ hcapacity => exact hcapacity
  | mapInsert _ | bufferSend _ | bufferFail _ | mapRemove | queueRetain | mapRetain => rfl

theorem Turn.length_le {next : Pool × Call} (hturn : Turn p call next) (hfits : call.Fits p)
    (hle : p.map.entries.length ≤ p.poolCapacity) :
    next.1.map.entries.length ≤ p.poolCapacity := by
  cases hturn with
  | quiet _ _ hkeys _ _ _ _ => exact LinkedMap.length_congr hkeys ▸ hle
  | mapInsert hnew =>
      have hlt := hfits.resolve_left hnew
      exact Nat.le_trans (LinkedMap.length_insert_le _ _ _) hlt
  | mapRemove | mapRetain => exact Nat.le_trans (List.length_filter_le _ _) hle
  | bufferSend _ | bufferFail _ | queueRetain => exact hle

theorem Turn.ne_mapRemove {next : Pool × Call} (hturn : Turn p call next) (hfits : call.Fits p)
    (txHash : Hash) : next.2 ≠ .mapRemove txHash := by
  cases hturn with
  | quiet _ hnext _ _ _ _ _ => exact fun heq => (heq ▸ hnext : (Call.mapRemove txHash).Quiet)
  | bufferFail hfailed => exact absurd hfits (by simp [Fits, hfailed])
  | mapInsert _ | bufferSend _ | mapRemove | queueRetain | mapRetain => exact nofun

/-- What the map holds and what a call carries stay under their hashes. -/
theorem filed_advance (hhash : support.hashTransaction = hash) (hp : Filed hash p.map)
    (hcall : ∀ poolTx ∈ call.carries, Hashed hash poolTx) :
    Filed hash (call.advance support p).1.map ∧
      ∀ poolTx ∈ (call.advance support p).2.carries, Hashed hash poolTx := by
  cases call with
  | checkCapacity tx => exact ⟨hp, fun poolTx h => absurd (carries_andThen h) List.not_mem_nil⟩
  | checkPoolExist tx =>
      rw [advance]
      split
      · exact ⟨hp, List.forall_mem_nil _⟩
      · next txHash htx =>
          refine ⟨hp, fun poolTx h => ?_⟩
          obtain rfl := List.mem_singleton.1 (carries_andThen h)
          rw [Pool.hashTransaction, hhash] at htx
          rw [Hashed]
          cases hval : hash tx with
          | error e => simp [hval, Except.mapError] at htx
          | ok h => simpa [hval, Except.mapError] using htx
  | validateTransaction poolTx =>
      refine ⟨hp, fun tx h => ?_⟩
      have hmem : tx ∈ (Call.mapInsert poolTx).carries := carries_andThen h
      exact hcall tx hmem
  | mapInsert poolTx =>
      have hinsert := hp.insert (hcall poolTx (List.mem_singleton_self _))
      simp only [advance, Pool.mapInsert]
      cases p.contain poolTx.txHash with
      | true => exact ⟨hinsert, List.forall_mem_nil _⟩
      | false => exact ⟨hinsert, hcall⟩
  | bufferSend poolTx =>
      simp only [advance, Pool.bufferSend]
      cases p.receiving with
      | true => exact ⟨hp, List.forall_mem_nil _⟩
      | false => exact ⟨hp, List.forall_mem_nil _⟩
  | mapRemove txHash =>
      exact ⟨fun e he => hp e (LinkedMap.mem_entries_remove.1 he).1, List.forall_mem_nil _⟩
  | onTxInserted txHash =>
      simp only [advance, Pool.onTxInserted]
      cases p.listening with
      | true => exact ⟨hp, List.forall_mem_nil _⟩
      | false => exact ⟨hp, List.forall_mem_nil _⟩
  | queueRetain txHashSet => exact ⟨hp, List.forall_mem_nil _⟩
  | mapRetain txHashSet =>
      exact ⟨fun e he => hp e (LinkedMap.mem_entries_retain.1 he).1, List.forall_mem_nil _⟩
  | done result => exact ⟨hp, List.forall_mem_nil _⟩

/-- A call that fails, now or later, has not changed what is pooled. -/
theorem failing_advance (hp : Filed hash p.map)
    (hcall : ∀ poolTx ∈ call.carries, Hashed hash poolTx)
    (hremove : ∀ h, call ≠ .mapRemove h) (hfits : call.Fits p)
    (hfail : (call.advance support p).2.Failing) :
    call.Failing ∧ Same hash p.map (call.advance support p).1.map := by
  cases call with
  | checkCapacity tx => exact ⟨trivial, .refl _⟩
  | checkPoolExist tx =>
      refine ⟨trivial, ?_⟩
      rw [advance]
      split <;> exact .refl _
  | validateTransaction poolTx => exact ⟨trivial, .refl _⟩
  | mapInsert poolTx =>
      refine ⟨trivial, ?_⟩
      simp only [advance, Pool.mapInsert] at hfail ⊢
      cases hcontain : p.contain poolTx.txHash with
      | true =>
          exact hp.same_insert (hcall poolTx (List.mem_singleton_self _))
            (LinkedMap.contains_iff.1 hcontain)
      | false =>
          rw [hcontain] at hfail
          exact hfail.elim
  | bufferSend poolTx =>
      have hreceiving : p.receiving = true := hfits
      simp [advance, Pool.bufferSend, hreceiving, Failing] at hfail
  | mapRemove txHash => exact absurd rfl (hremove txHash)
  | onTxInserted txHash =>
      have hlistening : p.listening = true := hfits
      simp [advance, Pool.onTxInserted, hlistening, Failing] at hfail
  | queueRetain txHashSet => exact hfail.elim
  | mapRetain txHashSet => exact hfail.elim
  | done result => exact ⟨hfail, .refl _⟩

end Advance

end Call

namespace World

/-- The steps of the calls keep to the capacity, and the hash function is `hash`. -/
def Fitting (hash : Transaction → Except String Hash) (w : World) : Event → Prop
  | .advance i support =>
      support.hashTransaction = hash ∧ ∀ task ∈ w.tasks[i]?, task.call.Fits w.pool
  | _ => True

/-- `Fitting` without the hash function. -/
def Fit (w : World) : Event → Prop
  | .advance i _ => ∀ task ∈ w.tasks[i]?, task.call.Fits w.pool
  | _ => True

instance (w : World) : ∀ event, Decidable (Fit w event)
  | .advance i _ => inferInstanceAs (Decidable (∀ task ∈ w.tasks[i]?, task.call.Fits w.pool))
  | .insert _ | .remove _ | .drain | .stopReceiving | .stopListening => .isTrue trivial

theorem along_fitting {w : World} {events : List Event} (h : Along Fit w events)
    (hhash : ∀ i support, .advance i support ∈ events → support.hashTransaction = hash) :
    Along (Fitting hash) w events := by
  induction events generalizing w with
  | nil => trivial
  | cons event events ih =>
      obtain ⟨hfit, hrest⟩ := h
      refine ⟨?_, ih hrest fun i support hmem => hhash i support (List.mem_cons_of_mem _ hmem)⟩
      cases event with
      | advance i support => exact ⟨hhash i support List.mem_cons_self, hfit⟩
      | insert _ | remove _ | drain | stopReceiving | stopListening => trivial

/-- The map keeps to the capacity, no insertion is taken back, and a call that can still fail has
not changed what is pooled. -/
structure Bounded (hash : Transaction → Except String Hash) (w : World) : Prop where
  length_le : w.pool.map.entries.length ≤ w.pool.poolCapacity
  filed : Filed hash w.pool.map
  hashed : ∀ task ∈ w.tasks, ∀ poolTx ∈ task.call.carries, Hashed hash poolTx
  mapRemove : ∀ task ∈ w.tasks, ∀ h, task.call ≠ .mapRemove h
  same : ∀ task ∈ w.tasks, task.call.Failing →
    ∀ change ∈ task.changes, Same hash change.1 change.2

variable {w : World} {event : Event}

theorem Bounded.advance {support : Support} {i : Nat} {task : Task} (hw : Bounded hash w)
    (htask : w.tasks[i]? = some task)
    (hhash : support.hashTransaction = hash) (hfits : task.call.Fits w.pool) :
    Bounded hash (w.advance support i task) := by
  have hmem := List.mem_of_getElem? htask
  have hturn := Call.turn_advance support w.pool task.call
  have hfiled := Call.filed_advance hhash hw.filed (hw.hashed task hmem)
  refine ⟨?_, hfiled.1, fun t ht => ?_, fun t ht => ?_, fun t ht hfail => ?_⟩
  · have hle := hturn.length_le hfits hw.length_le
    rw [← hturn.poolCapacity_eq] at hle
    exact hle
  · rcases List.mem_or_eq_of_mem_set ht with ht | rfl
    · exact hw.hashed t ht
    · exact hfiled.2
  · rcases List.mem_or_eq_of_mem_set ht with ht | rfl
    · exact hw.mapRemove t ht
    · exact hturn.ne_mapRemove hfits
  · rcases List.mem_or_eq_of_mem_set ht with ht | rfl
    · exact hw.same t ht hfail
    · have hkept := Call.failing_advance hw.filed (hw.hashed task hmem)
        (hw.mapRemove task hmem) hfits hfail
      intro change hchange
      rcases List.mem_append.1 hchange with hchange | hchange
      · exact hw.same task hmem hkept.1 change hchange
      · obtain rfl := List.mem_singleton.1 hchange
        exact hkept.2

/-- A call that has just been made has changed nothing. -/
theorem Bounded.start (hw : Bounded hash w) {call : Call} (hcall : call.carries = [])
    (hquiet : call.Quiet) : Bounded hash { w with tasks := w.tasks ++ [.start call] } := by
  refine ⟨hw.length_le, hw.filed, fun t ht => ?_, fun t ht h heq => ?_, fun t ht hfail => ?_⟩
  · rcases List.mem_append.1 ht with ht | ht
    · exact hw.hashed t ht
    · obtain rfl := List.mem_singleton.1 ht
      simp [Task.start, hcall]
  · rcases List.mem_append.1 ht with ht | ht
    · exact hw.mapRemove t ht h heq
    · obtain rfl := List.mem_singleton.1 ht
      exact (heq ▸ hquiet : (Call.mapRemove h).Quiet)
  · rcases List.mem_append.1 ht with ht | ht
    · exact hw.same t ht hfail
    · obtain rfl := List.mem_singleton.1 ht
      rintro _ ⟨⟩

theorem poolCapacity_drain (p : Pool) : p.drain.poolCapacity = p.poolCapacity := by
  unfold Pool.drain
  split <;> rfl

theorem Bounded.step (hw : Bounded hash w) (hfits : Fitting hash w event) :
    Bounded hash (w.step event) := by
  cases event with
  | insert tx => exact hw.start rfl trivial
  | remove txHashSet => exact hw.start rfl trivial
  | advance i support =>
      cases htask : w.tasks[i]? with
      | none => simpa only [World.step, htask] using hw
      | some task =>
          simpa only [World.step, htask] using hw.advance htask hfits.1 (hfits.2 task htask)
  | drain =>
      refine ⟨?_, ?_, hw.hashed, hw.mapRemove, hw.same⟩
      · simpa only [World.step, map_drain, poolCapacity_drain] using hw.length_le
      · simpa only [World.step, map_drain] using hw.filed
  | stopReceiving | stopListening =>
      exact ⟨hw.length_le, hw.filed, hw.hashed, hw.mapRemove, hw.same⟩

end World

theorem Run.toBounded {w : World} (hrun : Run (World.Fitting hash) w) : w.Bounded hash := by
  induction hrun with
  | new poolCapacity => exact ⟨Nat.zero_le _, nofun, nofun, nofun, nofun⟩
  | step hrun hevent ih => exact ih.step hevent

/-- The map never has more entries than the capacity, and no step of an insertion that
returns an error has changed the set of pooled transactions. -/
theorem Run.withinCapacity {w : World} (hrun : Run (World.Fitting hash) w) :
    w.pool.map.entries.length ≤ w.pool.poolCapacity ∧
      ∀ task ∈ w.tasks, ∀ e, task.call = .done (.error e) →
        ∀ change ∈ task.changes, (∀ h, h ∈ change.2.keys ↔ h ∈ change.1.keys) ∧
          ((∀ entry, entry ∈ change.2.entries ↔ entry ∈ change.1.entries) ∨ Collision hash) := by
  have hbounded := hrun.toBounded
  refine ⟨hbounded.length_le, fun task ht e hdone change hchange => ?_⟩
  have hsame := hbounded.same task ht (hdone ▸ trivial) change hchange
  exact ⟨hsame.keys, hsame.entries⟩

/-! ## One caller -/

namespace Pool

theorem checkCapacity_eq_ok {p : Pool} (h : p.checkCapacity = .ok ()) :
    p.map.entries.length < p.poolCapacity := by
  rw [checkCapacity] at h
  split at h
  · cases h
  · omega

theorem checkPoolExist_eq_ok {p : Pool} {txHash : Hash} (h : p.checkPoolExist txHash = .ok ()) :
    p.contain txHash = false := by
  rw [checkPoolExist] at h
  split at h
  · cases h
  · next hcontain => exact eq_false_of_ne_true hcontain

/-- An insertion fails and has changed nothing, or inserts where there is room, and then does not
fail if someone listens. -/
theorem insert_cases (support : Support) (p : Pool) (tx : Transaction) :
    (∀ h, h ∈ (p.insert support tx).1.map.keys ↔ h ∈ p.map.keys) ∨
      p.map.entries.length < p.poolCapacity ∧
        (∃ poolTx, (p.insert support tx).1.map = p.map.insert poolTx.txHash poolTx) ∧
        (p.listening = true → (p.insert support tx).2 = .ok ()) := by
  rw [insert]
  split
  · exact Or.inl fun _ => Iff.rfl
  · next hcapacity =>
    split
    · exact Or.inl fun _ => Iff.rfl
    · next txHash _ =>
      split
      · exact Or.inl fun _ => Iff.rfl
      · next hexist =>
        split
        · exact Or.inl fun _ => Iff.rfl
        · have hnew := checkPoolExist_eq_ok hexist
          simp only [mapInsert, hnew, bufferSend]
          cases p.receiving with
          | false =>
              -- The entry is taken back.
              left
              intro h
              have hmem : txHash ∉ p.map.keys := by
                simpa [contain, LinkedMap.contains] using hnew
              simp only [Bool.false_eq_true, if_false, mapRemove, LinkedMap.mem_keys_remove,
                LinkedMap.mem_keys_insert]
              constructor
              · rintro ⟨hkey | heq, hne⟩
                · exact hkey
                · exact absurd heq hne
              · intro hkey
                exact ⟨Or.inl hkey, fun heq => hmem (heq ▸ hkey)⟩
          | true =>
              right
              refine ⟨checkCapacity_eq_ok hcapacity, ⟨⟨tx, txHash⟩, ?_⟩, fun hlistening => ?_⟩
              · simp only [if_true, onTxInserted]
                split
                · rfl
                · rfl
              · simp [onTxInserted, hlistening]

end Pool

/-- An insertion that no other call overlaps keeps to the capacity, and changes nothing when it
fails, as long as someone listens. -/
theorem Call.alone_withinCapacity (support : Support) {p : Pool} (tx : Transaction)
    (hle : p.map.entries.length ≤ p.poolCapacity) (hlistening : p.listening = true) :
    (Call.alone support 6 (p, .checkCapacity tx)).1.map.entries.length ≤ p.poolCapacity ∧
      ∀ e, (Call.alone support 6 (p, .checkCapacity tx)).2 = .done (.error e) →
        ∀ h, h ∈ (Call.alone support 6 (p, .checkCapacity tx)).1.map.keys ↔ h ∈ p.map.keys := by
  rw [alone_insert]
  rcases p.insert_cases support tx with hsame | ⟨hroom, ⟨poolTx, hmap⟩, hok⟩
  · exact ⟨LinkedMap.length_congr hsame ▸ hle, fun _ _ => hsame⟩
  · refine ⟨?_, fun e he => ?_⟩
    · rw [hmap]
      exact Nat.le_trans (LinkedMap.length_insert_le _ _ _) hroom
    · rw [hok hlistening] at he
      cases he

/-! ## Two insertions at once -/

def otherTransfer : Transaction := { transfer with call := ⟨"balance", "transfer", [8]⟩ }

/-- Two callers insert one transaction and a third one another, and all have checked before one
of them inserts. The first transaction is removed in the end. -/
def overlapping : List Event :=
  [.insert transfer, .insert transfer, .insert otherTransfer] ++
    List.replicate 3 (.advance 0 accepting) ++ List.replicate 3 (.advance 1 accepting) ++
    List.replicate 3 (.advance 2 accepting) ++ List.replicate 3 (.advance 0 accepting) ++
    [.advance 1 accepting] ++ List.replicate 3 (.advance 2 accepting) ++ .drain :: removal 3

/-- The second caller finds the transaction in the map. -/
theorem withinCapacity_overlapping :
    let w := overlapping.foldl World.step (.new 2)
    w.pool.map.keys = [⟨[8]⟩] ∧ w.pool.map.entries.length ≤ 2 ∧
      ∀ task ∈ w.tasks[1]?, task.call = .done (.error (.insertError (.duplicatedTx ⟨[7]⟩))) ∧
        ∀ change ∈ task.changes, ∀ h, h ∈ change.2.keys ↔ h ∈ change.1.keys := by
  have hrun : Run (World.Fitting accepting.hashTransaction)
      (overlapping.foldl World.step (.new 2)) := by
    refine .foldl (.new 2) (World.along_fitting (by decide +kernel) fun i support hmem => ?_)
    have hsupport : support = accepting := by
      simp [overlapping, removal] at hmem
      tauto
    rw [hsupport]
  refine ⟨by decide +kernel, hrun.withinCapacity.1, fun task htask => ?_⟩
  have hcall : task.call = .done (.error (.insertError (.duplicatedTx ⟨[7]⟩))) := by
    revert task
    decide +kernel
  refine ⟨hcall, fun change hchange => ?_⟩
  exact (hrun.withinCapacity.2 task (List.mem_of_getElem? htask) _ hcall change hchange).1

/-- The capacity is one, and both insertions check it before one of them inserts. -/
def crowded : World :=
  ([Event.insert transfer, .insert otherTransfer] ++
    List.replicate 3 (Event.advance 0 accepting) ++ List.replicate 3 (Event.advance 1 accepting) ++
    [Event.advance 0 accepting, .advance 1 accepting]).foldl World.step (.new 1)

/-- Nobody listens when the insertion is announced. -/
def unheard : World := (Event.stopListening :: insertion 0).foldl World.step (.new 1)

theorem exceeded_crowded :
    (Run (fun _ _ => True) crowded ∧
        ¬ crowded.pool.map.entries.length ≤ crowded.pool.poolCapacity) ∧
      Run (fun _ _ => True) unheard ∧ ∃ task ∈ unheard.tasks,
        task.call = .done (.error .channel) ∧ ∃ change ∈ task.changes,
          ⟨[7]⟩ ∈ change.2.keys ∧ ⟨[7]⟩ ∉ change.1.keys := by
  refine ⟨⟨.foldl (.new 1) (by decide +kernel), by decide +kernel⟩,
    .foldl (.new 1) (by decide +kernel), by decide +kernel⟩

end Finastate.TxPool
