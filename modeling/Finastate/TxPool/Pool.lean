import Finastate.Library.LinkedMap
import Finastate.Primitives.Types

/-!
# The transaction pool

A transaction that is inserted goes into a map, then into a buffer, and a task
takes it from the buffer to the queue from which blocks are built. A removal
takes transactions from the queue and then from the map. Any number of callers
insert and remove at the same time; between the atomic steps of one there are
steps of the others.
-/

namespace Finastate.TxPool

/-- The error of `validate_transaction`: only a `ValidateTxError` is caught. -/
inductive ValidateError
  | validateTxError (e : String)
  | other (e : String)
  deriving DecidableEq, Repr

inductive InsertError
  | exceedCapacity (capacity : Nat)
  | duplicatedTx (txHash : Hash)
  | invalidTx (e : String)
  deriving DecidableEq, Repr

inductive ErrorKind
  | insertError (e : InsertError)
  | channel
  | other (e : String)
  deriving DecidableEq, Repr

/-- What the chain does for the pool; validation depends on its present state. -/
structure Support where
  hashTransaction : Transaction → Except String Hash
  validateTransaction : Hash → Transaction → Except ValidateError Unit

/-- `receiving` and `listening` tell whether the receivers of the buffer and of the out
messages are still there. That of the buffer is with a task of the runtime. -/
structure Pool where
  poolCapacity : Nat
  map : LinkedMap Hash FullTransaction
  queue : List FullTransaction
  buffer : List FullTransaction
  messages : List Hash
  receiving : Bool
  listening : Bool
  deriving DecidableEq

namespace Pool

def new (poolCapacity : Nat) : Pool where
  poolCapacity := poolCapacity
  map := .empty
  queue := []
  buffer := []
  messages := []
  receiving := true
  listening := true

def contain (p : Pool) (txHash : Hash) : Bool := p.map.contains txHash

def checkCapacity (p : Pool) : Except ErrorKind Unit :=
  if p.poolCapacity ≤ p.map.entries.length then
    .error (.insertError (.exceedCapacity p.poolCapacity))
  else .ok ()

def checkPoolExist (p : Pool) (txHash : Hash) : Except ErrorKind Unit :=
  if p.contain txHash then .error (.insertError (.duplicatedTx txHash)) else .ok ()

def hashTransaction (support : Support) (tx : Transaction) : Except ErrorKind Hash :=
  (support.hashTransaction tx).mapError ErrorKind.other

def validateTransaction (support : Support) (txHash : Hash) (tx : Transaction) :
    Except ErrorKind Unit :=
  match support.validateTransaction txHash tx with
  | .ok () => .ok ()
  | .error (.validateTxError e) => .error (.insertError (.invalidTx e))
  | .error (.other e) => .error (.other e)

/-- `self.map.insert`, and whether there was an entry before. -/
def mapInsert (p : Pool) (poolTx : FullTransaction) : Pool × Bool :=
  ({ p with map := p.map.insert poolTx.txHash poolTx }, p.contain poolTx.txHash)

def mapRemove (p : Pool) (txHash : Hash) : Pool := { p with map := p.map.remove txHash }

/-- `self.buffer_tx.unbounded_send`, and whether it succeeds. -/
def bufferSend (p : Pool) (poolTx : FullTransaction) : Pool × Bool :=
  if p.receiving then ({ p with buffer := p.buffer ++ [poolTx] }, true) else (p, false)

def onTxInserted (p : Pool) (txHash : Hash) : Pool × Except ErrorKind Unit :=
  if p.listening then ({ p with messages := p.messages ++ [txHash] }, .ok ())
  else (p, .error .channel)

def insert (support : Support) (p : Pool) (tx : Transaction) : Pool × Except ErrorKind Unit :=
  match p.checkCapacity with
  | .error e => (p, .error e)
  | .ok () =>
      match hashTransaction support tx with
      | .error e => (p, .error e)
      | .ok txHash =>
          match p.checkPoolExist txHash with
          | .error e => (p, .error e)
          | .ok () =>
              match validateTransaction support txHash tx with
              | .error e => (p, .error e)
              | .ok () =>
                  match p.mapInsert { tx, txHash } with
                  | (p, true) => (p, .error (.insertError (.duplicatedTx txHash)))
                  | (p, false) =>
                      match p.bufferSend { tx, txHash } with
                      | (p, false) => (p.mapRemove txHash, .error .channel)
                      | (p, true) => p.onTxInserted txHash

def queueRetain (p : Pool) (txHashSet : List Hash) : Pool :=
  { p with queue := p.queue.filter fun x => x.txHash ∉ txHashSet }

def mapRetain (p : Pool) (txHashSet : List Hash) : Pool :=
  { p with map := p.map.retain fun k _ => k ∉ txHashSet }

def remove (p : Pool) (txHashSet : List Hash) : Pool :=
  (p.queueRetain txHashSet).mapRetain txHashSet

/-- `BufferStream`: the first transaction of the buffer. -/
def drain (p : Pool) : Pool :=
  match p.buffer with
  | poolTx :: buffer => { p with buffer, queue := p.queue ++ [poolTx] }
  | [] => p

/-- The runtime drops `BufferStream`, and with it what is in the buffer. -/
def stopReceiving (p : Pool) : Pool := { p with receiving := false, buffer := [] }

end Pool

/-! ## Callers -/

/-- A call of `insert` or `remove` at the step that is next. -/
inductive Call
  | checkCapacity (tx : Transaction)
  | checkPoolExist (tx : Transaction)
  | validateTransaction (poolTx : FullTransaction)
  | mapInsert (poolTx : FullTransaction)
  | bufferSend (poolTx : FullTransaction)
  | mapRemove (txHash : Hash)
  | onTxInserted (txHash : Hash)
  | queueRetain (txHashSet : List Hash)
  | mapRetain (txHashSet : List Hash)
  | done (result : Except ErrorKind Unit)
  deriving DecidableEq

/-- A call goes on unless there was an error. -/
def Call.andThen (result : Except ErrorKind Unit) (next : Call) : Call :=
  match result with
  | .error e => .done (.error e)
  | .ok () => next

/-- The next atomic step of a call. -/
def Call.advance (support : Support) (p : Pool) : Call → Pool × Call
  | .checkCapacity tx => (p, .andThen p.checkCapacity (.checkPoolExist tx))
  | .checkPoolExist tx =>
      match Pool.hashTransaction support tx with
      | .error e => (p, .done (.error e))
      | .ok txHash => (p, .andThen (p.checkPoolExist txHash) (.validateTransaction { tx, txHash }))
  | .validateTransaction poolTx =>
      (p, .andThen (Pool.validateTransaction support poolTx.txHash poolTx.tx) (.mapInsert poolTx))
  | .mapInsert poolTx =>
      match p.mapInsert poolTx with
      | (p, true) => (p, .done (.error (.insertError (.duplicatedTx poolTx.txHash))))
      | (p, false) => (p, .bufferSend poolTx)
  | .bufferSend poolTx =>
      match p.bufferSend poolTx with
      | (p, false) => (p, .mapRemove poolTx.txHash)
      | (p, true) => (p, .onTxInserted poolTx.txHash)
  | .mapRemove txHash => (p.mapRemove txHash, .done (.error .channel))
  | .onTxInserted txHash =>
      match p.onTxInserted txHash with
      | (p, result) => (p, .done result)
  | .queueRetain txHashSet => (p.queueRetain txHashSet, .mapRetain txHashSet)
  | .mapRetain txHashSet => (p.mapRetain txHashSet, .done (.ok ()))
  | .done result => (p, .done result)

/-- The first `n` steps of a call without others in between. -/
def Call.alone (support : Support) : Nat → Pool × Call → Pool × Call
  | 0, pc => pc
  | n + 1, (p, call) => alone support n (call.advance support p)

/-- The steps of `insert` are those of the function. -/
theorem Call.alone_insert (support : Support) (p : Pool) (tx : Transaction) :
    Call.alone support 6 (p, .checkCapacity tx) =
      ((p.insert support tx).1, .done (p.insert support tx).2) := by
  unfold Pool.insert
  cases hcapacity : p.checkCapacity with
  | error e => simp [alone, advance, andThen, hcapacity]
  | ok u =>
      cases hhash : Pool.hashTransaction support tx with
      | error e => simp [alone, advance, andThen, hcapacity, hhash]
      | ok txHash =>
          cases hexist : p.checkPoolExist txHash with
          | error e => simp [alone, advance, andThen, hcapacity, hhash, hexist]
          | ok u =>
              cases hvalid : Pool.validateTransaction support txHash tx with
              | error e => simp [alone, advance, andThen, hcapacity, hhash, hexist, hvalid]
              | ok u =>
                  simp only [alone, advance, andThen, hcapacity, hhash, hexist, hvalid]
                  rcases hmap : p.mapInsert ⟨tx, txHash⟩ with ⟨p₁, _ | _⟩
                  · rcases hbuffer : p₁.bufferSend ⟨tx, txHash⟩ with ⟨p₂, _ | _⟩
                    · simp [hbuffer]
                    · simp [hbuffer]
                  · rfl

/-- The steps of `remove` are those of the function. -/
theorem Call.alone_remove (support : Support) (p : Pool) (txHashSet : List Hash) :
    Call.alone support 2 (p, .queueRetain txHashSet) = (p.remove txHashSet, .done (.ok ())) := rfl

/-! ## Runs -/

/-- A call with the maps before and after each of its steps. -/
structure Task where
  call : Call
  changes : List (LinkedMap Hash FullTransaction × LinkedMap Hash FullTransaction)

def Task.start (call : Call) : Task := { call, changes := [] }

/-- `sent` are the transactions sent to the buffer so far, `lost` those that were dropped with
it, and `removed` the hashes that were removed and not inserted again. -/
structure World where
  pool : Pool
  tasks : List Task
  sent : List FullTransaction
  lost : List FullTransaction
  removed : List Hash

inductive Event
  | insert (tx : Transaction)
  | remove (txHashSet : List Hash)
  | advance (i : Nat) (support : Support)
  | drain
  | stopReceiving
  | stopListening

namespace World

def new (poolCapacity : Nat) : World where
  pool := .new poolCapacity
  tasks := []
  sent := []
  lost := []
  removed := []

/-- What has been sent when a call has taken a step. -/
def sentAfter (sent : List FullTransaction) (p : Pool) : Call → List FullTransaction
  | .bufferSend poolTx => if p.receiving then sent ++ [poolTx] else sent
  | _ => sent

/-- What is removed when a call has taken a step. -/
def removedAfter (removed : List Hash) : Call → List Hash
  | .mapInsert poolTx => removed.filter (· ≠ poolTx.txHash)
  | .mapRetain txHashSet => txHashSet ++ removed
  | _ => removed

/-- A call takes a step. -/
def advance (w : World) (support : Support) (i : Nat) (task : Task) : World :=
  let next := task.call.advance support w.pool
  { pool := next.1
    tasks := w.tasks.set i
      { call := next.2, changes := task.changes ++ [(w.pool.map, next.1.map)] }
    sent := sentAfter w.sent w.pool task.call
    lost := w.lost
    removed := removedAfter w.removed task.call }

def step (w : World) : Event → World
  | .insert tx => { w with tasks := w.tasks ++ [.start (.checkCapacity tx)] }
  | .remove txHashSet => { w with tasks := w.tasks ++ [.start (.queueRetain txHashSet)] }
  | .advance i support =>
      match w.tasks[i]? with
      | some task => w.advance support i task
      | none => w
  | .drain => { w with pool := w.pool.drain }
  | .stopReceiving => { w with pool := w.pool.stopReceiving, lost := w.lost ++ w.pool.buffer }
  | .stopListening => { w with pool := { w.pool with listening := false } }

end World

/-- The states of the runs all of whose events satisfy `Q` when they happen. -/
inductive Run (Q : World → Event → Prop) : World → Prop
  | new (poolCapacity : Nat) : Run Q (.new poolCapacity)
  | step {w : World} {event : Event} (hrun : Run Q w) (hevent : Q w event) : Run Q (w.step event)

section Along

variable {Q : World → Event → Prop}

/-- Every event of the list satisfies `Q` when it happens. -/
def Along (Q : World → Event → Prop) : World → List Event → Prop
  | _, [] => True
  | w, event :: events => Q w event ∧ Along Q (w.step event) events

instance [∀ w event, Decidable (Q w event)] : ∀ w events, Decidable (Along Q w events)
  | _, [] => .isTrue trivial
  | w, event :: events =>
      have := instDecidableAlong (w.step event) events
      inferInstanceAs (Decidable (Q w event ∧ Along Q (w.step event) events))

theorem Run.foldl {w : World} (hrun : Run Q w) {events : List Event} (h : Along Q w events) :
    Run Q (events.foldl World.step w) := by
  induction events generalizing w with
  | nil => exact hrun
  | cons event events ih => exact ih (hrun.step h.1) h.2

end Along

end Finastate.TxPool
