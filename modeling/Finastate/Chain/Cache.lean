import Finastate.Chain.Prepare

/-!
# The cached state

`commit_block` holds a lock and `commit_execution` takes none, and both end in
`update_current_state`, which reads the two numbers one after the other and
writes the cached state last. So a thread can overwrite what the other one has
cached with what it read before. `Phase` is where a thread stands, and a run
interleaves the phases of the two threads.
-/

namespace Finastate.Chain

open Executor Relation

/-! ## The steps of an update -/

/-- Where a commit stands: the database is written, the confirmed number is read,
both numbers are read. -/
inductive Phase where
  | idle
  | written
  | confirmed (confirmedNumber : BlockNumber)
  | executed (confirmedNumber executedNumber : BlockNumber)
  deriving DecidableEq, Repr

namespace Phase

/-- The confirmed number that the thread has read. -/
def confirmed? : Phase → Option BlockNumber
  | idle | written => none
  | confirmed number | executed number _ => some number

/-- The execution number that the thread has read. -/
def executed? : Phase → Option BlockNumber
  | idle | written | confirmed _ => none
  | executed _ number => some number

end Phase

namespace Backend

variable (backend : Backend)

/-- `update_current_state` once it has read both numbers. -/
def currentStateAt (db : DB) (confirmedNumber executedNumber : BlockNumber) (now : Nat) :
    Except ErrorKind CurrentState := do
  let confirmedBlockHash ←
    orData (noNumber confirmedNumber) (db.getBlockHash confirmedNumber)
  let header ← orData ("Invalid block hash: " ++ toString confirmedNumber)
    (db.getHeader confirmedBlockHash)
  let executedBlockHash ← orData (noNumber executedNumber) (db.getBlockHash executedNumber)
  let execution ← orData ("Not executed block hash: " ++ hexEncode executedBlockHash.bytes)
    (db.getExecution executedBlockHash)
  let env : ContextEnv := { number := confirmedNumber + 1, timestamp := now }
  let contextEssence ← backend.contextEssence db env header.metaStateRoot
    execution.payloadExecutionStateRoot
  let systemMeta ← getMeta contextEssence.metaState
  let genesisHash ← orData "Missing genesis block" (db.getBlockHash 0)
  return { genesisHash, contextEssence, systemMeta, confirmedNumber, confirmedBlockHash,
           executedNumber, executedBlockHash }

/-- What one step of an update leaves: the phase, and the cached state. An error
ends the update. -/
def advance (db : DB) (now : Nat) (current : CurrentState) : Phase → Phase × CurrentState
  | .idle => (.idle, current)
  | .written =>
      match db.confirmedNumber with
      | none => (.idle, current)
      | some number => (.confirmed number, current)
  | .confirmed confirmedNumber =>
      match db.executionNumber with
      | none => (.idle, current)
      | some number => (.executed confirmedNumber number, current)
  | .executed confirmedNumber executedNumber =>
      match backend.currentStateAt db confirmedNumber executedNumber now with
      | .error _ => (.idle, current)
      | .ok state => (.idle, state)

variable {backend} {db : DB} {confirmedNumber executedNumber : BlockNumber} {now : Nat}
  {state : CurrentState}

theorem currentStateAt_eq_ok
    (h : backend.currentStateAt db confirmedNumber executedNumber now = .ok state) :
    state.confirmedNumber = confirmedNumber ∧ state.executedNumber = executedNumber ∧
      db.getBlockHash confirmedNumber = some state.confirmedBlockHash ∧
      db.getBlockHash executedNumber = some state.executedBlockHash := by
  obtain ⟨confirmedBlockHash, hconfirmed, h⟩ := Result.bind_eq_ok.1 h
  obtain ⟨header, -, h⟩ := Result.bind_eq_ok.1 h
  obtain ⟨executedBlockHash, hexecuted, h⟩ := Result.bind_eq_ok.1 h
  obtain ⟨execution, -, h⟩ := Result.bind_eq_ok.1 h
  obtain ⟨essence, -, h⟩ := Result.bind_eq_ok.1 h
  obtain ⟨systemMeta, -, h⟩ := Result.bind_eq_ok.1 h
  obtain ⟨genesisHash, -, h⟩ := Result.bind_eq_ok.1 h
  rw [orData_eq_ok] at hconfirmed hexecuted
  cases h
  exact ⟨rfl, rfl, hconfirmed, hexecuted⟩

/-- An update that nothing interrupts is `update_current_state`. -/
theorem updateCurrentState_eq_ok_iff :
    backend.updateCurrentState db now = .ok state ↔
      ∃ confirmedNumber executedNumber, db.confirmedNumber = some confirmedNumber ∧
        db.executionNumber = some executedNumber ∧
        backend.currentStateAt db confirmedNumber executedNumber now = .ok state := by
  constructor
  · intro h
    obtain ⟨number, hnumber, h⟩ := Result.bind_eq_ok.1 h
    obtain ⟨blockHash, hblockHash, h⟩ := Result.bind_eq_ok.1 h
    obtain ⟨header, hheader, h⟩ := Result.bind_eq_ok.1 h
    obtain ⟨executed, hexecuted, h⟩ := Result.bind_eq_ok.1 h
    exact ⟨number, executed, orData_eq_ok.1 hnumber, orData_eq_ok.1 hexecuted,
      Result.bind_eq_ok.2 ⟨_, hblockHash, Result.bind_eq_ok.2 ⟨_, hheader, h⟩⟩⟩
  · rintro ⟨number, executed, hnumber, hexecuted, h⟩
    obtain ⟨blockHash, hblockHash, h⟩ := Result.bind_eq_ok.1 h
    obtain ⟨header, hheader, h⟩ := Result.bind_eq_ok.1 h
    exact Result.bind_eq_ok.2 ⟨number, orData_eq_ok.2 hnumber, Result.bind_eq_ok.2
      ⟨blockHash, hblockHash, Result.bind_eq_ok.2 ⟨header, hheader, Result.bind_eq_ok.2
        ⟨executed, orData_eq_ok.2 hexecuted, h⟩⟩⟩⟩

end Backend

/-! ## Two threads -/

/-- The database and the cached state, with the block committer and the execution
thread. -/
structure Cached where
  db : DB
  current : CurrentState
  committer : Phase
  executor : Phase

namespace Cached

variable (backend : Backend)

/-- The block committer goes on with its update. -/
def advanceCommitter (s : Cached) (now : Nat) : Cached :=
  { s with
    current := (backend.advance s.db now s.current s.committer).2
    committer := (backend.advance s.db now s.current s.committer).1 }

/-- The execution thread goes on with its update. -/
def advanceExecutor (s : Cached) (now : Nat) : Cached :=
  { s with
    current := (backend.advance s.db now s.current s.executor).2
    executor := (backend.advance s.db now s.current s.executor).1 }

/-- The threads start their commits when they are idle, the committer with a
block that passes the tests of `commit_block`, and go on with them in any
order. -/
inductive Step : Cached → Cached → Prop where
  | commitBlock {s : Cached} {params : ChainCommitBlockParams} (hidle : s.committer = .idle)
      (hplaced : s.db.Placed params) :
      Step s { s with db := s.db.commitBlock params, committer := .written }
  | commitExecution {s : Cached} {params : ChainCommitExecutionParams}
      (hidle : s.executor = .idle) :
      Step s { s with db := s.db.commitExecution params, executor := .written }
  | committer {s : Cached} (now : Nat) : Step s (s.advanceCommitter backend now)
  | executor {s : Cached} (now : Nat) : Step s (s.advanceExecutor backend now)

/-- A step in a good order. No execution is committed below the last one. A
thread only caches a state if it can be built, and if the other thread does not
hold the number that this commit has replaced. -/
inductive Orderly : Cached → Cached → Prop where
  | commitBlock {s : Cached} {params : ChainCommitBlockParams} (hidle : s.committer = .idle)
      (hplaced : s.db.Placed params) :
      Orderly s { s with db := s.db.commitBlock params, committer := .written }
  | commitExecution {s : Cached} {params : ChainCommitExecutionParams}
      (hidle : s.executor = .idle)
      (hnumber : ∀ number, s.db.executionNumber = some number → number ≤ params.number) :
      Orderly s { s with db := s.db.commitExecution params, executor := .written }
  | committer {s : Cached} (now : Nat)
      (hcache : ∀ confirmedNumber executedNumber,
        s.committer = .executed confirmedNumber executedNumber →
        (∃ state, backend.currentStateAt s.db confirmedNumber executedNumber now = .ok state) ∧
          ∀ number, s.executor.confirmed? = some number → s.db.confirmedNumber = some number) :
      Orderly s (s.advanceCommitter backend now)
  | executor {s : Cached} (now : Nat)
      (hcache : ∀ confirmedNumber executedNumber,
        s.executor = .executed confirmedNumber executedNumber →
        (∃ state, backend.currentStateAt s.db confirmedNumber executedNumber now = .ok state) ∧
          ∀ number, s.committer.executed? = some number → s.db.executionNumber = some number) :
      Orderly s (s.advanceExecutor backend now)

variable {backend}

theorem Orderly.step {s s' : Cached} (h : Orderly backend s s') : Step backend s s' := by
  cases h with
  | commitBlock hidle hplaced => exact .commitBlock hidle hplaced
  | commitExecution hidle hnumber => exact .commitExecution hidle
  | committer now hcache => exact .committer now
  | executor now hcache => exact .executor now

/-- A thread reads at any time. -/
theorem Orderly.committer_read {s : Cached} (now : Nat) (h : s.committer.executed? = none) :
    Orderly backend s (s.advanceCommitter backend now) :=
  .committer now fun _ _ hphase => by rw [hphase] at h; cases h

theorem Orderly.executor_read {s : Cached} (now : Nat) (h : s.executor.executed? = none) :
    Orderly backend s (s.advanceExecutor backend now) :=
  .executor now fun _ _ hphase => by rw [hphase] at h; cases h

/-- A thread caches what it has read while the other one has read nothing. -/
theorem Orderly.committer_cache {s : Cached} {now : ℕ} (confirmedNumber executedNumber : ℕ)
    (h : s.committer = .executed confirmedNumber executedNumber)
    (hstate : (backend.currentStateAt s.db confirmedNumber executedNumber now).isOk)
    (hother : s.executor.confirmed? = none) :
    Orderly backend s (s.advanceCommitter backend now) := by
  refine .committer now fun confirmed executed hphase => ?_
  obtain ⟨rfl, rfl⟩ := Phase.executed.inj (h.symm.trans hphase)
  refine ⟨⟨_, Result.eq_ok_get _ hstate⟩, fun number hnumber => ?_⟩
  rw [hother] at hnumber
  cases hnumber

theorem Orderly.executor_cache {s : Cached} {now : ℕ} (confirmedNumber executedNumber : ℕ)
    (h : s.executor = .executed confirmedNumber executedNumber)
    (hstate : (backend.currentStateAt s.db confirmedNumber executedNumber now).isOk)
    (hother : s.committer.executed? = none) :
    Orderly backend s (s.advanceExecutor backend now) := by
  refine .executor now fun confirmed executed hphase => ?_
  obtain ⟨rfl, rfl⟩ := Phase.executed.inj (h.symm.trans hphase)
  refine ⟨⟨_, Result.eq_ok_get _ hstate⟩, fun number hnumber => ?_⟩
  rw [hother] at hnumber
  cases hnumber

/-- The cached state is the one of the numbers in the database. -/
structure UpToDate (s : Cached) : Prop where
  confirmedNumber : s.db.confirmedNumber = some s.current.confirmedNumber
  confirmedBlockHash : s.db.getBlockHash s.current.confirmedNumber =
    some s.current.confirmedBlockHash
  executedNumber : s.db.executionNumber = some s.current.executedNumber
  executedBlockHash : s.db.getBlockHash s.current.executedNumber =
    some s.current.executedBlockHash

/-- A node after it has been opened, with the database of any run. -/
def Opened (backend : Backend) (s : Cached) : Prop :=
  s.committer = .idle ∧ s.executor = .idle ∧
    (∃ Prepares txs timestamp node, Reach backend Prepares txs timestamp node ∧ s.db = node.db) ∧
    ∃ now, backend.updateCurrentState s.db now = .ok s.current

/-- What the threads hold, and what is cached, against the numbers in the
database. -/
structure Tracks (s : Cached) (confirmed executed : ℕ) : Prop where
  confirmedNumber : s.db.confirmedNumber = some confirmed
  executionNumber : s.db.executionNumber = some executed
  stored : ∀ number, (s.db.getBlockHash number).isSome → number ≤ confirmed
  confirmedBlockHash : s.db.getBlockHash s.current.confirmedNumber =
    some s.current.confirmedBlockHash
  executedBlockHash : s.db.getBlockHash s.current.executedNumber =
    some s.current.executedBlockHash
  confirmed_le : s.current.confirmedNumber ≤ confirmed
  executed_le : s.current.executedNumber ≤ executed
  committerConfirmed : ∀ number, s.committer.confirmed? = some number → number = confirmed
  committerExecuted : ∀ number, s.committer.executed? = some number →
    s.current.executedNumber ≤ number ∧ number ≤ executed
  executorConfirmed : ∀ number, s.executor.confirmed? = some number →
    s.current.confirmedNumber ≤ number ∧ number ≤ confirmed
  executorExecuted : ∀ number, s.executor.executed? = some number → number = executed
  committerIdle : s.committer = .idle → s.current.confirmedNumber = confirmed ∧
    ∀ number, s.executor.confirmed? = some number → number = confirmed
  executorIdle : s.executor = .idle → s.current.executedNumber = executed ∧
    ∀ number, s.committer.executed? = some number → number = executed

theorem Opened.tracks {s : Cached} (h : s.Opened backend) :
    ∃ confirmedNumber executedNumber, s.Tracks confirmedNumber executedNumber := by
  obtain ⟨hcommitter, hexecutor, ⟨Prepares, txs, timestamp, node, hreach, hdb⟩, now, hcurrent⟩ := h
  have hchain : s.db.Chained node.chain := hdb ▸ hreach.chained
  obtain ⟨confirmedNumber, executedNumber, hconfirmed, hexecuted, hstate⟩ :=
    Backend.updateCurrentState_eq_ok_iff.1 hcurrent
  obtain ⟨rfl, rfl, hconfirmedHash, hexecutedHash⟩ := Backend.currentStateAt_eq_ok hstate
  refine ⟨s.current.confirmedNumber, s.current.executedNumber, ?_⟩
  have hstored : ∀ number, (s.db.getBlockHash number).isSome →
      number ≤ s.current.confirmedNumber := by
    intro number hsome
    obtain ⟨number', hconfirmed', hlength⟩ := hchain.confirmed
    obtain rfl := Option.some.inj (hconfirmed'.symm.trans hconfirmed)
    rw [hchain.blockHash, Option.isSome_map] at hsome
    obtain ⟨p, hp⟩ := Option.isSome_iff_exists.1 hsome
    have hlt := (List.getElem?_eq_some_iff.1 hp).1
    rw [hlength] at hlt
    exact Nat.le_of_lt_succ hlt
  constructor
  case confirmedNumber => exact hconfirmed
  case executionNumber => exact hexecuted
  case stored => exact hstored
  case confirmedBlockHash => exact hconfirmedHash
  case executedBlockHash => exact hexecutedHash
  case confirmed_le => exact le_refl _
  case executed_le => exact le_refl _
  all_goals simp [hcommitter, hexecutor, Phase.confirmed?, Phase.executed?]

section Orderly

variable {s s' : Cached} {confirmed executed : ℕ}

theorem Tracks.commitBlock (h : s.Tracks confirmed executed) {params : ChainCommitBlockParams}
    (hplaced : s.db.Placed params) :
    Tracks { s with db := s.db.commitBlock params, committer := .written } (confirmed + 1)
      executed := by
  obtain ⟨number, hnumber, hnext, -⟩ := hplaced.next
  obtain rfl := Option.some.inj (hnumber.symm.trans h.confirmedNumber)
  have hkept : ∀ k blockHash, s.db.getBlockHash k = some blockHash →
      (s.db.commitBlock params).getBlockHash k = some blockHash := by
    intro k blockHash hget
    have hle := h.stored k (by rw [hget]; rfl)
    rw [DB.getBlockHash_commitBlock, hnext, if_neg (Nat.lt_succ_of_le hle).ne, hget]
  constructor
  case confirmedNumber => exact congrArg some hnext
  case executionNumber => exact h.executionNumber
  case stored =>
    intro k hsome
    rw [DB.getBlockHash_commitBlock, hnext] at hsome
    split at hsome
    · next heq => exact heq.le
    · exact (h.stored k hsome).trans (Nat.le_succ _)
  case confirmedBlockHash => exact hkept _ _ h.confirmedBlockHash
  case executedBlockHash => exact hkept _ _ h.executedBlockHash
  case confirmed_le => exact h.confirmed_le.trans (Nat.le_succ _)
  case executed_le => exact h.executed_le
  case committerConfirmed => nofun
  case committerExecuted => nofun
  case executorConfirmed =>
    intro k hk
    obtain ⟨hcurrent, hle⟩ := h.executorConfirmed k hk
    exact ⟨hcurrent, hle.trans (Nat.le_succ _)⟩
  case executorExecuted => exact h.executorExecuted
  case committerIdle => nofun
  case executorIdle => exact fun hexecutor => ⟨(h.executorIdle hexecutor).1, nofun⟩

theorem Tracks.commitExecution (h : s.Tracks confirmed executed)
    {params : ChainCommitExecutionParams} (hnumber : executed ≤ params.number) :
    Tracks { s with db := s.db.commitExecution params, executor := .written } confirmed
      params.number := by
  constructor
  case confirmedNumber => exact h.confirmedNumber
  case executionNumber => rfl
  case stored => exact h.stored
  case confirmedBlockHash => exact h.confirmedBlockHash
  case executedBlockHash => exact h.executedBlockHash
  case confirmed_le => exact h.confirmed_le
  case executed_le => exact h.executed_le.trans hnumber
  case committerConfirmed => exact h.committerConfirmed
  case committerExecuted =>
    intro k hk
    obtain ⟨hcurrent, hle⟩ := h.committerExecuted k hk
    exact ⟨hcurrent, hle.trans hnumber⟩
  case executorConfirmed => nofun
  case executorExecuted => nofun
  case committerIdle => exact fun hcommitter => ⟨(h.committerIdle hcommitter).1, nofun⟩
  case executorIdle => nofun

theorem Tracks.advanceCommitter (h : s.Tracks confirmed executed) {now : Nat}
    (hcache : ∀ confirmedNumber executedNumber,
      s.committer = .executed confirmedNumber executedNumber →
      (∃ state, backend.currentStateAt s.db confirmedNumber executedNumber now = .ok state) ∧
        ∀ number, s.executor.confirmed? = some number → s.db.confirmedNumber = some number) :
    (s.advanceCommitter backend now).Tracks confirmed executed ∧
      s.current.confirmedNumber ≤ (s.advanceCommitter backend now).current.confirmedNumber ∧
      s.current.executedNumber ≤ (s.advanceCommitter backend now).current.executedNumber := by
  obtain ⟨db, current, committer, executor⟩ := s
  cases committer with
  | idle => exact ⟨h, le_refl _, le_refl _⟩
  | written =>
      have hstep : advanceCommitter backend ⟨db, current, .written, executor⟩ now =
          ⟨db, current, .confirmed confirmed, executor⟩ := by
        simp only [Cached.advanceCommitter, Backend.advance, show db.confirmedNumber = _ from
          h.confirmedNumber]
      rw [hstep]
      refine ⟨?_, le_refl _, le_refl _⟩
      refine { h with
        committerConfirmed := ?_, committerExecuted := nofun, committerIdle := nofun
        executorIdle := ?_ }
      · rintro _ ⟨⟩
        rfl
      · exact fun hexecutor => ⟨(h.executorIdle hexecutor).1, nofun⟩
  | confirmed confirmedNumber =>
      have hstep : advanceCommitter backend ⟨db, current, .confirmed confirmedNumber, executor⟩
          now = ⟨db, current, .executed confirmedNumber executed, executor⟩ := by
        simp only [Cached.advanceCommitter, Backend.advance, show db.executionNumber = _ from
          h.executionNumber]
      rw [hstep]
      refine ⟨?_, le_refl _, le_refl _⟩
      refine { h with
        committerConfirmed := h.committerConfirmed, committerExecuted := ?_
        committerIdle := nofun, executorIdle := ?_ }
      · rintro _ ⟨⟩
        exact ⟨h.executed_le, le_refl _⟩
      · refine fun hexecutor => ⟨(h.executorIdle hexecutor).1, ?_⟩
        rintro _ ⟨⟩
        rfl
  | executed confirmedNumber executedNumber =>
      obtain ⟨⟨state, hstate⟩, hexecutor⟩ := hcache _ _ rfl
      have hstep : advanceCommitter backend
          ⟨db, current, .executed confirmedNumber executedNumber, executor⟩ now =
            ⟨db, state, .idle, executor⟩ := by
        simp only [Cached.advanceCommitter, Backend.advance, show Backend.currentStateAt _ db _ _ _ =
          _ from hstate]
      obtain ⟨rfl, rfl, hconfirmedHash, hexecutedHash⟩ := Backend.currentStateAt_eq_ok hstate
      have hconfirmed : state.confirmedNumber = confirmed := h.committerConfirmed _ rfl
      obtain ⟨hge, hle⟩ := h.committerExecuted _ rfl
      have hheld : ∀ number, executor.confirmed? = some number → number = confirmed :=
        fun number hnumber => Option.some.inj ((hexecutor number hnumber).symm.trans
          h.confirmedNumber)
      rw [hstep]
      refine ⟨?_, h.confirmed_le.trans hconfirmed.ge, hge⟩
      constructor
      case confirmedNumber => exact h.confirmedNumber
      case executionNumber => exact h.executionNumber
      case stored => exact h.stored
      case confirmedBlockHash => exact hconfirmedHash
      case executedBlockHash => exact hexecutedHash
      case confirmed_le => exact hconfirmed.le
      case executed_le => exact hle
      case committerConfirmed => nofun
      case committerExecuted => nofun
      case executorConfirmed =>
        intro number hnumber
        rw [hheld number hnumber]
        exact ⟨hconfirmed.le, le_refl _⟩
      case executorExecuted => exact h.executorExecuted
      case committerIdle => exact fun _ => ⟨hconfirmed, hheld⟩
      case executorIdle => exact fun hidle => ⟨(h.executorIdle hidle).2 _ rfl, nofun⟩

theorem Tracks.advanceExecutor (h : s.Tracks confirmed executed) {now : Nat}
    (hcache : ∀ confirmedNumber executedNumber,
      s.executor = .executed confirmedNumber executedNumber →
      (∃ state, backend.currentStateAt s.db confirmedNumber executedNumber now = .ok state) ∧
        ∀ number, s.committer.executed? = some number → s.db.executionNumber = some number) :
    (s.advanceExecutor backend now).Tracks confirmed executed ∧
      s.current.confirmedNumber ≤ (s.advanceExecutor backend now).current.confirmedNumber ∧
      s.current.executedNumber ≤ (s.advanceExecutor backend now).current.executedNumber := by
  obtain ⟨db, current, committer, executor⟩ := s
  cases executor with
  | idle => exact ⟨h, le_refl _, le_refl _⟩
  | written =>
      have hstep : advanceExecutor backend ⟨db, current, committer, .written⟩ now =
          ⟨db, current, committer, .confirmed confirmed⟩ := by
        simp only [Cached.advanceExecutor, Backend.advance, show db.confirmedNumber = _ from
          h.confirmedNumber]
      rw [hstep]
      refine ⟨?_, le_refl _, le_refl _⟩
      refine { h with
        executorConfirmed := ?_, executorExecuted := nofun, committerIdle := ?_
        executorIdle := nofun }
      · rintro _ ⟨⟩
        exact ⟨h.confirmed_le, le_refl _⟩
      · refine fun hcommitter => ⟨(h.committerIdle hcommitter).1, ?_⟩
        rintro _ ⟨⟩
        rfl
  | confirmed confirmedNumber =>
      have hstep : advanceExecutor backend ⟨db, current, committer, .confirmed confirmedNumber⟩
          now = ⟨db, current, committer, .executed confirmedNumber executed⟩ := by
        simp only [Cached.advanceExecutor, Backend.advance, show db.executionNumber = _ from
          h.executionNumber]
      rw [hstep]
      refine ⟨?_, le_refl _, le_refl _⟩
      refine { h with
        executorConfirmed := h.executorConfirmed, executorExecuted := ?_
        committerIdle := h.committerIdle, executorIdle := nofun }
      rintro _ ⟨⟩
      rfl
  | executed confirmedNumber executedNumber =>
      obtain ⟨⟨state, hstate⟩, hcommitter⟩ := hcache _ _ rfl
      have hstep : advanceExecutor backend
          ⟨db, current, committer, .executed confirmedNumber executedNumber⟩ now =
            ⟨db, state, committer, .idle⟩ := by
        simp only [Cached.advanceExecutor, Backend.advance, show Backend.currentStateAt _ db _ _ _ =
          _ from hstate]
      obtain ⟨rfl, rfl, hconfirmedHash, hexecutedHash⟩ := Backend.currentStateAt_eq_ok hstate
      have hexecuted : state.executedNumber = executed := h.executorExecuted _ rfl
      obtain ⟨hge, hle⟩ := h.executorConfirmed _ rfl
      have hheld : ∀ number, committer.executed? = some number → number = executed :=
        fun number hnumber => Option.some.inj ((hcommitter number hnumber).symm.trans
          h.executionNumber)
      rw [hstep]
      refine ⟨?_, hge, h.executed_le.trans hexecuted.ge⟩
      constructor
      case confirmedNumber => exact h.confirmedNumber
      case executionNumber => exact h.executionNumber
      case stored => exact h.stored
      case confirmedBlockHash => exact hconfirmedHash
      case executedBlockHash => exact hexecutedHash
      case confirmed_le => exact hle
      case executed_le => exact hexecuted.le
      case committerConfirmed => exact h.committerConfirmed
      case committerExecuted =>
        intro number hnumber
        rw [hheld number hnumber]
        exact ⟨hexecuted.le, le_refl _⟩
      case executorConfirmed => nofun
      case executorExecuted => nofun
      case committerIdle => exact fun hidle => ⟨(h.committerIdle hidle).2 _ rfl, nofun⟩
      case executorIdle => exact fun _ => ⟨hexecuted, hheld⟩

/-- A step in a good order keeps track of the numbers, and no cached number goes
down. -/
theorem Orderly.tracks (hstep : Orderly backend s s') (h : s.Tracks confirmed executed) :
    (∃ confirmed executed, s'.Tracks confirmed executed) ∧
      s.current.confirmedNumber ≤ s'.current.confirmedNumber ∧
      s.current.executedNumber ≤ s'.current.executedNumber := by
  cases hstep with
  | commitBlock hidle hplaced => exact ⟨⟨_, _, h.commitBlock hplaced⟩, le_refl _, le_refl _⟩
  | commitExecution hidle hnumber =>
      exact ⟨⟨_, _, h.commitExecution (hnumber _ h.executionNumber)⟩, le_refl _, le_refl _⟩
  | committer now hcache =>
      obtain ⟨htracks, hle⟩ := h.advanceCommitter hcache
      exact ⟨⟨_, _, htracks⟩, hle⟩
  | executor now hcache =>
      obtain ⟨htracks, hle⟩ := h.advanceExecutor hcache
      exact ⟨⟨_, _, htracks⟩, hle⟩

theorem Tracks.upToDate (h : s.Tracks confirmed executed) (hcommitter : s.committer = .idle)
    (hexecutor : s.executor = .idle) : s.UpToDate where
  confirmedNumber := by rw [h.confirmedNumber, (h.committerIdle hcommitter).1]
  confirmedBlockHash := h.confirmedBlockHash
  executedNumber := by rw [h.executionNumber, (h.executorIdle hexecutor).1]
  executedBlockHash := h.executedBlockHash

/-- A run in a good order. -/
theorem tracks_of_run (hrun : ReflTransGen (Orderly backend) s s')
    (h : s.Tracks confirmed executed) :
    (∃ confirmed executed, s'.Tracks confirmed executed) ∧
      s.current.confirmedNumber ≤ s'.current.confirmedNumber ∧
      s.current.executedNumber ≤ s'.current.executedNumber := by
  induction hrun with
  | refl => exact ⟨⟨_, _, h⟩, le_refl _, le_refl _⟩
  | tail hrun hstep ih =>
      obtain ⟨⟨confirmed, executed, htracks⟩, hconfirmed, hexecuted⟩ := ih
      obtain ⟨hnext, hconfirmed', hexecuted'⟩ := hstep.tracks htracks
      exact ⟨hnext, hconfirmed.trans hconfirmed', hexecuted.trans hexecuted'⟩

/-- In a run in a good order the cached state is up to date whenever no commit is
in flight, and its numbers never go down. -/
theorem upToDate_of_orderly {s₀ : Cached} (hopened : s₀.Opened backend)
    (hrun : ReflTransGen (Orderly backend) s₀ s) :
    (s.committer = .idle → s.executor = .idle → s.UpToDate) ∧
      ∀ s', ReflTransGen (Orderly backend) s s' →
        s.current.confirmedNumber ≤ s'.current.confirmedNumber ∧
          s.current.executedNumber ≤ s'.current.executedNumber := by
  obtain ⟨confirmed, executed, hopen⟩ := hopened.tracks
  obtain ⟨⟨confirmed', executed', htracks⟩, -⟩ := tracks_of_run hrun hopen
  exact ⟨htracks.upToDate, fun s' hrun' => (tracks_of_run hrun' htracks).2⟩

end Orderly

end Cached

/-! Block 1 is committed and cached, and block 2 up to the write of the cache when
the execution of block 1 is committed and cached. -/

namespace Sample

def cachedGenesis : Cached where
  db := genesis
  current := state
  committer := .idle
  executor := .idle

theorem isOk_buildOne : (backend.buildBlock genesis (emptyParams 1)).isOk = true := by
  decide +kernel

def blockOne : ChainCommitBlockParams :=
  Result.get (backend.buildBlock genesis (emptyParams 1)) isOk_buildOne

def writtenOne : Cached :=
  { cachedGenesis with db := genesis.commitBlock blockOne, committer := .written }

def cachedOne : Cached :=
  ((writtenOne.advanceCommitter backend 1).advanceCommitter backend 1).advanceCommitter backend 1

def blockTwo : ChainCommitBlockParams :=
  Result.get (backend.buildBlock cachedOne.db (emptyParams 2)) (by decide +kernel)

def writtenTwo : Cached :=
  { cachedOne with db := cachedOne.db.commitBlock blockTwo, committer := .written }

def readTwo : Cached :=
  (writtenTwo.advanceCommitter backend 2).advanceCommitter backend 2

def executionOne : ChainCommitExecutionParams :=
  Result.get (backend.executeTask readTwo.db (.ofParams blockOne)) (by decide +kernel)

def executedOne : Cached :=
  { readTwo with db := readTwo.db.commitExecution executionOne, executor := .written }

def cachedExecution : Cached :=
  ((executedOne.advanceExecutor backend 3).advanceExecutor backend 3).advanceExecutor backend 3

/-- The committer writes what it has read before the execution. -/
def overwritten : Cached := cachedExecution.advanceCommitter backend 4

example : overwritten.db.executionNumber = some 1 ∧ overwritten.current.executedNumber = 0 := by
  decide +kernel

theorem opened_genesis : cachedGenesis.Opened backend := by
  refine ⟨rfl, rfl, ⟨fun _ _ _ => True, _, _, _, reach_first _, rfl⟩, 0, ?_⟩
  exact Result.eq_ok_get _ _

theorem placed_blockOne : genesis.Placed blockOne where
  fresh := by decide +kernel
  next := ⟨0, by decide +kernel, by decide +kernel, by decide +kernel⟩

theorem placed_blockTwo : cachedOne.db.Placed blockTwo where
  fresh := by decide +kernel
  next := ⟨1, by decide +kernel, by decide +kernel, by decide +kernel⟩

theorem orderly_cachedOne : ReflTransGen (Cached.Orderly backend) cachedGenesis cachedOne :=
  (((ReflTransGen.single (.commitBlock rfl placed_blockOne)).tail (.committer_read 1 rfl)).tail
    (.committer_read 1 (by decide +kernel))).tail
      (.committer_cache 1 0 (by decide +kernel)
        (by decide +kernel) rfl)

theorem run_overwritten : ReflTransGen (Cached.Step backend) cachedGenesis overwritten := by
  have hone : ReflTransGen (Cached.Step backend) cachedGenesis cachedOne :=
    ReflTransGen.mono (fun _ _ h => Cached.Orderly.step h) _ _ orderly_cachedOne
  have hidle : cachedOne.committer = .idle := by decide +kernel
  have hread : ReflTransGen (Cached.Step backend) cachedOne readTwo :=
    ((ReflTransGen.single (.commitBlock hidle placed_blockTwo)).tail (.committer 2)).tail
      (.committer 2)
  have hexecution : ReflTransGen (Cached.Step backend) readTwo cachedExecution :=
    (((ReflTransGen.single (.commitExecution (by decide +kernel))).tail (.executor 3)).tail
      (.executor 3)).tail (.executor 3)
  exact ((hone.trans hread).trans hexecution).tail (.committer 4)

end Sample

/-- Both commits are over, and the cached state misses the execution. -/
theorem not_upToDate_overwritten :
    ¬ ∀ (backend : Backend) (s₀ s : Cached), s₀.Opened backend →
      ReflTransGen (Cached.Step backend) s₀ s →
      (s.committer = .idle → s.executor = .idle → s.UpToDate) ∧
        ∀ s', ReflTransGen (Cached.Step backend) s s' →
          s.current.confirmedNumber ≤ s'.current.confirmedNumber ∧
            s.current.executedNumber ≤ s'.current.executedNumber := by
  intro h
  have hupToDate := (h Sample.backend Sample.cachedGenesis Sample.overwritten Sample.opened_genesis
    Sample.run_overwritten).1 (by decide +kernel) (by decide +kernel)
  have hstale : Sample.overwritten.db.executionNumber ≠
      some Sample.overwritten.current.executedNumber := by
    decide +kernel
  exact hstale hupToDate.executedNumber

namespace Sample

/-- The execution of block 1 is committed after block 2 is written. -/
def executedInside : Cached :=
  { writtenTwo with db := writtenTwo.db.commitExecution executionOne, executor := .written }

def cachedInside : Cached :=
  ((executedInside.advanceExecutor backend 3).advanceExecutor backend 3).advanceExecutor backend 3

def cachedTwo : Cached :=
  ((cachedInside.advanceCommitter backend 4).advanceCommitter backend 4).advanceCommitter backend 4

theorem orderly_cachedTwo : ReflTransGen (Cached.Orderly backend) cachedGenesis cachedTwo := by
  have hidle : cachedOne.committer = .idle := by decide +kernel
  have hwritten : ReflTransGen (Cached.Orderly backend) cachedOne executedInside := by
    refine (ReflTransGen.single (.commitBlock hidle placed_blockTwo)).tail
      (.commitExecution (by decide +kernel) ?_)
    decide +kernel
  have hexecution : ReflTransGen (Cached.Orderly backend) executedInside cachedInside :=
    ((ReflTransGen.single (.executor_read 3 rfl)).tail
      (.executor_read 3 (by decide +kernel))).tail
        (.executor_cache 2 1 (by decide +kernel)
          (by decide +kernel) (by decide +kernel))
  have hblock : ReflTransGen (Cached.Orderly backend) cachedInside cachedTwo :=
    ((ReflTransGen.single (.committer_read 4 (by decide +kernel))).tail
      (.committer_read 4 (by decide +kernel))).tail
        (.committer_cache 2 1 (by decide +kernel)
          (by decide +kernel) (by decide +kernel))
  exact ((orderly_cachedOne.trans hwritten).trans hexecution).trans hblock

end Sample

/-- The execution thread commits and caches while block 2 is committed. -/
theorem upToDate_cachedTwo :
    Sample.cachedTwo.current.confirmedNumber = 2 ∧ Sample.cachedTwo.current.executedNumber = 1 ∧
      Sample.cachedTwo.UpToDate :=
  ⟨by decide +kernel, by decide +kernel,
    (Cached.upToDate_of_orderly Sample.opened_genesis Sample.orderly_cachedTwo).1
      (by decide +kernel) (by decide +kernel)⟩

end Finastate.Chain
