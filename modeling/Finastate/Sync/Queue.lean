import Finastate.Sync.Stranded

/-!
# The queue of the chain

The confirmed number of the current state is above the block whose message
ChainSync has processed last, and the messages in between wait in the queue. A
commit adds one of them, whoever commits.
-/

namespace Finastate.Sync

open Chain Executor
open Coordinator (BlockData)

namespace ChainSync

/-! ## Numbers -/

def keys (sync : ChainSync) : List BlockNumber := sync.pendingBlocks.map Prod.fst

/-- The confirmed numbers of the peers. -/
def peerNumbers (sync : ChainSync) : List BlockNumber := sync.peers.map fun p => p.2.confirmedNumber

/-- The same pending numbers and the same confirmed numbers. -/
structure Alike (sync' sync : ChainSync) : Prop where
  keys : sync'.keys = sync.keys
  peerNumbers : sync'.peerNumbers = sync.peerNumbers

namespace Alike

variable {sync sync' sync'' : ChainSync}

theorem refl (sync : ChainSync) : sync.Alike sync := ⟨rfl, rfl⟩

theorem trans (h : sync''.Alike sync') (h' : sync'.Alike sync) : sync''.Alike sync :=
  ⟨h.keys.trans h'.keys, h.peerNumbers.trans h'.peerNumbers⟩

theorem send (message : Out) : (sync.send message).Alike sync := ⟨rfl, rfl⟩

theorem notifyLatency (oldLatency newLatency : BlockNumber) :
    (sync.notifyLatency oldLatency newLatency).Alike sync := by
  unfold ChainSync.notifyLatency
  split
  · exact send _
  · exact refl _

theorem mapPending (f : BlockNumber → PendingBlockState → PendingBlockState) :
    (sync.mapPending f).Alike sync :=
  ⟨AssocMap.keys_mapValues _ _, rfl⟩

theorem modifyPeer (peerId : PeerId) {f : PeerInfo → PeerInfo}
    (hf : ∀ info, (f info).confirmedNumber = info.confirmedNumber) :
    (sync.modifyPeer peerId f).Alike sync where
  keys := rfl
  peerNumbers := by
    simp only [ChainSync.peerNumbers, ChainSync.modifyPeer, AssocMap.mapValues, List.map_map]
    refine List.map_congr_left fun p hp => ?_
    simp only [Function.comp_apply]
    split
    · exact hf p.2
    · rfl

theorem announceBlock (blockHash : Hash) (header : Header) :
    (sync.announceBlock blockHash header).Alike sync where
  keys := rfl
  peerNumbers := by
    simp [ChainSync.peerNumbers, ChainSync.announceBlock, AssocMap.mapValues, PeerInfo.putKnown,
      Function.comp_def]

theorem resetSource (peerId : PeerId) : (sync.resetSource peerId).Alike sync :=
  (send _).trans (mapPending _)

theorem onBlockRequestTimeout (peerId : PeerId) (requestId : RequestId) :
    (sync.onBlockRequestTimeout peerId requestId).Alike sync :=
  (send _).trans ((mapPending _).trans
    (modifyPeer peerId (f := fun info => { info with state := .vacant }) fun _ => rfl))

theorem onBlockResponse (peerId : PeerId) (blocks : List BlockData) :
    (sync.onBlockResponse peerId blocks).Alike sync := by
  have hfold : ∀ sync : ChainSync,
      (blocks.foldl (fun sync blockData => sync.receive peerId blockData) sync).Alike sync := by
    induction blocks with
    | nil => exact refl
    | cons blockData blocks ih => exact fun sync => (ih _).trans (mapPending _)
  exact (modifyPeer peerId (f := fun info => { info with state := .vacant }) fun _ => rfl).trans
    (hfold sync)

theorem request (group : BlockNumber × Nat) : (sync.request group).Alike sync := by
  unfold ChainSync.request
  split
  · exact refl _
  · next peerId hpeer =>
    have hmodified := @modifyPeer sync peerId
      (fun info => { info with state := .downloading sync.nextRequestId group.1 group.2 })
      fun _ => rfl
    have hmapped := @mapPending sync fun number state =>
      if group.1 ≤ number ∧ number < group.1 + group.2 then .downloading peerId sync.nextRequestId
      else state
    exact ⟨hmapped.keys, hmodified.peerNumbers⟩

theorem maintainSeen : sync.maintainSeen.Alike sync := by
  have hfold : ∀ (groups : List (BlockNumber × Nat)) (sync : ChainSync),
      (groups.foldl ChainSync.request sync).Alike sync := by
    intro groups
    induction groups with
    | nil => exact refl
    | cons group groups ih => exact fun sync => (ih _).trans (request group)
  exact hfold _ _

end Alike

end ChainSync

namespace System

/-! ## The queue of the chain -/

/-- The blocks whose messages wait. -/
def queued (s : System) : List BlockNumber :=
  s.messages.filterMap fun message =>
    match message with
    | .blockCommitted number _ => some number
    | .executionCommitted _ _ => none

/-- The messages that wait are those of the blocks above the last one that was
processed. -/
structure Queue (s : System) (processed : ℕ) : Prop where
  confirmedNumber : s.db.confirmedNumber = some s.current.confirmedNumber
  processed_le : processed ≤ s.current.confirmedNumber
  queued : s.queued = List.range' (processed + 1) (s.current.confirmedNumber - processed)

variable {backend : Backend}
  {consensusVerifyProof : StateMap → Header → Proof → Except Consensus.ErrorKind Unit}
  {s s' s₀ : System} {now processed base : ℕ} {params : ChainCommitBlockParams}

/-- A block that is written is also cached: the current state can be built after
it. -/
def Caches (backend : Backend) (s : System) (now : Nat) (params : ChainCommitBlockParams) : Prop :=
  (backend.commitBlock s.db now params).1.confirmedNumber = s.db.confirmedNumber ∨
    (backend.commitBlock s.db now params).2.isOk

instance : Decidable (s.Caches backend now params) := inferInstanceAs (Decidable (_ ∨ _))

theorem commitBlock_of_ok {db : DB} {current : CurrentState}
    (h : backend.commitBlock s.db now params = (db, .ok ()))
    (hcurrent : backend.updateCurrentState db now = .ok current) :
    s.commitBlock backend now params =
      { s with
        db := db
        current := current
        messages := s.messages ++ [.blockCommitted params.header.number params.blockHash] } := by
  simp only [commitBlock, h, hcurrent]

/-- A commit adds one to the confirmed number, or it changes nothing. -/
theorem commitBlock_cases (hconfirmed : s.db.confirmedNumber = some s.current.confirmedNumber)
    (hcaches : s.Caches backend now params) :
    (∃ db current, (backend.commitBlock s.db now params).2 = .ok () ∧
      db.confirmedNumber = some (s.current.confirmedNumber + 1) ∧
      current.confirmedNumber = s.current.confirmedNumber + 1 ∧
      s.commitBlock backend now params =
        { s with
          db := db
          current := current
          messages := s.messages ++
            [.blockCommitted (s.current.confirmedNumber + 1) params.blockHash] }) ∨
    ∃ e, (backend.commitBlock s.db now params).2 = .error e ∧
      s.commitBlock backend now params = s := by
  rcases backend.commitBlock_cases s.db now params with ⟨hplaced, h⟩ | ⟨e, h⟩
  · obtain ⟨number, hnumber, hnext, -⟩ := hplaced.next
    obtain rfl := Option.some.inj (hnumber.symm.trans hconfirmed)
    have hdb : (s.db.commitBlock params).confirmedNumber =
        some (s.current.confirmedNumber + 1) :=
      congrArg some hnext
    have hok : (backend.updateCurrentState (s.db.commitBlock params) now).isOk := by
      rcases hcaches with heq | hok
      · rw [h, hdb, hconfirmed, Option.some.injEq] at heq
        exact absurd heq (Nat.succ_ne_self _)
      · rw [h] at hok
        cases hupdate : backend.updateCurrentState (s.db.commitBlock params) now with
        | ok current => rfl
        | error e =>
            rw [hupdate] at hok
            cases hok
    have hcurrent := Result.eq_ok_get _ hok
    obtain ⟨confirmed, executed, hconfirmed', -, hstate⟩ :=
      Backend.updateCurrentState_eq_ok_iff.1 hcurrent
    have hnumber' := (Backend.currentStateAt_eq_ok hstate).1
    have hsome := hconfirmed'.symm.trans hdb
    refine .inl ⟨s.db.commitBlock params, _, ?_, hdb, hnumber'.trans (Option.some.inj hsome), ?_⟩
    · rw [h, hcurrent]
      rfl
    · rw [commitBlock_of_ok (h.trans (by rw [hcurrent]; rfl)) hcurrent, hnext]
  · refine .inr ⟨e, by rw [h], ?_⟩
    rw [commitBlock, h]

theorem commitExecution_cases (hconfirmed : s.db.confirmedNumber = some s.current.confirmedNumber)
    (params : ChainCommitExecutionParams) :
    ∃ current messages, current.confirmedNumber = s.current.confirmedNumber ∧
      (s.messages = messages ∨
        messages = s.messages ++ [.executionCommitted params.number params.blockHash]) ∧
      s.commitExecution backend now params =
        { s with db := s.db.commitExecution params, current := current, messages := messages } := by
  unfold commitExecution
  split
  · next current hcurrent =>
    obtain ⟨confirmed, executed, hconfirmed', -, hstate⟩ :=
      Backend.updateCurrentState_eq_ok_iff.1 hcurrent
    have hsome : some confirmed = some s.current.confirmedNumber := hconfirmed'.symm.trans hconfirmed
    exact ⟨current, _, (Backend.currentStateAt_eq_ok hstate).1.trans (Option.some.inj hsome),
      .inr rfl, rfl⟩
  · exact ⟨s.current, s.messages, rfl, .inl rfl, rfl⟩

namespace Queue

theorem of_opened (h : s.Opened backend) : s.Queue s.current.confirmedNumber := by
  obtain ⟨⟨now, hcurrent⟩, hmessages, -, -⟩ := h
  obtain ⟨confirmed, executed, hconfirmed, -, hstate⟩ :=
    Backend.updateCurrentState_eq_ok_iff.1 hcurrent
  constructor
  case confirmedNumber => rw [hconfirmed, (Backend.currentStateAt_eq_ok hstate).1]
  case processed_le => exact le_refl _
  case queued => simp [System.queued, hmessages]

/-- The number of the next message. -/
theorem of_cons (h : s.Queue processed) {number : BlockNumber} {hash : Hash}
    {messages : List ChainOutMessage} (hmessages : s.messages = .blockCommitted number hash :: messages) :
    number = processed + 1 ∧ Queue { s with messages := messages } (processed + 1) := by
  have hqueued := h.queued
  simp only [System.queued, hmessages, List.filterMap_cons] at hqueued
  have hlt : processed < s.current.confirmedNumber := by
    rcases Nat.lt_or_ge processed s.current.confirmedNumber with hlt | hge
    · exact hlt
    · rw [Nat.sub_eq_zero_of_le hge] at hqueued
      cases hqueued
  have hsucc : ∀ m n : ℕ, m < n → n - m = n - (m + 1) + 1 := by omega
  rw [hsucc _ _ hlt, List.range'_succ, List.cons.injEq] at hqueued
  exact ⟨hqueued.1, h.confirmedNumber, hlt, hqueued.2⟩

theorem commitBlock (h : s.Queue processed) {db : DB} {current : CurrentState} {hash : Hash}
    (hdb : db.confirmedNumber = some (s.current.confirmedNumber + 1))
    (hcurrent : current.confirmedNumber = s.current.confirmedNumber + 1) :
    Queue
      { s with
        db := db
        current := current
        messages := s.messages ++ [.blockCommitted (s.current.confirmedNumber + 1) hash] }
      processed where
  confirmedNumber := by simp only [hdb, hcurrent]
  processed_le := by
    simp only [hcurrent]
    exact h.processed_le.trans (Nat.le_succ _)
  queued := by
    have hqueued := h.queued
    simp only [System.queued] at hqueued
    simp only [System.queued, List.filterMap_append, hqueued, hcurrent, List.filterMap_cons,
      List.filterMap_nil]
    rw [Nat.succ_sub h.processed_le, List.range'_1_concat, Nat.add_right_comm,
      Nat.add_sub_cancel' h.processed_le]

theorem commitExecution (h : s.Queue processed) (params : ChainCommitExecutionParams) :
    (s.commitExecution backend now params).Queue processed := by
  obtain ⟨current, messages, hcurrent, hmessages, heq⟩ :=
    @commitExecution_cases backend s now h.confirmedNumber params
  rw [heq]
  constructor
  case confirmedNumber => exact h.confirmedNumber.trans (congrArg some hcurrent.symm)
  case processed_le => simpa only [hcurrent] using h.processed_le
  case queued =>
    rcases hmessages with rfl | rfl
    · simp only [hcurrent]
      exact h.queued
    · simpa [hcurrent, System.queued] using h.queued

theorem of_eq (h : s.Queue processed) (hdb : s'.db = s.db) (hcurrent : s'.current = s.current)
    (hmessages : s'.messages = s.messages) : s'.Queue processed := by
  constructor
  case confirmedNumber => rw [hdb, hcurrent, h.confirmedNumber]
  case processed_le => exact hcurrent ▸ h.processed_le
  case queued => rw [System.queued, hmessages, hcurrent, ← h.queued, System.queued]

end Queue

end System

end Finastate.Sync
