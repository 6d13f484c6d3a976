import Finastate.Sync.Queue

/-!
# The window of pending blocks

The pending blocks are a window over the numbers above the confirmed one. It
grows at its upper end, where `maintain_new` appends what the peers have, and it
shrinks at its lower end, as the messages of the chain arrive and as downloaded
blocks are committed. A block that is dropped on the way leaves a hole, unless
it was confirmed already or was the last one.
-/

namespace Finastate.Sync

open Chain Executor Relation
open Coordinator (BlockData)
open SortedMap (Contiguous)

namespace System

variable {backend : Backend}
  {consensusVerifyProof : StateMap → Header → Proof → Except Consensus.ErrorKind Unit}
  {s s' s₀ : System} {now processed base : ℕ} {params : ChainCommitBlockParams}

/-! ## The window -/

/-- The pending blocks, and the one that is taken out in front of them. -/
def window (s : System) : List (BlockNumber × PendingBlockState) :=
  s.control.inHand ++ s.sync.pendingBlocks

structure Window (s : System) (processed base : ℕ) : Prop where
  queue : s.Queue processed
  contiguous : Contiguous base s.window
  processed_le : processed ≤ base
  base_le : base ≤ s.current.confirmedNumber
  length_le : s.window.length ≤ pendingBlocksSize

/-- What is not confirmed yet, some peer has. -/
def Bounded (s : System) : Prop :=
  ∀ number ∈ s.window.map Prod.fst, s.current.confirmedNumber < number →
    ∃ peerNumber ∈ s.sync.peerNumbers, number ≤ peerNumber

/-- The bounds that `maintain_new` has read. -/
structure Appends (s : System) (base maxPendingNumber maxToAppend : ℕ) : Prop where
  peer : ∃ peerNumber ∈ s.sync.peerNumbers, maxToAppend ≤ peerNumber
  last : maxPendingNumber = base + s.sync.pendingBlocks.length
  room : s.sync.pendingBlocks.length + (maxToAppend - maxPendingNumber) ≤ pendingBlocksSize

/-- The pending blocks may exceed the peers until `maintain_new` is over. -/
def Fits (s : System) (base : ℕ) : Prop :=
  match s.control with
  | .new => s.sync.peers = [] → s.Bounded
  | .appending maxPendingNumber maxToAppend => s.Appends base maxPendingNumber maxToAppend
  | _ => s.Bounded

structure Intact (s : System) (processed base : ℕ) : Prop where
  window : s.Window processed base
  fits : s.Fits base

theorem Bounded.mono (h : s.Bounded)
    (hle : s.current.confirmedNumber ≤ s'.current.confirmedNumber)
    (hkeys : ∀ number ∈ s'.window.map Prod.fst, number ∈ s.window.map Prod.fst)
    (hpeers : ∀ number ∈ s.sync.peerNumbers, number ∈ s'.sync.peerNumbers) : s'.Bounded := by
  intro number hnumber hlt
  obtain ⟨peerNumber, hpeer, hnumber_le⟩ := h number (hkeys number hnumber) (hle.trans_lt hlt)
  exact ⟨peerNumber, hpeers _ hpeer, hnumber_le⟩

theorem Bounded.of_alike (h : s.Bounded) (hcurrent : s'.current = s.current)
    (hinHand : s'.control.inHand.map Prod.fst = s.control.inHand.map Prod.fst)
    (halike : s'.sync.Alike s.sync) : s'.Bounded := by
  refine h.mono (by rw [hcurrent]) (fun number hnumber => ?_) fun number hnumber => ?_
  · have hkeys : s'.sync.pendingBlocks.map Prod.fst = s.sync.pendingBlocks.map Prod.fst :=
      halike.keys
    rwa [window, List.map_append, hinHand, hkeys, ← List.map_append] at hnumber
  · rwa [halike.peerNumbers]

/-- Without peers everything is confirmed. -/
theorem Bounded.le_of_nil (h : s.Bounded) (hpeers : s.sync.peerNumbers = []) :
    ∀ number ∈ s.window.map Prod.fst, number ≤ s.current.confirmedNumber := by
  intro number hnumber
  refine not_lt.1 fun hlt => ?_
  obtain ⟨peerNumber, hpeer, -⟩ := h number hnumber hlt
  rw [hpeers] at hpeer
  cases hpeer

theorem Bounded.of_le
    (h : ∀ number ∈ s.window.map Prod.fst, number ≤ s.current.confirmedNumber) : s.Bounded :=
  fun number hnumber hlt => absurd hlt (not_lt.2 (h number hnumber))

/-- The window stays if its numbers stay. -/
theorem Window.of_keys (h : s.Window processed base) (hqueue : s'.Queue processed)
    (hle : s.current.confirmedNumber ≤ s'.current.confirmedNumber)
    (hkeys : s'.window.map Prod.fst = s.window.map Prod.fst) : s'.Window processed base where
  queue := hqueue
  contiguous := h.contiguous.of_keys_eq hkeys
  processed_le := h.processed_le
  base_le := h.base_le.trans hle
  length_le := by
    have hlength := congrArg List.length hkeys
    rw [List.length_map, List.length_map] at hlength
    exact hlength ▸ h.length_le

theorem Window.of_alike (h : s.Window processed base) (hdb : s'.db = s.db)
    (hcurrent : s'.current = s.current) (hmessages : s'.messages = s.messages)
    (hinHand : s'.control.inHand.map Prod.fst = s.control.inHand.map Prod.fst)
    (hkeys : s'.sync.keys = s.sync.keys) : s'.Window processed base := by
  refine h.of_keys (h.queue.of_eq hdb hcurrent hmessages) (by rw [hcurrent]) ?_
  have hpending : s'.sync.pendingBlocks.map Prod.fst = s.sync.pendingBlocks.map Prod.fst := hkeys
  rw [window, window, List.map_append, List.map_append, hinHand, hpending]

/-- The first block of the window may go if it is confirmed, or if it is the only
one. -/
theorem Window.tail (h : s.Window processed base) {number : BlockNumber}
    {state : PendingBlockState} {rest : List (BlockNumber × PendingBlockState)}
    (hwindow : s.window = (number, state) :: rest) (hqueue : s'.Queue processed)
    (hle : s.current.confirmedNumber ≤ s'.current.confirmedNumber)
    (hkeys : s'.window.map Prod.fst = rest.map Prod.fst)
    (hspare : number ≤ s'.current.confirmedNumber ∨ rest = []) :
    ∃ base', s'.Window processed base' := by
  have hcontiguous := h.contiguous
  have hlength := h.length_le
  rw [hwindow] at hcontiguous hlength
  obtain ⟨hnumber, hrest⟩ := SortedMap.Contiguous.cons_iff.1 hcontiguous
  have hlength' : s'.window.length = rest.length := by
    simpa using congrArg List.length hkeys
  have hlength_le : s'.window.length ≤ pendingBlocksSize :=
    hlength'.trans_le ((Nat.le_succ _).trans hlength)
  rcases hspare with hconfirmed | rfl
  · simp only at hnumber
    rw [hnumber] at hconfirmed
    exact ⟨base + 1, hqueue, hrest.of_keys_eq hkeys, h.processed_le.trans (Nat.le_succ _),
      hconfirmed, hlength_le⟩
  · exact ⟨base, hqueue, SortedMap.Contiguous.nil.of_keys_eq hkeys, h.processed_le,
      h.base_le.trans hle, hlength_le⟩

end System

namespace ChainSync

variable {sync : ChainSync} {base maxPendingNumber maxToAppend : ℕ}

theorem eq_cons_of_firstDownloaded {number : BlockNumber} {source : PeerId} {blockData : BlockData}
    (h : sync.firstDownloaded = some (number, source, blockData)) :
    ∃ rest, sync.pendingBlocks = (number, .downloaded source blockData) :: rest := by
  unfold firstDownloaded at h
  split at h
  · next number' source' blockData' rest hpending =>
    cases h
    exact ⟨rest, hpending⟩
  · cases h

/-- The first block is gone, and nothing else. -/
theorem removePending_of_cons {number : BlockNumber} {state : PendingBlockState}
    {rest : List (BlockNumber × PendingBlockState)} (hsorted : SortedMap.Sorted sync.pendingBlocks)
    (hpending : sync.pendingBlocks = (number, state) :: rest) :
    (sync.removePending number).pendingBlocks = rest := by
  rw [hpending] at hsorted
  have hkept : ∀ p ∈ rest, p.1 ≠ number := fun p hp =>
    ((List.pairwise_cons.1 hsorted).1 p hp).ne'
  simp only [removePending, AssocMap.erase, hpending]
  rw [List.filter_cons_of_neg (by simp)]
  exact List.filter_eq_self.2 fun p hp => decide_eq_true (hkept p hp)

/-- `maintain_new` leaves no hole and nothing above its bound. -/
theorem contiguous_append (h : Contiguous base sync.pendingBlocks)
    (hlast : maxPendingNumber = base + sync.pendingBlocks.length) :
    Contiguous base (sync.append maxPendingNumber maxToAppend).pendingBlocks ∧
      (∀ p ∈ (sync.append maxPendingNumber maxToAppend).pendingBlocks, p.1 ≤ maxToAppend) ∧
      (sync.append maxPendingNumber maxToAppend).pendingBlocks.length ≤
        sync.pendingBlocks.length + (maxToAppend - maxPendingNumber) := by
  unfold ChainSync.append
  split
  · next hle =>
    have hitems := SortedMap.Contiguous.range' maxPendingNumber (maxToAppend - maxPendingNumber)
      PendingBlockState.seen
    have happend := h.append (hlast ▸ hitems)
    have hextend := SortedMap.extend_of_sorted_append happend.sorted
    rw [← hlast] at happend hextend
    simp only [hextend]
    refine ⟨happend, fun p hp => ?_, by simp⟩
    have hmem := (happend.mem hp).2
    rw [List.length_append, List.length_map, List.length_range', ← Nat.add_assoc, ← hlast,
      Nat.add_sub_cancel' (Nat.le_of_succ_le hle)] at hmem
    exact hmem
  · next hlt =>
    have hfilter : (sync.pendingBlocks.filter fun p =>
        ¬ (maxToAppend < p.1 ∧ p.1 ≤ maxPendingNumber)) =
          sync.pendingBlocks.filter fun p => p.1 < maxToAppend + 1 := by
      refine List.filter_congr fun p hp => ?_
      have hmem := (h.mem hp).2
      rw [← hlast] at hmem
      simp only [decide_eq_decide]
      constructor
      · exact fun hnot => Nat.lt_succ_of_le (not_lt.1 fun hgt => hnot ⟨hgt, hmem⟩)
      · exact fun hlt' hand => absurd hand.1 (not_lt.2 (Nat.le_of_lt_succ hlt'))
    simp only [hfilter]
    refine ⟨?_, fun p hp => ?_, ?_⟩
    · rw [h.filter_lt]
      exact h.take _
    · have hlt' := (List.mem_filter.1 hp).2
      exact Nat.le_of_lt_succ (of_decide_eq_true hlt')
    · exact (List.length_filter_le _ _).trans (Nat.le_add_right _ _)

end ChainSync

namespace System

/-! ## Steps -/

variable {backend : Backend}
  {consensusVerifyProof : StateMap → Header → Proof → Except Consensus.ErrorKind Unit}
  {s s' s₀ : System} {now processed base : ℕ} {params : ChainCommitBlockParams}

/-- The verifications after which the block is gone. -/
def drops : Except Coordinator.ErrorKind ChainCommitBlockParams → Bool
  | .ok _ | .error (.verifyError .shouldWait) => false
  | .error _ => true

/-- A block that may be dropped: it is confirmed, or no other one is pending. -/
def Spares (s : System) (number : BlockNumber) : Prop :=
  number ≤ s.current.confirmedNumber ∨ s.sync.pendingBlocks = []

/-- No step of a handler drops a block that is still needed, and commits are
cached. -/
def KeepsBlock (backend : Backend)
    (consensusVerifyProof : StateMap → Header → Proof → Except Consensus.ErrorKind Unit)
    (s : System) (now : Nat) : Control → Prop
  | .verifying _ number _ blockData =>
      drops (backend.verifyBlock (consensusVerifyProof s.current.contextEssence.metaState) s.db
        s.current blockData) → s.Spares number
  | .committing _ number _ _ params =>
      s.Caches backend now params ∧
        ((backend.commitBlock s.db now params).2.isOk = false → s.Spares number)
  | _ => True

/-- The same for every event; and the last peer does not leave pending blocks
behind. -/
def Keeps (backend : Backend)
    (consensusVerifyProof : StateMap → Header → Proof → Except Consensus.ErrorKind Unit)
    (s : System) : Event → Prop
  | .close peerId =>
      AssocMap.erase s.sync.peers peerId ≠ [] ∨
        ∀ p ∈ s.sync.pendingBlocks, p.1 ≤ s.current.confirmedNumber
  | .commitBlock now params => s.Caches backend now params
  | .advance now => s.KeepsBlock backend consensusVerifyProof now s.control
  | _ => True

instance (number : BlockNumber) : Decidable (s.Spares number) := inferInstanceAs (Decidable (_ ∨ _))

instance (control : Control) :
    Decidable (s.KeepsBlock backend consensusVerifyProof now control) :=
  match control with
  | .verifying .. => inferInstanceAs (Decidable (_ → _))
  | .committing .. => inferInstanceAs (Decidable (_ ∧ _))
  | .idle | .committed .. | .downloaded | .picking .. | .verified .. | .new | .appending ..
  | .appended .. | .seen => isTrue trivial

instance (event : Event) : Decidable (s.Keeps backend consensusVerifyProof event) :=
  match event with
  | .close _ => inferInstanceAs (Decidable (_ ∨ _))
  | .commitBlock now params => inferInstanceAs (Decidable (s.Caches backend now params))
  | .advance now =>
      inferInstanceAs (Decidable (s.KeepsBlock backend consensusVerifyProof now s.control))
  | .open .. | .announce .. | .timeout .. | .response .. | .message | .commitExecution ..
  | .reorder _ => isTrue trivial

theorem Fits.bounded (h : s.Fits base) (hidle : s.control = .idle) : s.Bounded := by
  simpa only [Fits, hidle] using h

/-- `maintain_downloaded` goes on with a block that is dropped or done. -/
theorem Window.tail_bounded (h : s.Window processed base) (hbounded : s.Bounded) {number : BlockNumber}
    {state : PendingBlockState} (hwindow : s.window = (number, state) :: s.sync.pendingBlocks)
    (hqueue : s'.Queue processed)
    (hle : s.current.confirmedNumber ≤ s'.current.confirmedNumber) (halike : s'.sync.Alike s.sync)
    (hinHand : s'.control.inHand = [])
    (hspare : number ≤ s'.current.confirmedNumber ∨ s.sync.pendingBlocks = []) :
    (∃ base', s'.Window processed base') ∧ s'.Bounded := by
  have hkeys : s'.window.map Prod.fst = s.sync.pendingBlocks.map Prod.fst := by
    rw [System.window, hinHand]
    exact halike.keys
  refine ⟨h.tail hwindow hqueue hle hkeys hspare, hbounded.mono hle (fun number' hnumber => ?_)
    fun number' hnumber => halike.peerNumbers ▸ hnumber⟩
  rw [hkeys] at hnumber
  rw [hwindow]
  exact List.mem_cons_of_mem _ hnumber

/-- The action after the verification, for a block that is not put back. -/
theorem Window.act (h : s.Window processed base) (hbounded : s.Bounded)
    {oldLatency number : BlockNumber} {source : PeerId} {blockData : BlockData}
    (hwindow : s.window = (number, .downloaded source blockData) :: s.sync.pendingBlocks)
    {action : VerifyAction} (hspare : action ≠ .wait → s.Spares number) :
    ∃ base', (s.act oldLatency number source blockData action).Intact processed base' := by
  have htail : ∀ s' : System, s'.db = s.db → s'.current = s.current → s'.messages = s.messages →
      s'.sync.Alike s.sync → s'.control.inHand = [] → s.Spares number →
      (∃ base', s'.Window processed base') ∧ s'.Bounded := by
    intro s' hdb hcurrent hmessages halike hinHand hspares
    refine h.tail_bounded hbounded hwindow (h.queue.of_eq hdb hcurrent hmessages)
      (by rw [hcurrent]) halike hinHand ?_
    rwa [hcurrent]
  cases action with
  | ok =>
      obtain ⟨⟨base', hwindow'⟩, hbounded'⟩ := htail { s with control := .picking oldLatency } rfl
        rfl rfl (.refl _) rfl (hspare nofun)
      exact ⟨base', hwindow', hbounded'⟩
  | discard =>
      obtain ⟨⟨base', hwindow'⟩, hbounded'⟩ := htail { s with control := .verified oldLatency } rfl
        rfl rfl (.refl _) rfl (hspare nofun)
      exact ⟨base', hwindow', hbounded'⟩
  | reset =>
      obtain ⟨⟨base', hwindow'⟩, hbounded'⟩ := htail
        { s with sync := s.sync.resetSource source, control := .verified oldLatency } rfl rfl rfl
        (.resetSource source) rfl (hspare nofun)
      exact ⟨base', hwindow', hbounded'⟩
  | wait =>
      -- The block is put back where it was.
      have hcontiguous := h.contiguous
      rw [hwindow, SortedMap.Contiguous.cons_iff] at hcontiguous
      obtain ⟨hnumber, hrest⟩ := hcontiguous
      have hlt : ∀ p ∈ s.sync.pendingBlocks, number < p.1 := by
        intro p hp
        simp only at hnumber
        rw [hnumber]
        exact (hrest.mem hp).1
      have hinsert := SortedMap.insert_of_forall_gt hlt
        (PendingBlockState.downloaded source blockData)
      have hkeys : (s.act oldLatency number source blockData .wait).window.map Prod.fst =
          s.window.map Prod.fst := by
        rw [hwindow]
        exact congrArg (List.map Prod.fst) hinsert
      exact ⟨base, h.of_keys (h.queue.of_eq rfl rfl rfl) (le_refl _) hkeys,
        hbounded.mono (le_refl _) (fun number' hnumber' => hkeys ▸ hnumber') fun _ hpeer => hpeer⟩

/-- A step of a handler keeps the window. -/
theorem Intact.advance (h : s.Intact processed base)
    (hkeeps : s.Keeps backend consensusVerifyProof (.advance now)) :
    ∃ base', (s.advance backend consensusVerifyProof now).Intact processed base' := by
  obtain ⟨hwindow, hfits⟩ := h
  have hqueue := hwindow.queue
  obtain ⟨db, current, messages, sync, control⟩ := s
  cases control with
  | idle => exact ⟨base, hwindow, hfits⟩
  | committed number blockHash oldLatency =>
      unfold System.advance
      simp only
      have hbounded : Bounded ⟨db, current, messages, sync, .committed number blockHash oldLatency⟩ :=
        hfits
      split
      · next hheader =>
        have halike := @ChainSync.Alike.notifyLatency sync oldLatency (sync.latency current.confirmedNumber)
        exact ⟨base, hwindow.of_alike rfl rfl rfl rfl halike.keys,
          hbounded.of_alike rfl rfl halike⟩
      · next header hheader =>
        have halike := (ChainSync.Alike.send (.blockCommitted number blockHash)).trans
          ((ChainSync.Alike.announceBlock blockHash header).trans
            (@ChainSync.Alike.notifyLatency sync oldLatency (sync.latency current.confirmedNumber)))
        exact ⟨base, hwindow.of_alike rfl rfl rfl rfl halike.keys,
          hbounded.of_alike rfl rfl halike⟩
  | downloaded => exact ⟨base, hwindow.of_alike rfl rfl rfl rfl rfl, hfits⟩
  | picking oldLatency =>
      unfold System.advance
      simp only
      have hbounded : Bounded ⟨db, current, messages, sync, .picking oldLatency⟩ := hfits
      split
      · exact ⟨base, hwindow.of_alike rfl rfl rfl rfl rfl, hbounded.of_alike rfl rfl (.refl _)⟩
      · next number source blockData hfirst =>
        -- The first block is taken out and stays in front.
        obtain ⟨rest, hpending⟩ := ChainSync.eq_cons_of_firstDownloaded hfirst
        have hcontiguous : Contiguous base sync.pendingBlocks := hwindow.contiguous
        have hremove := ChainSync.removePending_of_cons hcontiguous.sorted hpending
        have hkeys : (System.window ⟨db, current, messages, sync.removePending number,
            .verifying oldLatency number source blockData⟩).map Prod.fst =
              (System.window ⟨db, current, messages, sync, .picking oldLatency⟩).map Prod.fst := by
          simp only [System.window, Control.inHand, hremove, hpending, List.singleton_append,
            List.nil_append]
        exact ⟨base, hwindow.of_keys (hqueue.of_eq rfl rfl rfl) (le_refl _) hkeys,
          hbounded.mono (le_refl _) (fun number' hnumber' => hkeys ▸ hnumber') fun _ hpeer => hpeer⟩
  | verifying oldLatency number source blockData =>
      have hbounded : Bounded ⟨db, current, messages, sync, .verifying oldLatency number source
        blockData⟩ := hfits
      unfold System.advance
      simp only [Keeps, KeepsBlock] at hkeeps ⊢
      split
      · exact ⟨base, hwindow.of_alike rfl rfl rfl rfl rfl, hbounded.of_alike rfl rfl (.refl _)⟩
      · next e hverify =>
        refine hwindow.act hbounded rfl fun hwait => hkeeps ?_
        rw [hverify]
        cases e
        case shouldWait => exact absurd rfl hwait
        all_goals rfl
      · next e hother hverify =>
        have hdrops : drops (.error e) = true := by
          cases e
          case verifyError e => exact absurd rfl (hother e)
          all_goals rfl
        obtain ⟨⟨base', hwindow'⟩, hbounded'⟩ := @Window.tail_bounded _
          ⟨db, current, messages, sync, .idle⟩ _ _ hwindow hbounded _ _ rfl
          (hqueue.of_eq rfl rfl rfl) (le_refl _) (.refl _) rfl (hkeeps (by rw [hverify, hdrops]))
        exact ⟨base', hwindow', hbounded'⟩
  | committing oldLatency number source blockData params =>
      have hbounded : Bounded ⟨db, current, messages, sync, .committing oldLatency number source
        blockData params⟩ := hfits
      obtain ⟨hcaches, hspares⟩ := hkeeps
      unfold System.advance
      simp only
      rcases commitBlock_cases hqueue.confirmedNumber hcaches with
        ⟨db', current', hok, hdb, hcurrent, heq⟩ | ⟨e, herror, heq⟩
      · have hnumber := (SortedMap.Contiguous.cons_iff.1 hwindow.contiguous).1
        simp only at hnumber hok
        rw [hok, heq]
        obtain ⟨⟨base', hwindow'⟩, hbounded'⟩ := @Window.tail_bounded _
          ⟨db', current', messages ++ [.blockCommitted (current.confirmedNumber + 1)
            params.blockHash], sync, .picking oldLatency⟩ _ _ hwindow hbounded _ _ rfl
          ((hqueue.commitBlock hdb hcurrent).of_eq rfl rfl rfl)
          (by simp only [hcurrent]; exact Nat.le_succ _) (.refl _) rfl
          (.inl (by simp only [hcurrent, hnumber]; exact Nat.succ_le_succ hwindow.base_le))
        exact ⟨base', hwindow', hbounded'⟩
      · have hspare := hspares (by rw [herror]; rfl)
        simp only at herror
        rw [herror, heq]
        split
        · exact hwindow.act hbounded rfl fun _ => hspare
        · obtain ⟨⟨base', hwindow'⟩, hbounded'⟩ := @Window.tail_bounded _
            ⟨db, current, messages, sync, .idle⟩ _ _ hwindow hbounded _ _ rfl
            (hqueue.of_eq rfl rfl rfl) (le_refl _) (.refl _) rfl hspare
          exact ⟨base', hwindow', hbounded'⟩
  | verified oldLatency =>
      have hbounded : Bounded ⟨db, current, messages, sync, .verified oldLatency⟩ := hfits
      have halike := @ChainSync.Alike.notifyLatency sync oldLatency
        (sync.latency current.confirmedNumber)
      exact ⟨base, hwindow.of_alike rfl rfl rfl rfl halike.keys,
        fun _ => hbounded.of_alike rfl rfl halike⟩
  | new =>
      unfold System.advance
      simp only
      split
      · next hpeers =>
        have hnil : sync.peers = [] := by
          simpa [ChainSync.maxPeerNumber, List.max?_eq_none_iff] using hpeers
        have hbounded : Bounded ⟨db, current, messages, sync, .new⟩ := hfits hnil
        exact ⟨base, hwindow.of_alike rfl rfl rfl rfl rfl, hbounded.of_alike rfl rfl (.refl _)⟩
      · next maxPeerNumber hpeers =>
        have hpeer : maxPeerNumber ∈ sync.peerNumbers := List.max?_mem hpeers
        have hlength : sync.pendingBlocks.length ≤ pendingBlocksSize := hwindow.length_le
        have hroom : ∀ maxPendingNumber : ℕ, sync.pendingBlocks.length +
            (sync.maxToAppend maxPeerNumber maxPendingNumber - maxPendingNumber) ≤
              pendingBlocksSize := by
          intro maxPendingNumber
          have hmin : sync.maxToAppend maxPeerNumber maxPendingNumber ≤
              maxPendingNumber + pendingBlocksSize - sync.pendingBlocks.length :=
            Nat.min_le_right _ _
          have hsub : ∀ length bound number : ℕ, length ≤ pendingBlocksSize →
              bound ≤ number + pendingBlocksSize - length →
              length + (bound - number) ≤ pendingBlocksSize := by
            omega
          exact hsub _ _ _ hlength hmin
        have happends : ∀ base', sync.maxPending current.confirmedNumber =
            base' + sync.pendingBlocks.length →
            Appends ⟨db, current, messages, sync, .appending
              (sync.maxPending current.confirmedNumber)
              (sync.maxToAppend maxPeerNumber (sync.maxPending current.confirmedNumber))⟩ base'
              (sync.maxPending current.confirmedNumber)
              (sync.maxToAppend maxPeerNumber (sync.maxPending current.confirmedNumber)) :=
          fun base' hlast => ⟨⟨maxPeerNumber, hpeer, Nat.min_le_left _ _⟩, hlast, hroom _⟩
        cases hgetLast : sync.pendingBlocks.getLast? with
        | none =>
            -- The window starts above what is confirmed now.
            have hnil := List.getLast?_eq_none_iff.1 hgetLast
            refine ⟨current.confirmedNumber, ⟨hqueue.of_eq rfl rfl rfl, ?_, hqueue.processed_le,
              le_refl _, hwindow.length_le⟩, happends _ ?_⟩
            · simp only [System.window, Control.inHand, hnil, List.nil_append]
              exact .nil
            · simp [ChainSync.maxPending, ChainSync.lastPending, hnil]
        | some p =>
            refine ⟨base, hwindow.of_alike rfl rfl rfl rfl rfl, happends _ ?_⟩
            have hlast := SortedMap.Contiguous.last (m := sync.pendingBlocks) hwindow.contiguous
              hgetLast
            simp only [ChainSync.maxPending, ChainSync.lastPending, hgetLast, Option.map_some,
              Option.getD_some]
            exact hlast
  | appending maxPendingNumber maxToAppend =>
      obtain ⟨⟨peerNumber, hpeer, hle⟩, hlast, hroom⟩ := hfits
      obtain ⟨hcontiguous, hbound, hlength⟩ := @ChainSync.contiguous_append sync base
        maxPendingNumber maxToAppend hwindow.contiguous hlast
      refine ⟨base, ⟨hqueue.of_eq rfl rfl rfl, hcontiguous, hwindow.processed_le, hwindow.base_le,
        hlength.trans hroom⟩, ?_⟩
      intro number hnumber hlt
      obtain ⟨p, hp, rfl⟩ := List.mem_map.1 hnumber
      refine ⟨peerNumber, ?_, (hbound p hp).trans hle⟩
      change peerNumber ∈ ChainSync.peerNumbers (sync.append maxPendingNumber maxToAppend)
      rwa [ChainSync.peerNumbers, ChainSync.peers_append]
  | appended oldLatency =>
      have hbounded : Bounded ⟨db, current, messages, sync, .appended oldLatency⟩ := hfits
      have halike := @ChainSync.Alike.notifyLatency sync oldLatency
        (sync.latency current.confirmedNumber)
      exact ⟨base, hwindow.of_alike rfl rfl rfl rfl halike.keys, hbounded.of_alike rfl rfl halike⟩
  | seen =>
      have hbounded : Bounded ⟨db, current, messages, sync, .seen⟩ := hfits
      have halike := @ChainSync.Alike.maintainSeen sync
      exact ⟨base, hwindow.of_alike rfl rfl rfl rfl halike.keys, hbounded.of_alike rfl rfl halike⟩

/-- What holds where a handler stands goes on to hold when blocks are committed
and when the peers change their order. -/
theorem Fits.mono (h : s.Fits base) (hcontrol : s'.control = s.control)
    (hpending : s'.sync.pendingBlocks = s.sync.pendingBlocks)
    (hpeers : ∀ number, number ∈ s'.sync.peerNumbers ↔ number ∈ s.sync.peerNumbers)
    (hle : s.current.confirmedNumber ≤ s'.current.confirmedNumber) : s'.Fits base := by
  have hbounded : s.Bounded → s'.Bounded := by
    refine fun hbounded => hbounded.mono hle (fun number hnumber => ?_) fun number => (hpeers number).2
    rwa [window, hcontrol, hpending] at hnumber
  have hnil : s'.sync.peers = [] → s.sync.peers = [] := by
    intro hnil
    refine List.eq_nil_iff_forall_not_mem.2 fun p hp => ?_
    have hmem := (hpeers p.2.confirmedNumber).2 (List.mem_map_of_mem hp)
    rw [ChainSync.peerNumbers, hnil] at hmem
    cases hmem
  unfold Fits at h ⊢
  rw [hcontrol]
  split
  · next heq =>
    rw [heq] at h
    exact fun hpeers' => hbounded (h (hnil hpeers'))
  · next maxPendingNumber maxToAppend heq =>
    rw [heq] at h
    obtain ⟨⟨peerNumber, hpeer, hle'⟩, hlast, hroom⟩ := h
    exact ⟨⟨peerNumber, (hpeers _).2 hpeer, hle'⟩, hpending ▸ hlast, hpending ▸ hroom⟩
  · next hnew happending =>
    refine hbounded ?_
    split at h
    · next heq => exact absurd heq hnew
    · next maxPendingNumber maxToAppend heq => exact absurd heq (happending _ _)
    · exact h

/-- The message of a block removes the block at the lower end of the window, if it
is there. -/
theorem Window.onBlockCommitted (h : s.Window processed base) (hidle : s.control = .idle)
    (hbounded : s.Bounded) {number : BlockNumber} {hash : Hash} {messages : List ChainOutMessage}
    (hmessages : s.messages = .blockCommitted number hash :: messages) :
    ∃ base', ({ s with messages := messages }.onBlockCommitted number hash).Intact
      (processed + 1) base' := by
  obtain ⟨rfl, hqueue⟩ := h.queue.of_cons hmessages
  have hwindow : s.window = s.sync.pendingBlocks := by
    rw [System.window, hidle]
    rfl
  have hcontiguous : Contiguous base s.sync.pendingBlocks := hwindow ▸ h.contiguous
  have hremoved : ∃ base', Contiguous base' (AssocMap.erase s.sync.pendingBlocks (processed + 1)) ∧
      processed + 1 ≤ base' ∧ base' ≤ s.current.confirmedNumber := by
    rcases h.processed_le.eq_or_lt with rfl | hlt
    · have hfilter : AssocMap.erase s.sync.pendingBlocks (processed + 1) =
          s.sync.pendingBlocks.filter fun p => processed + 1 < p.1 := by
        refine List.filter_congr fun p hp => ?_
        have hlt : processed + 1 ≤ p.1 := (hcontiguous.mem hp).1
        rw [decide_eq_decide]
        exact ⟨fun hne => lt_of_le_of_ne hlt (Ne.symm hne), fun hlt' => hlt'.ne'⟩
      rw [hfilter]
      exact ⟨processed + 1, hcontiguous.above (Nat.le_succ _), le_refl _, hqueue.processed_le⟩
    · have hsame : AssocMap.erase s.sync.pendingBlocks (processed + 1) = s.sync.pendingBlocks := by
        refine List.filter_eq_self.2 fun p hp => decide_eq_true ?_
        have hlt' := (hcontiguous.mem hp).1
        exact (lt_of_le_of_lt hlt hlt').ne'
      rw [hsame]
      exact ⟨base, hcontiguous, hlt, h.base_le⟩
  obtain ⟨base', hcontiguous', hprocessed, hbase⟩ := hremoved
  refine ⟨base', ⟨hqueue.of_eq rfl rfl rfl, hcontiguous', hprocessed, hbase, ?_⟩, ?_⟩
  · have hlength := h.length_le
    rw [hwindow] at hlength
    exact (List.length_filter_le _ _).trans hlength
  · refine hbounded.mono (le_refl _) (fun number hnumber => ?_) fun _ hpeer => hpeer
    obtain ⟨p, hp, rfl⟩ := List.mem_map.1 hnumber
    rw [hwindow]
    exact List.mem_map_of_mem (List.mem_filter.1 hp).1

/-- Every event keeps the window. -/
theorem Intact.next (h : s.Intact processed base) {event : Event} (henabled : s.Enabled event)
    (hkeeps : s.Keeps backend consensusVerifyProof event) :
    ∃ processed' base', (s.next backend consensusVerifyProof event).Intact processed' base' := by
  have hwindow := h.window
  have hqueue := hwindow.queue
  have hfits := h.fits
  have hidle_of : s.control = .idle → s.control.inHand = [] := fun hidle => by rw [hidle]; rfl
  cases event with
  | «open» peerId nonce handshake =>
      obtain ⟨hidle, hnumber⟩ := henabled
      refine ⟨processed, base, hwindow.of_alike rfl rfl rfl ?_ rfl, fun hnil => ?_⟩
      · rw [hidle_of hidle]
        rfl
      · exact absurd hnil (List.cons_ne_nil _ _)
  | close peerId =>
      have hidle : s.control = .idle := henabled
      have hkeys := AssocMap.keys_mapValues
        (fun _ state => PendingBlockState.release (fun source _ => source = peerId) state)
        s.sync.pendingBlocks
      refine ⟨processed, base, hwindow.of_alike rfl rfl rfl ?_ hkeys, fun hnil => ?_⟩
      · rw [hidle_of hidle]
        rfl
      · rcases hkeeps with hpeers | hconfirmed
        · exact absurd hnil hpeers
        · refine .of_le fun number hnumber => ?_
          have hmem : number ∈ s.sync.pendingBlocks.map Prod.fst := by
            rw [← hkeys]
            exact hnumber
          obtain ⟨p, hp, rfl⟩ := List.mem_map.1 hmem
          exact hconfirmed p hp
  | announce peerId announce =>
      obtain ⟨hidle, hnumber⟩ := henabled
      refine ⟨processed, base, hwindow.of_alike rfl rfl rfl ?_ rfl, fun hnil => ?_⟩
      · rw [hidle_of hidle]
        rfl
      · have hpeers : s.sync.peers = [] := List.map_eq_nil_iff.1 hnil
        have hconfirmed := (hfits.bounded hidle).le_of_nil (by rw [ChainSync.peerNumbers, hpeers]; rfl)
        refine .of_le fun number hnumber => hconfirmed number ?_
        rw [System.window, hidle_of hidle]
        exact hnumber
  | timeout peerId requestId =>
      obtain ⟨hidle, -⟩ := henabled
      have hbounded := hfits.bounded hidle
      change ∃ processed' base', (s.onTimeout peerId requestId).Intact processed' base'
      unfold onTimeout
      simp only
      split
      · have halike := @ChainSync.Alike.onBlockRequestTimeout
          { s.sync with
            blockRequestTimer := s.sync.blockRequestTimer.erase (peerId, requestId) } peerId requestId
        exact ⟨processed, base,
          hwindow.of_alike rfl rfl rfl (by rw [hidle_of hidle]; rfl) halike.keys,
          fun _ => hbounded.of_alike rfl (by rw [hidle_of hidle]; rfl) ⟨halike.keys, halike.peerNumbers⟩⟩
      · exact ⟨processed, base, hwindow.of_alike rfl rfl rfl rfl rfl,
          hfits.mono rfl rfl (fun _ => .rfl) (le_refl _)⟩
  | response peerId response =>
      have hidle : s.control = .idle := henabled
      have hbounded := hfits.bounded hidle
      change ∃ processed' base', (s.onResponse peerId response).Intact processed' base'
      unfold onResponse
      split
      · have halike := @ChainSync.Alike.onBlockResponse s.sync peerId response.blocks
        exact ⟨processed, base,
          hwindow.of_alike rfl rfl rfl (by rw [hidle_of hidle]; rfl) halike.keys,
          hbounded.of_alike rfl (by rw [hidle_of hidle]; rfl) halike⟩
      · exact ⟨processed, base,
          hwindow.of_alike rfl rfl rfl (by rw [hidle_of hidle]; rfl) rfl,
          hbounded.of_alike rfl (by rw [hidle_of hidle]; rfl) (.refl _)⟩
  | message =>
      obtain ⟨hidle, hsome⟩ := henabled
      have hbounded := hfits.bounded hidle
      change ∃ processed' base', s.onMessage.Intact processed' base'
      unfold onMessage
      split
      · next hnil => exact absurd hnil hsome
      · next number hash messages hmessages =>
        obtain ⟨base', h'⟩ := hwindow.onBlockCommitted hidle hbounded hmessages
        exact ⟨processed + 1, base', h'⟩
      · next number hash messages hmessages =>
        have hqueued := hqueue.queued
        rw [System.queued, hmessages] at hqueued
        refine ⟨processed, base, hwindow.of_keys ⟨hqueue.confirmedNumber, hqueue.processed_le, hqueued⟩
          (le_refl _) ?_, hbounded.of_alike rfl (by rw [hidle_of hidle]; rfl) (.refl _)⟩
        rw [System.window, System.window, hidle_of hidle]
        rfl
  | advance now =>
      obtain ⟨base', h'⟩ := h.advance hkeeps
      exact ⟨processed, base', h'⟩
  | commitBlock now params =>
      change ∃ processed' base', (s.commitBlock backend now params).Intact processed' base'
      rcases commitBlock_cases hqueue.confirmedNumber hkeeps with
        ⟨db, current, -, hdb, hcurrent, heq⟩ | ⟨e, -, heq⟩
      · have hle : s.current.confirmedNumber ≤ current.confirmedNumber :=
          hcurrent ▸ Nat.le_succ s.current.confirmedNumber
        rw [heq]
        exact ⟨processed, base, hwindow.of_keys (hqueue.commitBlock hdb hcurrent) hle rfl,
          hfits.mono rfl rfl (fun _ => .rfl) hle⟩
      · rw [heq]
        exact ⟨processed, base, h⟩
  | commitExecution now params =>
      change ∃ processed' base', (s.commitExecution backend now params).Intact processed' base'
      have hqueue' := @Queue.commitExecution backend s now processed hqueue params
      obtain ⟨current, messages, hcurrent, -, heq⟩ :=
        @commitExecution_cases backend s now hqueue.confirmedNumber params
      rw [heq] at hqueue' ⊢
      exact ⟨processed, base, hwindow.of_keys hqueue' hcurrent.ge rfl,
        hfits.mono rfl rfl (fun _ => .rfl) hcurrent.ge⟩
  | reorder peers =>
      have hperm : peers.Perm s.sync.peers := henabled
      exact ⟨processed, base, hwindow.of_alike rfl rfl rfl rfl rfl,
        hfits.mono rfl rfl (fun number => (hperm.map _).mem_iff) (le_refl _)⟩

theorem Intact.of_opened (h : s.Opened backend) :
    s.Intact s.current.confirmedNumber s.current.confirmedNumber := by
  have hqueue := Queue.of_opened h
  obtain ⟨-, -, hidle, hsync⟩ := h
  have hwindow : s.window = [] := by
    rw [System.window, hidle, hsync]
    rfl
  have hcontiguous : Contiguous s.current.confirmedNumber s.window := by
    rw [hwindow]
    exact .nil
  refine ⟨⟨hqueue, hcontiguous, le_refl _, le_refl _, ?_⟩, ?_⟩
  · rw [hwindow]
    exact Nat.zero_le _
  · rw [Fits, hidle]
    intro number hnumber
    rw [hwindow] at hnumber
    cases hnumber

/-- A run in which nothing is dropped keeps the window. -/
theorem intact_of_keeps (hopened : s₀.Opened backend)
    (hrun : ReflTransGen
      (Step backend consensusVerifyProof (Keeps backend consensusVerifyProof)) s₀ s) :
    ∃ processed base, s.Intact processed base := by
  induction hrun with
  | refl => exact ⟨_, _, .of_opened hopened⟩
  | tail hrun hstep ih =>
      obtain ⟨processed, base, h⟩ := ih
      obtain ⟨event, henabled, hkeeps, rfl⟩ := hstep
      exact h.next henabled hkeeps

/-! ## Holes -/

/-- The blocks that are left when the queue of the chain is processed: each message
removes its block. -/
def unconfirmed (s : System) : List (BlockNumber × PendingBlockState) :=
  s.sync.pendingBlocks.filter fun p => p.1 ∉ s.queued

/-- They are the numbers right above the confirmed one, at most as many as the
window may have, and each is one that a peer has. -/
structure NoHoles (s : System) : Prop where
  contiguous : Contiguous s.current.confirmedNumber s.unconfirmed
  length_le : s.unconfirmed.length ≤ pendingBlocksSize
  bounded : ∀ p ∈ s.unconfirmed, ∃ peer ∈ s.sync.peers, p.1 ≤ peer.2.confirmedNumber

/-- What the queue does not remove is what is above the confirmed number. -/
theorem Window.unconfirmed_eq (h : s.Window processed base) (hwindow : s.window = s.sync.pendingBlocks) :
    s.unconfirmed = s.sync.pendingBlocks.filter fun p => s.current.confirmedNumber < p.1 := by
  refine List.filter_congr fun p hp => ?_
  have hlt : processed < p.1 := by
    rw [← hwindow] at hp
    exact h.processed_le.trans_lt (h.contiguous.mem hp).1
  rw [decide_eq_decide, h.queue.queued, List.mem_range'_1, Nat.add_right_comm,
    Nat.add_sub_cancel' h.queue.processed_le]
  constructor
  · exact fun hnot => not_le.1 fun hle => hnot ⟨hlt, Nat.lt_succ_of_le hle⟩
  · exact fun hgt hand => absurd (Nat.le_of_lt_succ hand.2) (not_le.2 hgt)

/-- Between two handlers the window has no hole, in a run in which nothing is
dropped that is still needed. -/
theorem noHoles_of_keeps (hopened : s₀.Opened backend)
    (hrun : ReflTransGen
      (Step backend consensusVerifyProof (Keeps backend consensusVerifyProof)) s₀ s)
    (hidle : s.control = .idle) : s.NoHoles := by
  obtain ⟨processed, base, hwindow, hfits⟩ := intact_of_keeps hopened hrun
  have hpending : s.window = s.sync.pendingBlocks := by
    rw [System.window, hidle]
    rfl
  have hcontiguous := hwindow.contiguous.above hwindow.base_le
  have hlength := hwindow.length_le
  rw [hpending] at hcontiguous hlength
  rw [← hwindow.unconfirmed_eq hpending] at hcontiguous
  constructor
  case contiguous => exact hcontiguous
  case length_le => exact (List.length_filter_le _ _).trans hlength
  case bounded =>
    intro p hp
    have hmem : p.1 ∈ s.window.map Prod.fst := by
      rw [hpending]
      exact List.mem_map_of_mem (List.mem_filter.1 hp).1
    obtain ⟨peerNumber, hpeerNumber, hle⟩ := hfits.bounded hidle p.1 hmem (hcontiguous.mem hp).1
    obtain ⟨peer, hpeer, rfl⟩ := List.mem_map.1 hpeerNumber
    exact ⟨peer, hpeer, hle⟩

end System

/-! A peer has two blocks and sends them without their headers. -/

namespace Sample

open Chain.Sample

def sendsBare : List Event := asked 2 ++ answered [bare 1, bare 2] 8

/-- The consensus engine commits block 1 while the peer is asked for it, and
ChainSync hears of it. -/
def commitsOne : List Event := asked 2 ++ [.commitBlock 1 blockOne, .message, .advance 1]

end Sample

/-- Block 1 is dropped, and block 2 stays pending above the genesis block. -/
theorem not_noHoles_bare :
    ¬ ∀ (backend : Backend)
        (consensusVerifyProof : StateMap → Header → Proof → Except Consensus.ErrorKind Unit)
        (s₀ s : System), s₀.Opened backend →
      ReflTransGen (System.Step backend consensusVerifyProof fun _ _ => True) s₀ s →
        s.control = .idle → s.NoHoles := by
  intro h
  have hruns : System.Runs Chain.Sample.backend Sample.proofs (fun _ _ => True) Sample.start
      Sample.sendsBare := by
    decide +kernel
  have hcontiguous := (h _ _ _ _ Sample.opened_start hruns.reach (by decide +kernel)).contiguous
  have hnot : (System.run Chain.Sample.backend Sample.proofs Sample.start
      Sample.sendsBare).unconfirmed.map Prod.fst = [2] ∧
        (System.run Chain.Sample.backend Sample.proofs Sample.start
          Sample.sendsBare).current.confirmedNumber = 0 := by
    decide +kernel
  have hlength := congrArg List.length hnot.1
  rw [Contiguous, hnot.1, hnot.2] at hcontiguous
  rw [List.length_map] at hlength
  rw [hlength] at hcontiguous
  exact absurd hcontiguous (by decide)

theorem noHoles_commitsOne :
    (System.run Chain.Sample.backend Sample.proofs Sample.start Sample.commitsOne).NoHoles := by
  have hruns : System.Runs Chain.Sample.backend Sample.proofs
      (System.Keeps Chain.Sample.backend Sample.proofs) Sample.start Sample.commitsOne := by
    decide +kernel
  exact System.noHoles_of_keeps Sample.opened_start hruns.reach (by decide +kernel)

end Finastate.Sync
