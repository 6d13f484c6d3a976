import Finastate.Sync.Window

/-!
# The sync latency

`latency` subtracts the confirmed number from the highest pending one, in
unsigned arithmetic. The confirmed number is read live, and the pending blocks
are only trimmed when the messages of the chain arrive. So the subtraction is
exact as long as the highest pending number is not overtaken, which a commit
does when it confirms the last pending block but one message late.
-/

namespace Finastate.Sync

open Chain Executor Relation
open Coordinator (BlockData)

theorem wrapSub_self (w n : ℕ) : wrapSub w n n = 0 := by
  have hlt : n % 2 ^ w < 2 ^ w := Nat.mod_lt _ (Nat.two_pow_pos w)
  have hsplit : 2 ^ w - n % 2 ^ w + n = 2 ^ w * (n / 2 ^ w + 1) := by
    have hdiv := Nat.div_add_mod n (2 ^ w)
    rw [Nat.mul_add, Nat.mul_one]
    omega
  rw [wrapSub, hsplit, Nat.mul_mod_right]

namespace ChainSync

variable {sync : ChainSync} {confirmedNumber : ℕ}

theorem le_maxPending (hsorted : SortedMap.Sorted sync.pendingBlocks)
    (hahead : sync.pendingBlocks = [] ∨ ∃ p ∈ sync.pendingBlocks, confirmedNumber ≤ p.1) :
    confirmedNumber ≤ sync.maxPending confirmedNumber := by
  rcases hahead with hnil | ⟨p, hp, hle⟩
  · simp [maxPending, lastPending, hnil]
  · cases hlast : sync.pendingBlocks.getLast? with
    | none =>
        rw [List.getLast?_eq_none_iff.1 hlast] at hp
        cases hp
    | some last =>
        simp only [maxPending, lastPending, hlast, Option.map_some, Option.getD_some]
        exact hle.trans (hsorted.le_getLast hlast hp)

theorem keys_append_of_lt {maxPendingNumber maxToAppend : BlockNumber}
    (hlt : maxPendingNumber < maxToAppend) (hsorted : SortedMap.Sorted sync.pendingBlocks)
    (hle : ∀ number ∈ sync.keys, number ≤ maxPendingNumber) :
    (sync.append maxPendingNumber maxToAppend).keys =
      sync.keys ++ List.range' (maxPendingNumber + 1) (maxToAppend - maxPendingNumber) := by
  have hitems := SortedMap.Contiguous.range' maxPendingNumber (maxToAppend - maxPendingNumber)
    PendingBlockState.seen
  have happend : SortedMap.Sorted (sync.pendingBlocks ++
      (List.range' (maxPendingNumber + 1) (maxToAppend - maxPendingNumber)).map
        fun number => (number, PendingBlockState.seen)) := by
    refine List.pairwise_append.2 ⟨hsorted, hitems.sorted, fun p hp q hq => ?_⟩
    exact (hle p.1 (List.mem_map_of_mem hp)).trans_lt (hitems.mem hq).1
  have hif : (sync.append maxPendingNumber maxToAppend).pendingBlocks =
      SortedMap.extend sync.pendingBlocks
        ((List.range' (maxPendingNumber + 1) (maxToAppend - maxPendingNumber)).map
          fun number => (number, PendingBlockState.seen)) := by
    unfold ChainSync.append
    split
    · rfl
    · next hnot => exact absurd hlt hnot
  rw [keys, hif, SortedMap.extend_of_sorted_append happend, List.map_append, hitems,
    List.length_map, List.length_range', keys]

theorem pendingBlocks_append_of_le {maxPendingNumber maxToAppend : BlockNumber}
    (hle : maxToAppend ≤ maxPendingNumber) :
    (sync.append maxPendingNumber maxToAppend).pendingBlocks =
      sync.pendingBlocks.filter fun p => ¬ (maxToAppend < p.1 ∧ p.1 ≤ maxPendingNumber) := by
  unfold ChainSync.append
  split
  · next hlt => exact absurd hle (not_le.2 hlt)
  · rfl

/-- A latency that does not wrap is the difference of the numbers. -/
theorem latency_eq_sub (hle : confirmedNumber ≤ sync.maxPending confirmedNumber)
    (hsmall : ∀ p ∈ sync.pendingBlocks, p.1 < 2 ^ 64) :
    sync.latency confirmedNumber = sync.maxPending confirmedNumber - confirmedNumber := by
  cases hlast : sync.pendingBlocks.getLast? with
  | none =>
      have hmax : sync.maxPending confirmedNumber = confirmedNumber := by
        simp only [maxPending, lastPending, hlast, Option.map_none, Option.getD_none]
      rw [latency, hmax, wrapSub_self, Nat.sub_self]
  | some last =>
      have hmax : sync.maxPending confirmedNumber = last.1 := by
        simp only [maxPending, lastPending, hlast, Option.map_some, Option.getD_some]
      have hlt := hsmall last (List.mem_of_getLast? hlast)
      rw [← hmax] at hlt
      exact wrapSub_of_le hlt hle

end ChainSync

namespace System

variable {backend : Backend}
  {consensusVerifyProof : StateMap → Header → Proof → Except Consensus.ErrorKind Unit}
  {s s' s₀ : System} {now processed : ℕ} {params : ChainCommitBlockParams}

/-- The numbers of the window. -/
def numbers (s : System) : List BlockNumber := s.window.map Prod.fst

/-- The bounds that `maintain_new` has read. -/
structure Above (s : System) (processed maxPendingNumber maxToAppend : ℕ) : Prop where
  small : maxToAppend < 2 ^ 64
  processed_le : processed ≤ maxPendingNumber
  le : ∀ number ∈ s.numbers, number ≤ maxPendingNumber

/-- The window is above the messages that are processed, and not below the
confirmed number as a whole. -/
structure Ahead (s : System) (processed : ℕ) : Prop where
  queue : s.Queue processed
  sorted : s.numbers.Pairwise (· < ·)
  lt : ∀ number ∈ s.numbers, processed < number
  small : ∀ number ∈ s.numbers, number < 2 ^ 64
  ahead : s.numbers = [] ∨ ∃ number ∈ s.numbers, s.current.confirmedNumber ≤ number
  peers : ∀ number ∈ s.sync.peerNumbers, number < 2 ^ 64
  appending : ∀ maxPendingNumber maxToAppend,
    s.control = .appending maxPendingNumber maxToAppend →
    s.Above processed maxPendingNumber maxToAppend

/-- The latency is read in this step. -/
def Control.ReadsLatency : Control → Prop
  | .committed .. | .downloaded | .verified _ | .appending .. | .appended _ => True
  | .idle | .picking _ | .verifying .. | .committing .. | .new | .seen => False

/-- The events that evaluate `latency`. -/
def Evaluates (s : System) : Event → Prop
  | .message => ∃ number hash messages, s.messages = .blockCommitted number hash :: messages
  | .advance _ => Control.ReadsLatency s.control
  | _ => False

/-- The commit of a block does not overtake the window. -/
def Follows (backend : Backend) (s : System) (now : Nat) (params : ChainCommitBlockParams) : Prop :=
  s.Caches backend now params ∧
    ((backend.commitBlock s.db now params).2.isOk →
      s.window = [] ∨ ∃ p ∈ s.window, s.current.confirmedNumber < p.1)

/-- `maintain_new` appends up to the confirmed number at least, and what it leaves
reaches the confirmed number. -/
def Reaches (s : System) (maxPendingNumber maxToAppend : BlockNumber) : Prop :=
  (maxPendingNumber < maxToAppend → s.current.confirmedNumber ≤ maxToAppend) ∧
    (maxToAppend ≤ maxPendingNumber →
      (∀ p ∈ s.sync.pendingBlocks, maxToAppend < p.1) ∨
        ∃ p ∈ s.sync.pendingBlocks, s.current.confirmedNumber ≤ p.1 ∧ p.1 ≤ maxToAppend)

def PacesStep (backend : Backend) (s : System) (now : Nat) : Control → Prop
  | .committing _ _ _ _ params => s.Follows backend now params
  | .appending maxPendingNumber maxToAppend => s.Reaches maxPendingNumber maxToAppend
  | _ => True

/-- No commit overtakes the pending blocks, and `maintain_new` does not leave them
behind. -/
def Paces (backend : Backend) (s : System) : Event → Prop
  | .commitBlock now params => s.Follows backend now params
  | .advance now => s.PacesStep backend now s.control
  | _ => True

instance : Decidable (s.Follows backend now params) := inferInstanceAs (Decidable (_ ∧ (_ → _)))

instance (maxPendingNumber maxToAppend : BlockNumber) :
    Decidable (s.Reaches maxPendingNumber maxToAppend) :=
  inferInstanceAs (Decidable ((_ → _) ∧ (_ → _)))

instance (control : Control) : Decidable (s.PacesStep backend now control) :=
  match control with
  | .committing _ _ _ _ params => inferInstanceAs (Decidable (s.Follows backend now params))
  | .appending maxPendingNumber maxToAppend =>
      inferInstanceAs (Decidable (s.Reaches maxPendingNumber maxToAppend))
  | .idle | .committed .. | .downloaded | .picking .. | .verifying .. | .verified .. | .new
  | .appended .. | .seen => isTrue trivial

instance (event : Event) : Decidable (s.Paces backend event) :=
  match event with
  | .commitBlock now params => inferInstanceAs (Decidable (s.Follows backend now params))
  | .advance now => inferInstanceAs (Decidable (s.PacesStep backend now s.control))
  | .open .. | .close _ | .announce .. | .timeout .. | .response .. | .message
  | .commitExecution .. | .reorder _ => isTrue trivial

/-! ## Steps -/

theorem numbers_of_alike (hinHand : s'.control.inHand.map Prod.fst = s.control.inHand.map Prod.fst)
    (hkeys : s'.sync.keys = s.sync.keys) : s'.numbers = s.numbers := by
  have hpending : s'.sync.pendingBlocks.map Prod.fst = s.sync.pendingBlocks.map Prod.fst := hkeys
  rw [numbers, numbers, window, window, List.map_append, List.map_append, hinHand, hpending]

/-- A number of the window that is not behind is not the first one, or nothing is
left without the first one. -/
theorem exists_rest {number bound : ℕ} {rest : List ℕ} (hsorted : (number :: rest).Pairwise (· < ·))
    (h : ∃ n ∈ number :: rest, bound ≤ n) : rest = [] ∨ ∃ n ∈ rest, bound ≤ n := by
  obtain ⟨n, hn, hle⟩ := h
  rcases List.mem_cons.1 hn with rfl | hn
  · cases rest with
    | nil => exact .inl rfl
    | cons m rest =>
        have hlt := (List.pairwise_cons.1 hsorted).1 m List.mem_cons_self
        exact .inr ⟨m, List.mem_cons_self, hle.trans hlt.le⟩
  · exact .inr ⟨n, hn, hle⟩

namespace Ahead

/-- The numbers stay, and the confirmed number. -/
theorem of_numbers (h : s.Ahead processed) (hqueue : s'.Queue processed)
    (hcurrent : s'.current.confirmedNumber = s.current.confirmedNumber)
    (hnumbers : s'.numbers = s.numbers)
    (hpeers : ∀ number ∈ s'.sync.peerNumbers, number < 2 ^ 64)
    (happending : ∀ maxPendingNumber maxToAppend,
      s'.control = .appending maxPendingNumber maxToAppend →
      s'.Above processed maxPendingNumber maxToAppend) : s'.Ahead processed where
  queue := hqueue
  sorted := hnumbers ▸ h.sorted
  lt := hnumbers ▸ h.lt
  small := hnumbers ▸ h.small
  ahead := by
    rw [hnumbers, hcurrent]
    exact h.ahead
  peers := hpeers
  appending := happending

theorem of_alike (h : s.Ahead processed) (hdb : s'.db = s.db) (hcurrent : s'.current = s.current)
    (hmessages : s'.messages = s.messages)
    (hinHand : s'.control.inHand.map Prod.fst = s.control.inHand.map Prod.fst)
    (halike : s'.sync.Alike s.sync)
    (hcontrol : ∀ maxPendingNumber maxToAppend,
      s'.control ≠ .appending maxPendingNumber maxToAppend) : s'.Ahead processed :=
  h.of_numbers (h.queue.of_eq hdb hcurrent hmessages) (by rw [hcurrent])
    (numbers_of_alike hinHand halike.keys) (halike.peerNumbers ▸ h.peers)
    fun _ _ heq => absurd heq (hcontrol _ _)

/-- The numbers lose the first one, and what is left is not behind. -/
theorem tail (h : s.Ahead processed) {number : BlockNumber} {state : PendingBlockState}
    (hwindow : s.window = (number, state) :: s.sync.pendingBlocks) (hqueue : s'.Queue processed)
    (halike : s'.sync.Alike s.sync) (hinHand : s'.control.inHand = [])
    (hcontrol : ∀ maxPendingNumber maxToAppend,
      s'.control ≠ .appending maxPendingNumber maxToAppend)
    (hahead : ∃ n ∈ s.numbers, s'.current.confirmedNumber ≤ n) : s'.Ahead processed := by
  have hnumbers : s.numbers = number :: s'.numbers := by
    have hkeys : s'.sync.pendingBlocks.map Prod.fst = s.sync.pendingBlocks.map Prod.fst :=
      halike.keys
    rw [numbers, numbers, hwindow, System.window, hinHand, List.nil_append, hkeys]
    rfl
  have hsorted := h.sorted
  rw [hnumbers] at hsorted hahead
  have hmem : ∀ n ∈ s'.numbers, n ∈ s.numbers := fun n hn => hnumbers ▸ List.mem_cons_of_mem _ hn
  exact
    { queue := hqueue
      sorted := (List.pairwise_cons.1 hsorted).2
      lt := fun n hn => h.lt n (hmem n hn)
      small := fun n hn => h.small n (hmem n hn)
      ahead := exists_rest hsorted hahead
      peers := halike.peerNumbers ▸ h.peers
      appending := fun _ _ heq => absurd heq (hcontrol _ _) }

/-- Some number of a window with a block in hand is not behind. -/
theorem exists_of_cons (h : s.Ahead processed) {p : BlockNumber × PendingBlockState}
    {rest : List (BlockNumber × PendingBlockState)} (hwindow : s.window = p :: rest) :
    ∃ n ∈ s.numbers, s.current.confirmedNumber ≤ n := by
  rcases h.ahead with hnil | hahead
  · rw [numbers, hwindow] at hnil
    cases hnil
  · exact hahead

theorem act (h : s.Ahead processed) {oldLatency number : BlockNumber} {source : PeerId}
    {blockData : BlockData}
    (hwindow : s.window = (number, .downloaded source blockData) :: s.sync.pendingBlocks)
    (action : VerifyAction) :
    (s.act oldLatency number source blockData action).Ahead processed := by
  have hahead := h.exists_of_cons hwindow
  have hqueue := h.queue
  cases action with
  | ok => exact h.tail hwindow (hqueue.of_eq rfl rfl rfl) (.refl _) rfl nofun hahead
  | discard => exact h.tail hwindow (hqueue.of_eq rfl rfl rfl) (.refl _) rfl nofun hahead
  | reset => exact h.tail hwindow (hqueue.of_eq rfl rfl rfl) (.resetSource source) rfl nofun hahead
  | wait =>
      have hsorted := h.sorted
      rw [numbers, hwindow] at hsorted
      have hlt : ∀ p ∈ s.sync.pendingBlocks, number < p.1 := fun p hp =>
        (List.pairwise_cons.1 hsorted).1 p.1 (List.mem_map_of_mem hp)
      have hinsert := SortedMap.insert_of_forall_gt hlt
        (PendingBlockState.downloaded source blockData)
      have hnumbers : (s.act oldLatency number source blockData .wait).numbers = s.numbers := by
        rw [numbers, numbers, hwindow]
        exact congrArg (List.map Prod.fst) hinsert
      exact h.of_numbers (hqueue.of_eq rfl rfl rfl) rfl hnumbers h.peers nofun

end Ahead

/-- The numbers that `maintain_new` appends are above the old ones, and the last one
is the bound. -/
theorem Ahead.append_of_lt (h : s.Ahead processed) {maxPendingNumber maxToAppend : BlockNumber}
    (hcontrol : s.control = .appending maxPendingNumber maxToAppend)
    (hgrow : maxPendingNumber < maxToAppend) (hreaches : s.current.confirmedNumber ≤ maxToAppend)
    (hkeys : s'.numbers = s.numbers ++
      List.range' (maxPendingNumber + 1) (maxToAppend - maxPendingNumber))
    (hqueue : s'.Queue processed)
    (hcurrent : s'.current.confirmedNumber = s.current.confirmedNumber)
    (hpeers : s'.sync.peerNumbers = s.sync.peerNumbers)
    (hcontrol' : ∀ maxPendingNumber maxToAppend,
      s'.control ≠ .appending maxPendingNumber maxToAppend) : s'.Ahead processed := by
  obtain ⟨hsmall, hprocessed, hle⟩ := h.appending _ _ hcontrol
  have hrange : ∀ number, number ∈ List.range' (maxPendingNumber + 1)
      (maxToAppend - maxPendingNumber) ↔ maxPendingNumber < number ∧ number ≤ maxToAppend := by
    intro number
    rw [List.mem_range'_1, Nat.add_right_comm, Nat.add_sub_cancel' hgrow.le]
    exact and_congr .rfl Nat.lt_succ_iff
  constructor
  case queue => exact hqueue
  case sorted =>
    rw [hkeys, List.pairwise_append]
    exact ⟨h.sorted, List.pairwise_lt_range' 1, fun m hm n hn =>
      (hle m hm).trans_lt ((hrange n).1 hn).1⟩
  case lt =>
    intro number hnumber
    rw [hkeys] at hnumber
    rcases List.mem_append.1 hnumber with hnumber | hnumber
    · exact h.lt number hnumber
    · exact hprocessed.trans_lt ((hrange number).1 hnumber).1
  case small =>
    intro number hnumber
    rw [hkeys] at hnumber
    rcases List.mem_append.1 hnumber with hnumber | hnumber
    · exact h.small number hnumber
    · exact ((hrange number).1 hnumber).2.trans_lt hsmall
  case ahead =>
    refine .inr ⟨maxToAppend, ?_, hcurrent ▸ hreaches⟩
    rw [hkeys]
    exact List.mem_append_right _ ((hrange maxToAppend).2 ⟨hgrow, le_refl _⟩)
  case peers => exact hpeers ▸ h.peers
  case appending => exact fun _ _ heq => absurd heq (hcontrol' _ _)

/-- The numbers become fewer, and what is left is not behind. -/
theorem Ahead.of_sublist (h : s.Ahead processed) (hnumbers : s'.numbers.Sublist s.numbers)
    (hqueue : s'.Queue processed) (hpeers : s'.sync.peerNumbers = s.sync.peerNumbers)
    (hcontrol : ∀ maxPendingNumber maxToAppend,
      s'.control ≠ .appending maxPendingNumber maxToAppend)
    (hahead : s'.numbers = [] ∨ ∃ number ∈ s'.numbers, s'.current.confirmedNumber ≤ number) :
    s'.Ahead processed where
  queue := hqueue
  sorted := h.sorted.sublist hnumbers
  lt := fun number hnumber => h.lt number (hnumbers.mem hnumber)
  small := fun number hnumber => h.small number (hnumbers.mem hnumber)
  ahead := hahead
  peers := hpeers ▸ h.peers
  appending := fun _ _ heq => absurd heq (hcontrol _ _)

/-- What `maintain_new` leaves is not behind. -/
theorem Ahead.append (h : s.Ahead processed) {maxPendingNumber maxToAppend : BlockNumber}
    (hcontrol : s.control = .appending maxPendingNumber maxToAppend)
    (hreaches : s.Reaches maxPendingNumber maxToAppend) (oldLatency : BlockNumber) :
    Ahead
      { s with
        sync := s.sync.append maxPendingNumber maxToAppend
        control := .appended oldLatency }
      processed := by
  have hle := (h.appending _ _ hcontrol).le
  have hnumbers : s.numbers = s.sync.keys := by
    rw [numbers, window, hcontrol]
    rfl
  have hpeers : (s.sync.append maxPendingNumber maxToAppend).peerNumbers = s.sync.peerNumbers := by
    rw [ChainSync.peerNumbers, ChainSync.peers_append]
    rfl
  have hsorted := h.sorted
  rw [hnumbers] at hsorted hle
  rcases Nat.lt_or_ge maxPendingNumber maxToAppend with hgrow | hshrink
  · refine h.append_of_lt hcontrol hgrow (hreaches.1 hgrow) ?_ (h.queue.of_eq rfl rfl rfl) rfl hpeers
      (by rintro _ _ ⟨⟩)
    rw [hnumbers]
    exact ChainSync.keys_append_of_lt hgrow (List.pairwise_map.1 hsorted) hle
  · have hpending := @ChainSync.pendingBlocks_append_of_le s.sync _ _ hshrink
    have hsublist := (congrArg (List.map Prod.fst) hpending).symm ▸
      (List.filter_sublist (p := fun p : BlockNumber × PendingBlockState =>
        decide ¬ (maxToAppend < p.1 ∧ p.1 ≤ maxPendingNumber)) (l := s.sync.pendingBlocks)).map Prod.fst
    refine h.of_sublist (hnumbers ▸ hsublist) (h.queue.of_eq rfl rfl rfl) hpeers (by rintro _ _ ⟨⟩) ?_
    have hkeys : ∀ number, number ∈ (s.sync.append maxPendingNumber maxToAppend).keys ↔
        ∃ p ∈ s.sync.pendingBlocks, ¬ (maxToAppend < p.1 ∧ p.1 ≤ maxPendingNumber) ∧
          p.1 = number := by
      intro number
      rw [ChainSync.keys, hpending, List.mem_map]
      simp only [List.mem_filter, decide_eq_true_eq, and_assoc]
    change (s.sync.append maxPendingNumber maxToAppend).keys = [] ∨
      ∃ number ∈ (s.sync.append maxPendingNumber maxToAppend).keys,
        s.current.confirmedNumber ≤ number
    rcases hreaches.2 hshrink with hall | ⟨p, hp, hconfirmed, hbound⟩
    · refine .inl (List.eq_nil_iff_forall_not_mem.2 fun number hnumber => ?_)
      obtain ⟨p, hp, hnot, -⟩ := (hkeys number).1 hnumber
      exact hnot ⟨hall p hp, hle p.1 (List.mem_map_of_mem hp)⟩
    · exact .inr ⟨p.1, (hkeys p.1).2 ⟨p, hp, fun hand => absurd hand.1 (not_lt.2 hbound), rfl⟩,
        hconfirmed⟩

/-- `maintain_new` reads bounds above all pending numbers. -/
theorem Ahead.above (h : s.Ahead processed) (hcontrol : s.control.inHand = [])
    {maxPeerNumber : BlockNumber} (hpeer : maxPeerNumber ∈ s.sync.peerNumbers) :
    s.Above processed (s.sync.maxPending s.current.confirmedNumber)
      (s.sync.maxToAppend maxPeerNumber (s.sync.maxPending s.current.confirmedNumber)) := by
  have hwindow : s.window = s.sync.pendingBlocks := by
    rw [window, hcontrol]
    rfl
  have hsorted : SortedMap.Sorted s.sync.pendingBlocks := by
    have hsorted := h.sorted
    rw [numbers, hwindow] at hsorted
    exact List.pairwise_map.1 hsorted
  have hsmall : s.sync.maxToAppend maxPeerNumber (s.sync.maxPending s.current.confirmedNumber) <
      2 ^ 64 :=
    (Nat.min_le_left _ _).trans_lt (h.peers maxPeerNumber hpeer)
  cases hlast : s.sync.pendingBlocks.getLast? with
  | none =>
      have hnil := List.getLast?_eq_none_iff.1 hlast
      have hmax : s.sync.maxPending s.current.confirmedNumber = s.current.confirmedNumber := by
        simp only [ChainSync.maxPending, ChainSync.lastPending, hlast, Option.map_none,
          Option.getD_none]
      refine ⟨hsmall, h.queue.processed_le.trans hmax.ge, fun number hnumber => ?_⟩
      rw [numbers, hwindow, hnil] at hnumber
      cases hnumber
  | some last =>
      have hmax : s.sync.maxPending s.current.confirmedNumber = last.1 := by
        simp only [ChainSync.maxPending, ChainSync.lastPending, hlast, Option.map_some,
          Option.getD_some]
      have hmem : last.1 ∈ s.numbers := by
        rw [numbers, hwindow]
        exact List.mem_map_of_mem (List.mem_of_getLast? hlast)
      refine ⟨hsmall, hmax ▸ (h.lt last.1 hmem).le, fun number hnumber => ?_⟩
      rw [numbers, hwindow] at hnumber
      obtain ⟨p, hp, rfl⟩ := List.mem_map.1 hnumber
      exact hmax ▸ hsorted.le_getLast hlast hp

/-- A commit that does not overtake the window leaves it ahead. -/
theorem Ahead.commitBlock (h : s.Ahead processed) (hfollows : s.Follows backend now params) :
    (s.commitBlock backend now params).Ahead processed := by
  obtain ⟨hcaches, hwindow⟩ := hfollows
  rcases commitBlock_cases h.queue.confirmedNumber hcaches with
    ⟨db, current, hok, hdb, hcurrent, heq⟩ | ⟨e, -, heq⟩
  · have hqueue := @Queue.commitBlock s processed h.queue db current params.blockHash hdb hcurrent
    rw [heq]
    constructor
    case queue => exact hqueue
    case sorted => exact h.sorted
    case lt => exact h.lt
    case small => exact h.small
    case peers => exact h.peers
    case appending =>
      intro maxPendingNumber maxToAppend hcontrol
      obtain ⟨hsmall, hprocessed, hle⟩ := h.appending _ _ hcontrol
      exact ⟨hsmall, hprocessed, hle⟩
    case ahead =>
      rcases hwindow (by rw [hok]; rfl) with hnil | ⟨p, hp, hlt⟩
      · exact .inl (List.map_eq_nil_iff.2 hnil)
      · exact .inr ⟨p.1, List.mem_map_of_mem hp, hcurrent.trans_le hlt⟩
  · rw [heq]
    exact h

/-- A step of a handler leaves the window ahead. -/
theorem Ahead.advance (h : s.Ahead processed) (hpaces : s.Paces backend (.advance now)) :
    (s.advance backend consensusVerifyProof now).Ahead processed := by
  have hqueue := h.queue
  obtain ⟨db, current, messages, sync, control⟩ := s
  cases control with
  | idle => exact h
  | committed number blockHash oldLatency =>
      unfold System.advance
      simp only
      have hnotified := @ChainSync.Alike.notifyLatency sync oldLatency
        (sync.latency current.confirmedNumber)
      split
      · exact h.of_alike rfl rfl rfl rfl hnotified (by rintro _ _ ⟨⟩)
      · next header hheader =>
        exact h.of_alike rfl rfl rfl rfl ((ChainSync.Alike.send _).trans
          ((ChainSync.Alike.announceBlock blockHash header).trans hnotified)) (by rintro _ _ ⟨⟩)
  | downloaded => exact h.of_alike rfl rfl rfl rfl (.refl _) (by rintro _ _ ⟨⟩)
  | picking oldLatency =>
      unfold System.advance
      simp only
      split
      · exact h.of_alike rfl rfl rfl rfl (.refl _) (by rintro _ _ ⟨⟩)
      · next number source blockData hfirst =>
        obtain ⟨rest, hpending⟩ := ChainSync.eq_cons_of_firstDownloaded hfirst
        have hsorted : SortedMap.Sorted sync.pendingBlocks := List.pairwise_map.1 h.sorted
        have hnumbers : numbers ⟨db, current, messages, sync.removePending number,
            .verifying oldLatency number source blockData⟩ =
              numbers ⟨db, current, messages, sync, .picking oldLatency⟩ := by
          simp only [numbers, window, Control.inHand,
            ChainSync.removePending_of_cons hsorted hpending, hpending, List.singleton_append,
            List.nil_append]
        exact h.of_numbers (hqueue.of_eq rfl rfl rfl) rfl hnumbers h.peers (by rintro _ _ ⟨⟩)
  | verifying oldLatency number source blockData =>
      unfold System.advance
      simp only
      split
      · exact h.of_alike rfl rfl rfl rfl (.refl _) (by rintro _ _ ⟨⟩)
      · exact h.act rfl _
      · exact h.tail rfl (hqueue.of_eq rfl rfl rfl) (.refl _) rfl (by rintro _ _ ⟨⟩) (h.exists_of_cons rfl)
  | committing oldLatency number source blockData params =>
      have hcommitted := h.commitBlock hpaces
      have hcontrol := @control_commitBlock backend
        ⟨db, current, messages, sync, .committing oldLatency number source blockData params⟩ now params
      have hwindow : (System.commitBlock backend ⟨db, current, messages, sync,
          .committing oldLatency number source blockData params⟩ now params).window =
            (number, .downloaded source blockData) :: (System.commitBlock backend ⟨db, current,
              messages, sync, .committing oldLatency number source blockData params⟩ now
                params).sync.pendingBlocks := by
        rw [window, hcontrol]
        rfl
      unfold System.advance
      simp only
      split
      · exact hcommitted.act hwindow _
      · exact hcommitted.tail hwindow (hcommitted.queue.of_eq rfl rfl rfl) (.refl _) rfl (by rintro _ _ ⟨⟩)
          (hcommitted.exists_of_cons hwindow)
  | verified oldLatency =>
      exact h.of_alike rfl rfl rfl rfl (.notifyLatency _ _) (by rintro _ _ ⟨⟩)
  | new =>
      unfold System.advance
      simp only
      split
      · exact h.of_alike rfl rfl rfl rfl (.refl _) (by rintro _ _ ⟨⟩)
      · next maxPeerNumber hpeers =>
        have habove := h.above rfl (List.max?_mem hpeers)
        refine h.of_numbers (hqueue.of_eq rfl rfl rfl) rfl rfl h.peers fun lo hi heq => ?_
        cases heq
        exact ⟨habove.small, habove.processed_le, habove.le⟩
  | appending maxPendingNumber maxToAppend => exact h.append rfl hpaces _
  | appended oldLatency => exact h.of_alike rfl rfl rfl rfl (.notifyLatency _ _) (by rintro _ _ ⟨⟩)
  | seen => exact h.of_alike rfl rfl rfl rfl .maintainSeen (by rintro _ _ ⟨⟩)

/-- The message of a block removes the first number of the window, if it is
there. -/
theorem Ahead.onBlockCommitted (h : s.Ahead processed) (hidle : s.control = .idle)
    {number : BlockNumber} {hash : Hash} {messages : List ChainOutMessage}
    (hmessages : s.messages = .blockCommitted number hash :: messages) :
    ({ s with messages := messages }.onBlockCommitted number hash).Ahead (processed + 1) := by
  obtain ⟨rfl, hqueue⟩ := h.queue.of_cons hmessages
  have hnumbers : s.numbers = s.sync.pendingBlocks.map Prod.fst := by
    rw [numbers, window, hidle]
    rfl
  have hkeys : ∀ number, number ∈ numbers
      ({ s with messages := messages }.onBlockCommitted (processed + 1) hash) ↔
        number ∈ s.numbers ∧ number ≠ processed + 1 := by
    intro number
    rw [hnumbers]
    change number ∈ (AssocMap.erase s.sync.pendingBlocks (processed + 1)).map Prod.fst ↔ _
    simp only [AssocMap.erase, List.mem_map, List.mem_filter, decide_eq_true_eq]
    constructor
    · rintro ⟨p, ⟨hp, hne⟩, rfl⟩
      exact ⟨⟨p, hp, rfl⟩, hne⟩
    · rintro ⟨⟨p, hp, rfl⟩, hne⟩
      exact ⟨p, ⟨hp, hne⟩, rfl⟩
  have hlt : ∀ number ∈ numbers
      ({ s with messages := messages }.onBlockCommitted (processed + 1) hash),
      processed + 1 < number := by
    intro number hnumber
    obtain ⟨hmem, hne⟩ := (hkeys number).1 hnumber
    exact lt_of_le_of_ne (h.lt number hmem) (Ne.symm hne)
  constructor
  case queue => exact hqueue.of_eq rfl rfl rfl
  case sorted =>
    have hsorted := h.sorted
    rw [hnumbers] at hsorted
    exact hsorted.sublist (List.filter_sublist.map Prod.fst)
  case lt => exact hlt
  case small => exact fun number hnumber => h.small number ((hkeys number).1 hnumber).1
  case peers => exact h.peers
  case appending => rintro _ _ ⟨⟩
  case ahead =>
    -- A number that is left is above the one that is removed.
    by_cases hleft : ∃ number, number ∈ numbers
        ({ s with messages := messages }.onBlockCommitted (processed + 1) hash)
    · obtain ⟨number, hnumber⟩ := hleft
      rcases h.ahead with hnil | ⟨bound, hbound, hle⟩
      · rw [hnil] at hkeys
        exact absurd ((hkeys number).1 hnumber).1 List.not_mem_nil
      · by_cases heq : bound = processed + 1
        · exact .inr ⟨number, hnumber, (hle.trans_eq heq).trans (hlt number hnumber).le⟩
        · exact .inr ⟨bound, (hkeys bound).2 ⟨hbound, heq⟩, hle⟩
    · exact .inl (List.eq_nil_iff_forall_not_mem.2 fun number hnumber => hleft ⟨number, hnumber⟩)

/-- Every event leaves the window ahead. -/
theorem Ahead.next (h : s.Ahead processed) {event : Event} (henabled : s.Enabled event)
    (hpaces : s.Paces backend event) :
    ∃ processed', (s.next backend consensusVerifyProof event).Ahead processed' := by
  have hqueue := h.queue
  have hinHand_of : s.control = .idle → s.control.inHand = [] := fun hidle => by rw [hidle]; rfl
  cases event with
  | «open» peerId nonce handshake =>
      obtain ⟨hidle, hsmall⟩ := henabled
      refine ⟨processed, h.of_numbers (hqueue.of_eq rfl rfl rfl) rfl
        (numbers_of_alike (by rw [hinHand_of hidle]; rfl) rfl) (fun number hnumber => ?_) (by rintro _ _ ⟨⟩)⟩
      obtain ⟨p, hp, rfl⟩ := List.mem_map.1 hnumber
      rcases AssocMap.mem_insert hp with rfl | hp
      · exact hsmall
      · exact h.peers _ (List.mem_map_of_mem hp)
  | close peerId =>
      have hidle : s.control = .idle := henabled
      have hkeys := AssocMap.keys_mapValues
        (fun _ state => PendingBlockState.release (fun source _ => source = peerId) state)
        s.sync.pendingBlocks
      refine ⟨processed, h.of_numbers (hqueue.of_eq rfl rfl rfl) rfl
        (numbers_of_alike (by rw [hinHand_of hidle]; rfl) hkeys) (fun number hnumber => ?_) (by rintro _ _ ⟨⟩)⟩
      exact h.peers number ((List.filter_sublist.map _).mem hnumber)
  | announce peerId announce =>
      obtain ⟨hidle, hsmall⟩ := henabled
      refine ⟨processed, h.of_numbers (hqueue.of_eq rfl rfl rfl) rfl
        (numbers_of_alike (by rw [hinHand_of hidle]; rfl) rfl) (fun number hnumber => ?_) (by rintro _ _ ⟨⟩)⟩
      obtain ⟨p, hp, rfl⟩ := List.mem_map.1 hnumber
      obtain ⟨q, hq, rfl⟩ := List.mem_map.1 hp
      simp only
      split
      · exact hsmall
      · exact h.peers _ (List.mem_map_of_mem hq)
  | timeout peerId requestId =>
      obtain ⟨hidle, -⟩ := henabled
      refine ⟨processed, ?_⟩
      change (s.onTimeout peerId requestId).Ahead processed
      unfold onTimeout
      simp only
      split
      · have halike := @ChainSync.Alike.onBlockRequestTimeout
          { s.sync with
            blockRequestTimer := s.sync.blockRequestTimer.erase (peerId, requestId) } peerId requestId
        exact h.of_alike rfl rfl rfl (by rw [hinHand_of hidle]; rfl)
          ⟨halike.keys, halike.peerNumbers⟩ (by rintro _ _ ⟨⟩)
      · exact h.of_alike rfl rfl rfl rfl ⟨rfl, rfl⟩ (by rw [hidle]; rintro _ _ ⟨⟩)
  | response peerId response =>
      have hidle : s.control = .idle := henabled
      refine ⟨processed, ?_⟩
      change (s.onResponse peerId response).Ahead processed
      unfold onResponse
      split
      · exact h.of_alike rfl rfl rfl (by rw [hinHand_of hidle]; rfl) (.onBlockResponse _ _) (by rintro _ _ ⟨⟩)
      · exact h.of_alike rfl rfl rfl (by rw [hinHand_of hidle]; rfl) (.refl _) (by rintro _ _ ⟨⟩)
  | message =>
      obtain ⟨hidle, hsome⟩ := henabled
      change ∃ processed', s.onMessage.Ahead processed'
      unfold onMessage
      split
      · next hnil => exact absurd hnil hsome
      · next number hash messages hmessages =>
        exact ⟨processed + 1, h.onBlockCommitted hidle hmessages⟩
      · next number hash messages hmessages =>
        have hqueued := hqueue.queued
        rw [System.queued, hmessages] at hqueued
        exact ⟨processed, h.of_numbers ⟨hqueue.confirmedNumber, hqueue.processed_le, hqueued⟩ rfl
          (numbers_of_alike (by rw [hinHand_of hidle]; rfl) rfl) h.peers (by rintro _ _ ⟨⟩)⟩
  | advance now => exact ⟨processed, h.advance hpaces⟩
  | commitBlock now params => exact ⟨processed, h.commitBlock hpaces⟩
  | commitExecution now params =>
      refine ⟨processed, ?_⟩
      change (s.commitExecution backend now params).Ahead processed
      have hqueue' := @Queue.commitExecution backend s now processed hqueue params
      obtain ⟨current, messages, hcurrent, -, heq⟩ :=
        @commitExecution_cases backend s now hqueue.confirmedNumber params
      rw [heq] at hqueue' ⊢
      refine h.of_numbers hqueue' hcurrent rfl h.peers fun lo hi hcontrol => ?_
      obtain ⟨hsmall, hprocessed, hle⟩ := h.appending _ _ hcontrol
      exact ⟨hsmall, hprocessed, hle⟩
  | reorder peers =>
      have hperm : peers.Perm s.sync.peers := henabled
      refine ⟨processed, h.of_numbers (hqueue.of_eq rfl rfl rfl) rfl rfl (fun number hnumber => ?_)
        fun lo hi hcontrol => ?_⟩
      · exact h.peers number ((hperm.map _).mem_iff.1 hnumber)
      · obtain ⟨hsmall, hprocessed, hle⟩ := h.appending _ _ hcontrol
        exact ⟨hsmall, hprocessed, hle⟩

theorem Ahead.of_opened (h : s.Opened backend) : s.Ahead s.current.confirmedNumber := by
  have hqueue := Queue.of_opened h
  obtain ⟨-, -, hidle, hsync⟩ := h
  have hnumbers : s.numbers = [] := by
    rw [numbers, window, hidle, hsync]
    rfl
  constructor
  case queue => exact hqueue
  case ahead => exact .inl hnumbers
  case appending =>
    intro lo hi hcontrol
    rw [hidle] at hcontrol
    cases hcontrol
  all_goals simp [hnumbers, hsync, ChainSync.peerNumbers, ChainSync.new]

/-- In a run in which no commit overtakes the pending blocks, each time the latency
is evaluated it is the number of blocks behind. -/
theorem latency_eq_of_paces (hopened : s₀.Opened backend)
    (hrun : ReflTransGen (Step backend consensusVerifyProof (Paces backend)) s₀ s) {event : Event}
    (henabled : s.Enabled event) (hevaluates : s.Evaluates event) :
    s.current.confirmedNumber ≤ s.sync.maxPending s.current.confirmedNumber ∧
      s.latency = s.sync.maxPending s.current.confirmedNumber - s.current.confirmedNumber := by
  have hahead : ∃ processed, s.Ahead processed := by
    clear henabled hevaluates
    induction hrun with
    | refl => exact ⟨_, .of_opened hopened⟩
    | tail hrun hstep ih =>
        obtain ⟨processed, h⟩ := ih
        obtain ⟨event, henabled, hpaces, rfl⟩ := hstep
        exact h.next henabled hpaces
  obtain ⟨processed, h⟩ := hahead
  have hinHand : s.control.inHand = [] := by
    cases event with
    | message => rw [henabled.1]; rfl
    | advance now =>
        have hreads : Control.ReadsLatency s.control := hevaluates
        cases hcontrol : s.control <;> rw [hcontrol] at hreads <;> first | rfl | cases hreads
    | _ => cases hevaluates
  have hwindow : s.numbers = s.sync.pendingBlocks.map Prod.fst := by
    rw [numbers, window, hinHand]
    rfl
  obtain ⟨-, hsorted, -, hsmall, hbehind, -, -⟩ := h
  rw [hwindow] at hsorted hsmall hbehind
  have hle := ChainSync.le_maxPending (List.pairwise_map.1 hsorted)
    (hbehind.imp List.map_eq_nil_iff.1 (by
      rintro ⟨number, hnumber, hle⟩
      obtain ⟨p, hp, rfl⟩ := List.mem_map.1 hnumber
      exact ⟨p, hp, hle⟩))
  exact ⟨hle, ChainSync.latency_eq_sub hle fun p hp => hsmall p.1 (List.mem_map_of_mem hp)⟩

end System

/-! A peer has one block, and the consensus engine commits two. -/

namespace Sample

open Chain.Sample

def overtakes : List Event := asked 1 ++ [.commitBlock 1 blockOne, .commitBlock 2 blockTwo]

end Sample

/-- When the message of block 1 arrives, the highest pending number is one behind
the confirmed one. -/
theorem not_latency_overtaken :
    ¬ ∀ (backend : Backend)
        (consensusVerifyProof : StateMap → Header → Proof → Except Consensus.ErrorKind Unit)
        (s₀ s : System) (event : Event), s₀.Opened backend →
      ReflTransGen (System.Step backend consensusVerifyProof fun _ _ => True) s₀ s →
        s.Enabled event → s.Evaluates event →
          s.current.confirmedNumber ≤ s.sync.maxPending s.current.confirmedNumber ∧
            s.latency = s.sync.maxPending s.current.confirmedNumber - s.current.confirmedNumber := by
  intro h
  have hruns : System.Runs Chain.Sample.backend Sample.proofs (fun _ _ => True) Sample.start
      Sample.overtakes := by
    decide +kernel
  have hmessages : (System.run Chain.Sample.backend Sample.proofs Sample.start
      Sample.overtakes).messages =
        [.blockCommitted 1 Chain.Sample.blockOne.blockHash,
          .blockCommitted 2 Chain.Sample.blockTwo.blockHash] := by
    decide +kernel
  have hle := (h _ _ _ _ .message Sample.opened_start hruns.reach (by decide +kernel)
    ⟨_, _, _, hmessages⟩).1
  exact absurd hle (by decide +kernel)

/-- The peer has two blocks, the consensus engine commits one, and the latency is
one. -/
theorem latency_commitsOne :
    (System.run Chain.Sample.backend Sample.proofs Sample.start
      (Sample.asked 2 ++ [.commitBlock 1 Chain.Sample.blockOne])).latency = 1 := by
  have hruns : System.Runs Chain.Sample.backend Sample.proofs
      (System.Paces Chain.Sample.backend) Sample.start
      (Sample.asked 2 ++ [.commitBlock 1 Chain.Sample.blockOne]) := by
    decide +kernel
  have hmessages : (System.run Chain.Sample.backend Sample.proofs Sample.start
      (Sample.asked 2 ++ [.commitBlock 1 Chain.Sample.blockOne])).messages =
        [.blockCommitted 1 Chain.Sample.blockOne.blockHash] := by
    decide +kernel
  have hlatency := (@System.latency_eq_of_paces _ _ _ _ Sample.opened_start hruns.reach .message
    (by decide +kernel) ⟨_, _, _, hmessages⟩).2
  exact hlatency.trans (by decide +kernel)

end Finastate.Sync
