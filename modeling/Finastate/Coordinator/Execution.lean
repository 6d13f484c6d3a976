import Finastate.Coordinator.Verifier
import Mathlib.Algebra.Order.Ring.Int

/-!
# The execution gap of a received block

`verify_execution` takes the gaps of the block and of the confirmed block from
their numbers. `verifyExecution?` is the same where a subtraction that wraps is
an error, and `GapVerified` says what the verification is for: it accepts the
gaps that are allowed, asks to wait when the execution is behind, and rejects
the rest.
-/

namespace Finastate

/-- The number is of type `u64` and the gap of type `i8`. -/
structure Header.Typed (header : Header) : Prop where
  number : header.number < 2 ^ 64
  gap : -2 ^ 7 ≤ header.payloadExecutionGap ∧ header.payloadExecutionGap < 2 ^ 7

/-- `u64` subtraction where an underflow is an error. -/
def checkedSub (a b : Nat) : Option Nat := if b ≤ a then some (a - b) else none

theorem checkedSub_eq_some_iff {a b c : Nat} : checkedSub a b = some c ↔ b ≤ a ∧ a - b = c := by
  simp [checkedSub]

namespace Coordinator

variable (support : CoordinatorSupport) (header confirmedHeader : Header)

/-- `verifyExecution` where a subtraction that wraps is an error. -/
def verifyExecution? : Option (Except ErrorKind Unit) :=
  if header.payloadExecutionGap < 1 then some (.error (.verifyError .invalidExecutionGap))
  else if support.currentState.maxExecutionGap < header.payloadExecutionGap then
    some (.error (.verifyError .invalidExecutionGap))
  else do
    let executionNumber ← checkedSub header.number (gapAsU64 header.payloadExecutionGap)
    let confirmedExecutionNumber ←
      checkedSub confirmedHeader.number (gapAsU64 confirmedHeader.payloadExecutionGap)
    if executionNumber < confirmedExecutionNumber then
      some (.error (.verifyError .invalidExecutionGap))
    else if support.currentState.executedNumber < executionNumber then
      some (.error (.verifyError .shouldWait))
    else some (.ok ())

/-- The gap is at least one and at most the allowed one. -/
def GapInRange : Prop :=
  1 ≤ header.payloadExecutionGap ∧
    header.payloadExecutionGap ≤ support.currentState.maxExecutionGap

/-- The block has executed a block of the chain, and none before the one that
the confirmed block has executed. -/
def GapValid : Prop :=
  GapInRange support header ∧ header.payloadExecutionGap ≤ header.number ∧
    (confirmedHeader.number - gapAsU64 confirmedHeader.payloadExecutionGap : ℤ) ≤
      header.number - header.payloadExecutionGap

/-- What is to be verified of the gap. -/
structure GapVerified : Prop where
  unwrapped : verifyExecution? support header confirmedHeader =
    some (verifyExecution support header confirmedHeader)
  ok_iff : verifyExecution support header confirmedHeader = .ok () ↔
    GapValid support header confirmedHeader ∧
      (header.number - header.payloadExecutionGap : ℤ) ≤ support.currentState.executedNumber
  wait_iff : verifyExecution support header confirmedHeader = .error (.verifyError .shouldWait) ↔
    GapValid support header confirmedHeader ∧
      (support.currentState.executedNumber : ℤ) < header.number - header.payloadExecutionGap
  rejected : verifyExecution support header confirmedHeader = .ok () ∨
    verifyExecution support header confirmedHeader = .error (.verifyError .shouldWait) ∨
    verifyExecution support header confirmedHeader = .error (.verifyError .invalidExecutionGap)

/-- Neither of the two subtractions wraps. -/
def Subtractable : Prop :=
  GapInRange support header →
    header.payloadExecutionGap ≤ header.number ∧
      gapAsU64 confirmedHeader.payloadExecutionGap ≤ confirmedHeader.number

variable {support header confirmedHeader}

/-- The sign of a gap in range is not extended. -/
theorem gapAsU64_of_inRange (hheader : header.Typed) (hrange : GapInRange support header) :
    (gapAsU64 header.payloadExecutionGap : ℤ) = header.payloadExecutionGap := by
  have hpos : 0 ≤ header.payloadExecutionGap := Int.le_of_lt hrange.1
  have hlt : header.payloadExecutionGap < 2 ^ 64 := hheader.gap.2.trans (by decide)
  rw [gapAsU64, Int.emod_eq_of_lt hpos hlt, Int.toNat_of_nonneg hpos]

/-- Out of range nothing is subtracted. -/
theorem verifyExecution_of_not_inRange (confirmedHeader : Header)
    (h : ¬ GapInRange support header) :
    verifyExecution support header confirmedHeader = .error (.verifyError .invalidExecutionGap) ∧
      verifyExecution? support header confirmedHeader =
        some (.error (.verifyError .invalidExecutionGap)) := by
  rw [verifyExecution, verifyExecution?]
  by_cases hlt : header.payloadExecutionGap < 1
  · rw [if_pos hlt, if_pos hlt]
    exact ⟨rfl, rfl⟩
  · have hgt : support.currentState.maxExecutionGap < header.payloadExecutionGap := by
      by_contra hle
      exact h ⟨not_lt.1 hlt, not_lt.1 hle⟩
    rw [if_neg hlt, if_neg hlt, if_pos hgt, if_pos hgt]
    exact ⟨rfl, rfl⟩

theorem verifyExecution?_of_inRange (h : GapInRange support header) :
    verifyExecution? support header confirmedHeader =
      (checkedSub header.number (gapAsU64 header.payloadExecutionGap)).bind fun e =>
        (checkedSub confirmedHeader.number
          (gapAsU64 confirmedHeader.payloadExecutionGap)).bind fun c =>
            if e < c then some (.error (.verifyError .invalidExecutionGap))
            else if support.currentState.executedNumber < e then
              some (.error (.verifyError .shouldWait))
            else some (.ok ()) := by
  rw [verifyExecution?, if_neg (not_lt.2 h.1), if_neg (not_lt.2 h.2)]
  rfl

/-- Without wrapping the two execution numbers are compared as integers. -/
theorem gapVerified_of_le (hheader : header.Typed) (hconfirmed : confirmedHeader.Typed)
    (hrange : GapInRange support header) (hle : header.payloadExecutionGap ≤ header.number)
    (hle' : gapAsU64 confirmedHeader.payloadExecutionGap ≤ confirmedHeader.number) :
    GapVerified support header confirmedHeader := by
  have hgap := gapAsU64_of_inRange hheader hrange
  have hleU64 : gapAsU64 header.payloadExecutionGap ≤ header.number :=
    Int.ofNat_le.1 (hgap.le.trans hle)
  have hverify : verifyExecution support header confirmedHeader =
      if header.number - gapAsU64 header.payloadExecutionGap <
          confirmedHeader.number - gapAsU64 confirmedHeader.payloadExecutionGap then
        .error (.verifyError .invalidExecutionGap)
      else if support.currentState.executedNumber <
          header.number - gapAsU64 header.payloadExecutionGap then
        .error (.verifyError .shouldWait)
      else .ok () := by
    rw [verifyExecution, if_neg (not_lt.2 hrange.1), if_neg (not_lt.2 hrange.2)]
    simp only [wrapSub_of_le hheader.number hleU64, wrapSub_of_le hconfirmed.number hle']
  have hnumber : (header.number - header.payloadExecutionGap : ℤ) =
      ((header.number - gapAsU64 header.payloadExecutionGap : ℕ) : ℤ) := by
    rw [Nat.cast_sub hleU64, hgap]
  have hvalid : GapValid support header confirmedHeader ↔
      ¬ header.number - gapAsU64 header.payloadExecutionGap <
        confirmedHeader.number - gapAsU64 confirmedHeader.payloadExecutionGap := by
    rw [GapValid, hnumber, ← Nat.cast_sub hle', Nat.cast_le, not_lt]
    exact ⟨fun hv => hv.2.2, fun hv => ⟨hrange, hle, hv⟩⟩
  constructor
  case unwrapped =>
    rw [verifyExecution?_of_inRange hrange, checkedSub_eq_some_iff.2 ⟨hleU64, rfl⟩,
      checkedSub_eq_some_iff.2 ⟨hle', rfl⟩, hverify]
    simp only [Option.bind_some]
    split
    · rfl
    · split <;> rfl
  case ok_iff =>
    rw [hverify, hvalid, hnumber, Nat.cast_le, ← not_lt]
    split
    · next hlt => simp [hlt]
    · next hlt =>
      split
      · next hwait => simp [hwait]
      · next hwait => simp [hlt, hwait]
  case wait_iff =>
    rw [hverify, hvalid, hnumber, Nat.cast_lt]
    split
    · next hlt => simp [hlt]
    · next hlt =>
      split
      · next hwait => simp [hlt, hwait]
      · next hwait => simp [hwait]
  case rejected =>
    rw [hverify]
    split
    · exact .inr (.inr rfl)
    · split
      · exact .inr (.inl rfl)
      · exact .inl rfl

theorem gapVerified_of_not_inRange (h : ¬ GapInRange support header) :
    GapVerified support header confirmedHeader := by
  obtain ⟨hverify, hverify?⟩ := verifyExecution_of_not_inRange confirmedHeader h
  have hinvalid : ¬ GapValid support header confirmedHeader := fun hvalid => h hvalid.1
  constructor
  case unwrapped => rw [hverify, hverify?]
  case ok_iff =>
    rw [hverify]
    exact iff_of_false nofun fun hvalid => hinvalid hvalid.1
  case wait_iff =>
    rw [hverify]
    exact iff_of_false nofun fun hvalid => hinvalid hvalid.1
  case rejected => exact .inr (.inr hverify)

/-- The gap of a block is verified exactly if no subtraction wraps. -/
theorem gapVerified_iff (hheader : header.Typed) (hconfirmed : confirmedHeader.Typed) :
    GapVerified support header confirmedHeader ↔
      Subtractable support header confirmedHeader := by
  constructor
  · intro h hrange
    have hgap := gapAsU64_of_inRange hheader hrange
    have hsome := h.unwrapped
    rw [verifyExecution?_of_inRange hrange] at hsome
    obtain ⟨e, he, hrest⟩ := Option.bind_eq_some_iff.1 hsome
    obtain ⟨c, hc, -⟩ := Option.bind_eq_some_iff.1 hrest
    refine ⟨?_, (checkedSub_eq_some_iff.1 hc).1⟩
    exact hgap.ge.trans (Int.ofNat_le.2 (checkedSub_eq_some_iff.1 he).1)
  · intro h
    by_cases hrange : GapInRange support header
    · exact gapVerified_of_le hheader hconfirmed hrange (h hrange).1 (h hrange).2
    · exact gapVerified_of_not_inRange hrange

/-! ## The first blocks of a chain -/

def headerAt (number : BlockNumber) (gap : ℤ) : Header where
  number := number
  timestamp := 0
  parentHash := ⟨[]⟩
  metaTxsRoot := ⟨[]⟩
  metaStateRoot := ⟨[]⟩
  metaReceiptsRoot := ⟨[]⟩
  payloadTxsRoot := ⟨[]⟩
  payloadExecutionGap := gap
  payloadExecutionStateRoot := ⟨[]⟩
  payloadExecutionReceiptsRoot := ⟨[]⟩

/-- A node that has confirmed and executed the genesis block. -/
def atGenesis : CoordinatorSupport where
  currentState :=
    { confirmedNumber := 0, confirmedBlockHash := ⟨[]⟩, executedNumber := 0, maxExecutionGap := 8 }
  getHeader := fun _ => some (headerAt 0 0)
  hashTransaction := fun _ => ⟨[]⟩
  validateTransaction := fun _ _ => .ok ()
  buildBlock := fun params => .error (.data (Chain.noNumber params.number))
  consensusVerifyProof := fun _ _ => .ok ()

theorem gapVerified_first : GapVerified atGenesis (headerAt 1 1) (headerAt 0 0) :=
  (gapVerified_iff ⟨by decide, by decide⟩ ⟨by decide, by decide⟩).2 fun _ => by decide

/-- The first block with a gap of two is taken for one that is to be executed
later. -/
theorem not_gapVerified_first :
    ¬ ∀ (support : CoordinatorSupport) (header confirmedHeader : Header), header.Typed →
      confirmedHeader.Typed → GapVerified support header confirmedHeader := by
  intro h
  have hverified := h atGenesis (headerAt 1 2) (headerAt 0 0) ⟨by decide, by decide⟩
    ⟨by decide, by decide⟩
  have hwait : verifyExecution atGenesis (headerAt 1 2) (headerAt 0 0) =
      .error (.verifyError .shouldWait) := by decide
  obtain ⟨hvalid, -⟩ := hverified.wait_iff.1 hwait
  exact absurd hvalid.2.1 (by decide)

end Coordinator

end Finastate
