import Finastate.Library.Result
import Finastate.Chain.Errors

/-!
# Verification of proposals

`verifier.rs` of the HotStuff crate and of the Raft crate: the checks that a
proposal received from a peer goes through before it is stored. The two files
differ in one check, since a proposal of Raft does not name its parent.
-/

namespace Finastate.Consensus

inductive VerifyError where
  | duplicated
  | notBest
  | invalidExecutionGap
  | shouldWait
  | invalidHeader (blockHash expected : Hash)
  | duplicatedTx (txHash : Hash)
  | invalidTx (e : Chain.ValidateTxError)
  deriving DecidableEq, Repr

/-- The errors behind `CommonError` that end a handler of an engine. -/
inductive HandlerError where
  | messageError (msg : String)
  | data (msg : String)
  | crypto (msg : String)
  | chain (e : Chain.ErrorKind)
  deriving DecidableEq, Repr

/-- A verify error, or another error that ends the handler. -/
inductive ProposalError where
  | verifyError (e : VerifyError)
  | other (e : HandlerError)
  deriving DecidableEq, Repr

/-- A proposal of an engine; one of Raft does not name its parent. -/
structure Proposal where
  parentHash : Option Hash
  blockHash : Hash
  number : BlockNumber
  timestamp : Nat
  metaTxs : List Transaction
  payloadTxs : List Transaction
  executionNumber : BlockNumber
  deriving DecidableEq, Repr

/-- The part of `ConsensusSupport` that the verifier reads. `P` are the commit
parameters of the chain. -/
structure VerifierSupport (P : Type) where
  confirmedNumber : BlockNumber
  confirmedBlockHash : Hash
  executedNumber : BlockNumber
  maxExecutionGap : Int
  getHeader : Hash → Option Header
  hashTransaction : Transaction → Hash
  validateTransaction : Hash → Transaction → Except Chain.ErrorKind Unit
  buildBlock : BuildBlockParams → Except Chain.ErrorKind P
  blockHash : P → Hash

namespace Verifier

variable {P : Type} (support : VerifierSupport P)

def verifyNotRepeat (blockHash : Hash) : Except ProposalError Unit :=
  if (support.getHeader blockHash).isSome then .error (.verifyError .duplicated) else .ok ()

/-- Returns the header of the confirmed block. -/
def verifyBest (number : BlockNumber) (parentHash : Option Hash) : Except ProposalError Header :=
  match support.getHeader support.confirmedBlockHash with
  | none => .error (.other (.data (Chain.missingHeader support.confirmedBlockHash)))
  | some confirmedHeader =>
      if number ≠ support.confirmedNumber + 1 then .error (.verifyError .notBest)
      else if parentHash.getD support.confirmedBlockHash ≠ support.confirmedBlockHash then
        .error (.verifyError .notBest)
      else .ok confirmedHeader

/-- The gap is the difference cut to an `i8`. -/
def verifyExecution (number executionNumber : BlockNumber) (confirmedHeader : Header) :
    Except ProposalError Unit :=
  let payloadExecutionGap := Int.bmod (wrapSub 64 number executionNumber) (2 ^ 8)
  if payloadExecutionGap < 1 then .error (.verifyError .invalidExecutionGap)
  else if support.maxExecutionGap < payloadExecutionGap then
    .error (.verifyError .invalidExecutionGap)
  else if executionNumber <
      wrapSub 64 confirmedHeader.number (gapAsU64 confirmedHeader.payloadExecutionGap) then
    .error (.verifyError .invalidExecutionGap)
  else if support.executedNumber < executionNumber then .error (.verifyError .shouldWait)
  else .ok ()

def verifyTransaction (txHash : Hash) (tx : Transaction) (set : List Hash) :
    Except ProposalError (List Hash) :=
  if txHash ∈ set then .error (.verifyError (.duplicatedTx txHash))
  else
    match support.validateTransaction txHash tx with
    | .ok () => .ok (txHash :: set)
    | .error (.validateTxError e) => .error (.verifyError (.invalidTx e))
    | .error e => .error (.other (.chain e))

/-- `get_verified_txs`, with the hashes already seen. -/
def getVerifiedTxs : List Transaction → List Hash → Except ProposalError (List FullTransaction)
  | [], _ => .ok []
  | tx :: txs, set => do
      let txHash := support.hashTransaction tx
      let set ← verifyTransaction support txHash tx set
      let rest ← getVerifiedTxs txs set
      return { tx, txHash } :: rest

def verifyBody (metaTxs payloadTxs : List Transaction) :
    Except ProposalError (List FullTransaction × List FullTransaction) := do
  let metaTxs ← getVerifiedTxs support metaTxs []
  let payloadTxs ← getVerifiedTxs support payloadTxs []
  return (metaTxs, payloadTxs)

def verifyHeader (blockHash : Hash) (params : BuildBlockParams) : Except ProposalError P :=
  match support.buildBlock params with
  | .error e => .error (.other (.chain e))
  | .ok commitBlockParams =>
      if support.blockHash commitBlockParams ≠ blockHash then
        .error (.verifyError (.invalidHeader blockHash (support.blockHash commitBlockParams)))
      else .ok commitBlockParams

/-- `verify_proposal`. -/
def verifyProposal (proposal : Proposal) : Except ProposalError P := do
  verifyNotRepeat support proposal.blockHash
  let confirmedHeader ← verifyBest support proposal.number proposal.parentHash
  verifyExecution support proposal.number proposal.executionNumber confirmedHeader
  let (metaTxs, payloadTxs) ← verifyBody support proposal.metaTxs proposal.payloadTxs
  verifyHeader support proposal.blockHash
    { number := proposal.number
      timestamp := proposal.timestamp
      metaTxs
      payloadTxs
      executionNumber := proposal.executionNumber }

variable {support} {number executionNumber : BlockNumber} {parentHash : Option Hash}
  {confirmedHeader : Header} {blockHash : Hash} {params : P}

theorem verifyNotRepeat_eq_ok_iff :
    verifyNotRepeat support blockHash = .ok () ↔ support.getHeader blockHash = none := by
  unfold verifyNotRepeat
  cases support.getHeader blockHash with
  | none => simp
  | some header => simp

theorem verifyBest_eq_ok_iff :
    verifyBest support number parentHash = .ok confirmedHeader ↔
      support.getHeader support.confirmedBlockHash = some confirmedHeader ∧
      number = support.confirmedNumber + 1 ∧
      parentHash.getD support.confirmedBlockHash = support.confirmedBlockHash := by
  unfold verifyBest
  cases support.getHeader support.confirmedBlockHash with
  | none => simp
  | some header =>
      by_cases hnumber : number = support.confirmedNumber + 1
      · by_cases hparent : parentHash.getD support.confirmedBlockHash = support.confirmedBlockHash
        · simp [hnumber, hparent]
        · simp [hnumber, hparent]
      · simp [hnumber]

theorem verifyExecution_eq_ok_iff :
    verifyExecution support number executionNumber confirmedHeader = .ok () ↔
      1 ≤ Int.bmod (wrapSub 64 number executionNumber) (2 ^ 8) ∧
      Int.bmod (wrapSub 64 number executionNumber) (2 ^ 8) ≤ support.maxExecutionGap ∧
      wrapSub 64 confirmedHeader.number (gapAsU64 confirmedHeader.payloadExecutionGap) ≤
        executionNumber ∧
      executionNumber ≤ support.executedNumber := by
  unfold verifyExecution
  simp only [← not_lt]
  split_ifs with hpos hmax hconfirmed hexecuted
  · exact iff_of_false nofun fun h => h.1 hpos
  · exact iff_of_false nofun fun h => h.2.1 hmax
  · exact iff_of_false nofun fun h => h.2.2.1 hconfirmed
  · exact iff_of_false nofun fun h => h.2.2.2 hexecuted
  · exact iff_of_true rfl ⟨hpos, hmax, hconfirmed, hexecuted⟩

theorem verifyHeader_eq_ok_iff {build : BuildBlockParams} :
    verifyHeader support blockHash build = .ok params ↔
      support.buildBlock build = .ok params ∧ support.blockHash params = blockHash := by
  unfold verifyHeader
  cases support.buildBlock build with
  | error e => simp
  | ok built =>
      by_cases hhash : support.blockHash built = blockHash
      · simp only [hhash, ne_eq, not_true_eq_false, if_false, Except.ok.injEq]
        exact ⟨fun h => ⟨h, h ▸ hhash⟩, And.left⟩
      · simp only [ne_eq, hhash, not_false_eq_true, if_true, reduceCtorEq, Except.ok.injEq,
          false_iff]
        rintro ⟨rfl, heq⟩
        exact hhash heq

/-! ## Two supports -/

section Congr

variable {Q : Type} {support' : VerifierSupport Q}

theorem verifyBest_congr (hnumber : support.confirmedNumber = support'.confirmedNumber)
    (hhash : support.confirmedBlockHash = support'.confirmedBlockHash)
    (hheader : support.getHeader support'.confirmedBlockHash =
      support'.getHeader support'.confirmedBlockHash) :
    verifyBest support number parentHash = verifyBest support' number parentHash := by
  simp only [verifyBest, hnumber, hhash, hheader]

/-- It does not matter how much more is executed. -/
theorem verifyExecution_congr (hmax : support.maxExecutionGap = support'.maxExecutionGap)
    (hexecuted : executionNumber ≤ support.executedNumber ↔
      executionNumber ≤ support'.executedNumber) :
    verifyExecution support number executionNumber confirmedHeader =
      verifyExecution support' number executionNumber confirmedHeader := by
  have hlt : support.executedNumber < executionNumber ↔
      support'.executedNumber < executionNumber := by
    rw [← not_le, hexecuted, not_le]
  unfold verifyExecution
  generalize Int.bmod (wrapSub 64 number executionNumber) (2 ^ 8) = gap
  generalize wrapSub 64 confirmedHeader.number _ = confirmedExecutionNumber
  simp only [hmax, hlt]

theorem getVerifiedTxs_congr (hhash : support.hashTransaction = support'.hashTransaction)
    (hvalidate : support.validateTransaction = support'.validateTransaction)
    (txs : List Transaction) (set : List Hash) :
    getVerifiedTxs support txs set = getVerifiedTxs support' txs set := by
  induction txs generalizing set with
  | nil => rfl
  | cons tx txs ih => simp only [getVerifiedTxs, verifyTransaction, hhash, hvalidate, ih]

theorem verifyBody_congr (hhash : support.hashTransaction = support'.hashTransaction)
    (hvalidate : support.validateTransaction = support'.validateTransaction)
    (metaTxs payloadTxs : List Transaction) :
    verifyBody support metaTxs payloadTxs = verifyBody support' metaTxs payloadTxs := by
  simp only [verifyBody, getVerifiedTxs_congr hhash hvalidate]

/-- Two supports of one node, which differ in what they return of a built block. -/
structure Maps (f : P → Q) (support : VerifierSupport P) (support' : VerifierSupport Q) :
    Prop where
  confirmedNumber : support.confirmedNumber = support'.confirmedNumber
  confirmedBlockHash : support.confirmedBlockHash = support'.confirmedBlockHash
  executedNumber : support.executedNumber = support'.executedNumber
  maxExecutionGap : support.maxExecutionGap = support'.maxExecutionGap
  getHeader : ∀ blockHash, support.getHeader blockHash = support'.getHeader blockHash
  hashTransaction : support.hashTransaction = support'.hashTransaction
  validateTransaction : support.validateTransaction = support'.validateTransaction
  buildBlock : ∀ build : BuildBlockParams, build.number = support.confirmedNumber + 1 →
    (support.buildBlock build).map f = support'.buildBlock build
  blockHash : ∀ params, support'.blockHash (f params) = support.blockHash params

variable {f : P → Q}

theorem Maps.verifyHeader (h : Maps f support support') {build : BuildBlockParams}
    (hnumber : build.number = support.confirmedNumber + 1) :
    (verifyHeader support blockHash build).map f = verifyHeader support' blockHash build := by
  rw [Verifier.verifyHeader, Verifier.verifyHeader, ← h.buildBlock build hnumber]
  cases support.buildBlock build with
  | error e => rfl
  | ok built =>
      by_cases hhash : support.blockHash built = blockHash
      · simp [Except.map, h.blockHash, hhash]
      · simp [Except.map, h.blockHash, hhash]

/-- Both accept the same proposals, with the same block, and refuse the others with the same
error. -/
theorem Maps.verifyProposal (h : Maps f support support') (proposal : Proposal) :
    (verifyProposal support proposal).map f = verifyProposal support' proposal := by
  have hrepeat : verifyNotRepeat support proposal.blockHash =
      verifyNotRepeat support' proposal.blockHash := by
    rw [verifyNotRepeat, verifyNotRepeat, h.getHeader]
  simp only [Verifier.verifyProposal, bind, Result.map_bind, hrepeat,
    verifyBody_congr h.hashTransaction h.validateTransaction,
    ← verifyBest_congr h.confirmedNumber h.confirmedBlockHash (h.getHeader _)]
  refine Result.bind_congr fun _ _ => Result.bind_congr fun confirmedHeader hbest => ?_
  obtain ⟨-, hnumber, -⟩ := verifyBest_eq_ok_iff.1 hbest
  rw [verifyExecution_congr h.maxExecutionGap (by rw [h.executedNumber])]
  refine Result.bind_congr fun _ _ => Result.bind_congr fun txs _ => ?_
  exact h.verifyHeader hnumber

end Congr

end Verifier

end Finastate.Consensus
