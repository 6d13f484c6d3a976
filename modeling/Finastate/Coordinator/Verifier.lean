import Finastate.Library.Result
import Finastate.Chain.Errors
import Finastate.Consensus.Basic

/-!
# Verification of received blocks

`Verifier::verify_block` of the coordinator: the checks a block received from
a peer goes through before it is committed. The chain, the transaction
validation and the consensus engine are reached through `CoordinatorSupport`.
-/

namespace Finastate.Coordinator

structure BodyData where
  metaTxs : List Transaction
  payloadTxs : List Transaction
  deriving DecidableEq, Repr

structure BlockData where
  number : BlockNumber
  blockHash : Hash
  header : Option Header
  body : Option BodyData
  proof : Option Proof
  deriving DecidableEq, Repr

/-- The part of `CurrentState` that the verifier reads. -/
structure CurrentState where
  confirmedNumber : BlockNumber
  confirmedBlockHash : Hash
  executedNumber : BlockNumber
  maxExecutionGap : Int
  deriving DecidableEq, Repr

structure CoordinatorSupport where
  currentState : CurrentState
  getHeader : Hash → Option Header
  hashTransaction : Transaction → Hash
  validateTransaction : Hash → Transaction → Except Chain.ErrorKind Unit
  buildBlock : BuildBlockParams → Except Chain.ErrorKind CommitBlockParams
  consensusVerifyProof : Header → Proof → Except Consensus.ErrorKind Unit

/-- `VerifyError`; an invalid header keeps both headers that its message
prints. -/
inductive VerifyError where
  | duplicated
  | notBest
  | bad
  | invalidExecutionGap
  | shouldWait
  | invalidHeader (header expected : Header)
  | duplicatedTx (txHash : Hash)
  | invalidTx (e : Chain.ValidateTxError)
  | invalidProof (msg : String)
  deriving DecidableEq, Repr

/-- `ErrorKind` of the coordinator, and the errors of the chain and of the engine
that pass through it. -/
inductive ErrorKind where
  | verifyError (e : VerifyError)
  | data (msg : String)
  | chain (e : Chain.ErrorKind)
  | consensus (e : Consensus.ErrorKind)
  deriving DecidableEq, Repr

def verifyData (blockData : BlockData) : Except ErrorKind (Header × BodyData × Proof) :=
  match blockData.header, blockData.body, blockData.proof with
  | some header, some body, some proof => .ok (header, body, proof)
  | _, _, _ => .error (.verifyError .bad)

def verifyNotRepeat (support : CoordinatorSupport) (blockHash : Hash) :
    Except ErrorKind Unit :=
  if (support.getHeader blockHash).isSome then .error (.verifyError .duplicated)
  else .ok ()

/-- Returns the header of the confirmed block. -/
def verifyBest (support : CoordinatorSupport) (header : Header) :
    Except ErrorKind Header :=
  match support.getHeader support.currentState.confirmedBlockHash with
  | none => .error (.data (Chain.missingHeader support.currentState.confirmedBlockHash))
  | some confirmedHeader =>
      if header.number = support.currentState.confirmedNumber + 1 ∧
          header.parentHash = support.currentState.confirmedBlockHash then
        .ok confirmedHeader
      else .error (.verifyError .notBest)

def verifyExecution (support : CoordinatorSupport) (header confirmedHeader : Header) :
    Except ErrorKind Unit :=
  if header.payloadExecutionGap < 1 then .error (.verifyError .invalidExecutionGap)
  else if support.currentState.maxExecutionGap < header.payloadExecutionGap then
    .error (.verifyError .invalidExecutionGap)
  else
    let executionNumber := wrapSub 64 header.number (gapAsU64 header.payloadExecutionGap)
    let confirmedExecutionNumber :=
      wrapSub 64 confirmedHeader.number (gapAsU64 confirmedHeader.payloadExecutionGap)
    if executionNumber < confirmedExecutionNumber then
      .error (.verifyError .invalidExecutionGap)
    else if support.currentState.executedNumber < executionNumber then
      .error (.verifyError .shouldWait)
    else .ok ()

def verifyProof (support : CoordinatorSupport) (header : Header) (proof : Proof) :
    Except ErrorKind Unit :=
  match support.consensusVerifyProof header proof with
  | .ok () => .ok ()
  | .error (.verifyProofError e) => .error (.verifyError (.invalidProof e))
  | .error e => .error (.consensus e)

def verifyTransaction (support : CoordinatorSupport) (txHash : Hash) (tx : Transaction)
    (set : List Hash) : Except ErrorKind (List Hash) :=
  if txHash ∈ set then .error (.verifyError (.duplicatedTx txHash))
  else
    match support.validateTransaction txHash tx with
    | .ok () => .ok (txHash :: set)
    | .error (.validateTxError e) => .error (.verifyError (.invalidTx e))
    | .error e => .error (.chain e)

/-- `get_verified_txs`; `set` holds the hashes seen so far in this list. -/
def getVerifiedTxs (support : CoordinatorSupport) :
    List Transaction → List Hash → Except ErrorKind (List FullTransaction)
  | [], _ => .ok []
  | tx :: txs, set => do
      let txHash := support.hashTransaction tx
      let set ← verifyTransaction support txHash tx set
      let rest ← getVerifiedTxs support txs set
      return { tx, txHash } :: rest

def verifyBody (support : CoordinatorSupport) (body : BodyData) :
    Except ErrorKind (List FullTransaction × List FullTransaction) := do
  let metaTxs ← getVerifiedTxs support body.metaTxs []
  let payloadTxs ← getVerifiedTxs support body.payloadTxs []
  return (metaTxs, payloadTxs)

def verifyHeader (support : CoordinatorSupport) (header : Header) (proof : Proof)
    (metaTxs payloadTxs : List FullTransaction) : Except ErrorKind CommitBlockParams :=
  let executionNumber := wrapSub 64 header.number (gapAsU64 header.payloadExecutionGap)
  let buildBlockParams : BuildBlockParams :=
    { number := header.number, timestamp := header.timestamp, metaTxs, payloadTxs,
      executionNumber }
  match support.buildBlock buildBlockParams with
  | .error e => .error (.chain e)
  | .ok commitBlockParams =>
      if commitBlockParams.header ≠ header then
        .error (.verifyError (.invalidHeader header commitBlockParams.header))
      else .ok { commitBlockParams with proof }

/-- `Verifier::verify_block`. -/
def verifyBlock (support : CoordinatorSupport) (blockData : BlockData) :
    Except ErrorKind CommitBlockParams := do
  let (header, body, proof) ← verifyData blockData
  verifyNotRepeat support blockData.blockHash
  let confirmedHeader ← verifyBest support header
  verifyExecution support header confirmedHeader
  verifyProof support header proof
  let (metaTxs, payloadTxs) ← verifyBody support body
  verifyHeader support header proof metaTxs payloadTxs

theorem verifyProof_eq_ok_iff (support : CoordinatorSupport) (header : Header)
    (proof : Proof) :
    verifyProof support header proof = .ok () ↔
      support.consensusVerifyProof header proof = .ok () := by
  unfold verifyProof
  cases support.consensusVerifyProof header proof with
  | ok u => simp
  | error e => cases e <;> simp

theorem verifyHeader_eq_ok {support : CoordinatorSupport} {header : Header}
    {proof : Proof} {metaTxs payloadTxs : List FullTransaction}
    {params : CommitBlockParams}
    (h : verifyHeader support header proof metaTxs payloadTxs = .ok params) :
    params.header = header ∧ params.proof = proof := by
  simp only [verifyHeader] at h
  split at h
  · cases h
  · split at h
    · cases h
    · next hheader =>
        cases h
        exact ⟨not_not.1 hheader, rfl⟩

/-- A block that passes names a header and a proof that the consensus engine
accepts, and both are what is committed. -/
theorem verifyBlock_eq_ok {support : CoordinatorSupport} {blockData : BlockData}
    {params : CommitBlockParams} (h : verifyBlock support blockData = .ok params) :
    blockData.header = some params.header ∧ blockData.proof = some params.proof ∧
      support.consensusVerifyProof params.header params.proof = .ok () := by
  obtain ⟨⟨header, body, proof⟩, hdata, h⟩ := Result.bind_eq_ok.1 h
  obtain ⟨-, -, h⟩ := Result.bind_eq_ok.1 h
  obtain ⟨confirmedHeader, -, h⟩ := Result.bind_eq_ok.1 h
  obtain ⟨-, -, h⟩ := Result.bind_eq_ok.1 h
  obtain ⟨⟨⟩, hproof, h⟩ := Result.bind_eq_ok.1 h
  obtain ⟨⟨metaTxs, payloadTxs⟩, -, h⟩ := Result.bind_eq_ok.1 h
  obtain ⟨rfl, rfl⟩ := verifyHeader_eq_ok h
  refine ⟨?_, ?_, (verifyProof_eq_ok_iff _ _ _).1 hproof⟩
  all_goals
    unfold verifyData at hdata
    split at hdata
    · cases hdata
      assumption
    · cases hdata

end Finastate.Coordinator
