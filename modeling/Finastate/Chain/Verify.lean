import Finastate.Chain.Genesis
import Finastate.Consensus.Verifier
import Finastate.Coordinator.Verifier

/-!
# Verification over the backend

`verify_block` of the coordinator and `verify_proposal` of the consensus
engines, with the backend of a node behind them. Both end in `build_block`, and
`Accepted` is what they have in common: where the block stands, that its
transactions were validated, and that the parameters come from `build_block`.
-/

namespace Finastate.Chain

open Executor

namespace Backend

variable (backend : Backend) (consensusVerifyProof : Header → Proof → Except Consensus.ErrorKind Unit)
  (db : DB) (state : CurrentState)

/-- What the coordinator sees of a node. -/
def coordinatorSupport : Coordinator.CoordinatorSupport where
  currentState :=
    { confirmedNumber := state.confirmedNumber
      confirmedBlockHash := state.confirmedBlockHash
      executedNumber := state.executedNumber
      maxExecutionGap := state.systemMeta.maxExecutionGap }
  getHeader := db.getHeader
  hashTransaction := backend.hashTransaction
  validateTransaction := fun txHash tx => backend.validateTransaction db state txHash tx true
  buildBlock := fun params =>
    (backend.buildBlock db params).map ChainCommitBlockParams.toCommitBlockParams
  consensusVerifyProof := consensusVerifyProof

/-- `verify_header` of the coordinator. -/
def verifyHeader (header : Header) (proof : Proof) (metaTxs payloadTxs : List FullTransaction) :
    Except Coordinator.ErrorKind ChainCommitBlockParams :=
  let executionNumber :=
    wrapSub 64 header.number (gapAsU64 header.payloadExecutionGap)
  let buildBlockParams : BuildBlockParams :=
    { number := header.number, timestamp := header.timestamp, metaTxs, payloadTxs,
      executionNumber }
  match backend.buildBlock db buildBlockParams with
  | .error e => .error (.chain e)
  | .ok commitBlockParams =>
      if commitBlockParams.header ≠ header then
        .error (.verifyError (.invalidHeader header commitBlockParams.header))
      else .ok { commitBlockParams with proof }

/-- `verify_block`, up to the database transaction of what it returns. -/
def verifyBlock (blockData : Coordinator.BlockData) :
    Except Coordinator.ErrorKind ChainCommitBlockParams := do
  let support := backend.coordinatorSupport consensusVerifyProof db state
  let (header, body, proof) ← Coordinator.verifyData blockData
  Coordinator.verifyNotRepeat support blockData.blockHash
  let confirmedHeader ← Coordinator.verifyBest support header
  Coordinator.verifyExecution support header confirmedHeader
  Coordinator.verifyProof support header proof
  let (metaTxs, payloadTxs) ← Coordinator.verifyBody support body
  backend.verifyHeader db header proof metaTxs payloadTxs

theorem verifyHeader_map (header : Header) (proof : Proof)
    (metaTxs payloadTxs : List FullTransaction) :
    (backend.verifyHeader db header proof metaTxs payloadTxs).map
        ChainCommitBlockParams.toCommitBlockParams =
      Coordinator.verifyHeader (backend.coordinatorSupport consensusVerifyProof db state) header
        proof metaTxs payloadTxs := by
  simp only [verifyHeader, Coordinator.verifyHeader, coordinatorSupport]
  cases backend.buildBlock db _ with
  | error e => rfl
  | ok built =>
      by_cases hheader : built.header = header
      · simp [hheader, Except.map]
      · simp [hheader, Except.map]

/-- What the coordinator verifies over its support is this verification. -/
theorem verifyBlock_map (blockData : Coordinator.BlockData) :
    (backend.verifyBlock consensusVerifyProof db state blockData).map
        ChainCommitBlockParams.toCommitBlockParams =
      Coordinator.verifyBlock (backend.coordinatorSupport consensusVerifyProof db state)
        blockData := by
  simp only [verifyBlock, Coordinator.verifyBlock, bind, Result.map_bind,
    verifyHeader_map backend consensusVerifyProof db state]

end Backend

namespace Backend

open Consensus (Proposal ProposalError VerifierSupport)

variable (backend : Backend) (db : DB) (state : CurrentState)

/-- What the verifier of an engine sees of a node. -/
def verifierSupport : VerifierSupport ChainCommitBlockParams where
  confirmedNumber := state.confirmedNumber
  confirmedBlockHash := state.confirmedBlockHash
  executedNumber := state.executedNumber
  maxExecutionGap := state.systemMeta.maxExecutionGap
  getHeader := db.getHeader
  hashTransaction := backend.hashTransaction
  validateTransaction := fun txHash tx => backend.validateTransaction db state txHash tx true
  buildBlock := backend.buildBlock db
  blockHash := fun params => params.blockHash

/-- `verify_proposal` of HotStuff and of Raft. -/
def verifyProposal (proposal : Consensus.Proposal) : Except ProposalError ChainCommitBlockParams :=
  Consensus.Verifier.verifyProposal (backend.verifierSupport db state) proposal

end Backend

/-! ## What acceptance means -/

namespace Backend

variable (backend : Backend) {consensusVerifyProof : Header → Proof → Except Consensus.ErrorKind Unit}
  {db : DB} {state : CurrentState}

def fullTx (tx : Transaction) : FullTransaction := { tx, txHash := backend.hashTransaction tx }

theorem map_txHash_fullTx (txs : List Transaction) :
    (txs.map backend.fullTx).map FullTransaction.txHash = txs.map backend.hashTransaction := by
  simp [fullTx]

/-- The transactions of a list are valid, and none has the hash of another one
or one of `set`. -/
structure Verified (db : DB) (state : CurrentState) (txs : List Transaction) (set : List Hash)
    (verified : List FullTransaction) : Prop where
  eq : verified = txs.map backend.fullTx
  valid : ∀ tx ∈ txs,
    backend.validateTransaction db state (backend.hashTransaction tx) tx true = .ok ()
  fresh : ∀ tx ∈ txs, backend.hashTransaction tx ∉ set
  nodup : (txs.map backend.hashTransaction).Nodup

variable {backend}

theorem Verified.nil (set : List Hash) : backend.Verified db state [] set [] :=
  ⟨rfl, nofun, nofun, List.nodup_nil⟩

theorem Verified.cons {tx : Transaction} {txs : List Transaction} {set : List Hash}
    {verified : List FullTransaction} (hset : backend.hashTransaction tx ∉ set)
    (hvalid : backend.validateTransaction db state (backend.hashTransaction tx) tx true = .ok ())
    (h : backend.Verified db state txs (backend.hashTransaction tx :: set) verified) :
    backend.Verified db state (tx :: txs) set (backend.fullTx tx :: verified) := by
  have hfresh : ∀ tx' ∈ txs, backend.hashTransaction tx' ≠ backend.hashTransaction tx ∧
      backend.hashTransaction tx' ∉ set := fun tx' htx' => by
    have hnot := h.fresh tx' htx'
    rw [List.mem_cons, not_or] at hnot
    exact hnot
  constructor
  · rw [List.map_cons, h.eq]
  · intro tx' htx'
    rcases List.mem_cons.1 htx' with rfl | htx'
    · exact hvalid
    · exact h.valid tx' htx'
  · intro tx' htx'
    rcases List.mem_cons.1 htx' with rfl | htx'
    · exact hset
    · exact (hfresh tx' htx').2
  · rw [List.map_cons, List.nodup_cons]
    refine ⟨fun hmem => ?_, h.nodup⟩
    obtain ⟨tx', htx', heq⟩ := List.mem_map.1 hmem
    exact (hfresh tx' htx').1 heq

theorem verified_of_getVerifiedTxs {txs : List Transaction} {set : List Hash}
    {verified : List FullTransaction}
    (h : Coordinator.getVerifiedTxs (backend.coordinatorSupport consensusVerifyProof db state)
      txs set = .ok verified) : backend.Verified db state txs set verified := by
  induction txs generalizing set verified with
  | nil =>
      cases h
      exact .nil set
  | cons tx txs ih =>
      obtain ⟨set', hset', h⟩ := Result.bind_eq_ok.1 h
      obtain ⟨rest, hrest, h⟩ := Result.bind_eq_ok.1 h
      cases h
      unfold Coordinator.verifyTransaction at hset'
      split at hset'
      · cases hset'
      · next hnot =>
        split at hset'
        · next hvalid =>
          cases hset'
          exact .cons hnot hvalid (ih hrest)
        · cases hset'
        · cases hset'

theorem verified_of_proposalTxs {txs : List Transaction} {set : List Hash}
    {verified : List FullTransaction}
    (h : Consensus.Verifier.getVerifiedTxs (backend.verifierSupport db state) txs set =
      .ok verified) :
    backend.Verified db state txs set verified := by
  induction txs generalizing set verified with
  | nil =>
      cases h
      exact .nil set
  | cons tx txs ih =>
      obtain ⟨set', hset', h⟩ := Result.bind_eq_ok.1 h
      obtain ⟨rest, hrest, h⟩ := Result.bind_eq_ok.1 h
      cases h
      unfold Consensus.Verifier.verifyTransaction at hset'
      split at hset'
      · cases hset'
      · next hnot =>
        split at hset'
        · next hvalid =>
          cases hset'
          exact .cons hnot hvalid (ih hrest)
        · cases hset'
        · cases hset'

/-- What acceptance by `verify_block` or `verify_proposal` says of the commit
parameters. -/
structure Accepted (backend : Backend) (db : DB) (state : CurrentState)
    (metaTxs payloadTxs : List Transaction) (params : ChainCommitBlockParams) : Prop where
  verifiedMeta : backend.Verified db state metaTxs [] (metaTxs.map backend.fullTx)
  verifiedPayload : backend.Verified db state payloadTxs [] (payloadTxs.map backend.fullTx)
  built : ∃ buildBlockParams built,
    backend.buildBlock db buildBlockParams = .ok built ∧
      buildBlockParams.number = state.confirmedNumber + 1 ∧
      buildBlockParams.metaTxs = metaTxs.map backend.fullTx ∧
      buildBlockParams.payloadTxs = payloadTxs.map backend.fullTx ∧
      params = { built with proof := params.proof }

theorem accepted_of_verifyBlock {blockData : Coordinator.BlockData} {body : Coordinator.BodyData}
    {params : ChainCommitBlockParams} (hbody : blockData.body = some body)
    (h : backend.verifyBlock consensusVerifyProof db state blockData = .ok params) :
    backend.Accepted db state body.metaTxs body.payloadTxs params := by
  obtain ⟨⟨header, body', proof⟩, hdata, h⟩ := Result.bind_eq_ok.1 h
  obtain ⟨-, -, h⟩ := Result.bind_eq_ok.1 h
  obtain ⟨confirmedHeader, hbest, h⟩ := Result.bind_eq_ok.1 h
  obtain ⟨-, -, h⟩ := Result.bind_eq_ok.1 h
  obtain ⟨-, -, h⟩ := Result.bind_eq_ok.1 h
  obtain ⟨⟨metaTxs, payloadTxs⟩, hverified, h⟩ := Result.bind_eq_ok.1 h
  obtain rfl : body' = body := by
    unfold Coordinator.verifyData at hdata
    split at hdata
    · next hbody' _ =>
      cases hdata
      exact Option.some.inj (hbody'.symm.trans hbody)
    · cases hdata
  obtain ⟨metaTxs', hmeta, hverified⟩ := Result.bind_eq_ok.1 hverified
  obtain ⟨payloadTxs', hpayload, hverified⟩ := Result.bind_eq_ok.1 hverified
  cases hverified
  have hmeta := verified_of_getVerifiedTxs hmeta
  have hpayload := verified_of_getVerifiedTxs hpayload
  obtain rfl := hmeta.eq
  obtain rfl := hpayload.eq
  have hnumber : header.number = state.confirmedNumber + 1 := by
    unfold Coordinator.verifyBest at hbest
    split at hbest
    · cases hbest
    · split at hbest
      · next hplace => exact hplace.1
      · cases hbest
  simp only [verifyHeader] at h
  split at h
  · cases h
  · next built hbuilt =>
    split at h
    · cases h
    · cases h
      exact ⟨hmeta, hpayload, _, _, hbuilt, hnumber, rfl, rfl, rfl⟩

theorem accepted_of_verifyProposal {proposal : Consensus.Proposal} {params : ChainCommitBlockParams}
    (h : backend.verifyProposal db state proposal = .ok params) :
    backend.Accepted db state proposal.metaTxs proposal.payloadTxs params := by
  obtain ⟨-, -, h⟩ := Result.bind_eq_ok.1 h
  obtain ⟨confirmedHeader, hbest, h⟩ := Result.bind_eq_ok.1 h
  obtain ⟨-, -, h⟩ := Result.bind_eq_ok.1 h
  obtain ⟨⟨metaTxs, payloadTxs⟩, hverified, h⟩ := Result.bind_eq_ok.1 h
  obtain ⟨metaTxs', hmeta, hverified⟩ := Result.bind_eq_ok.1 hverified
  obtain ⟨payloadTxs', hpayload, hverified⟩ := Result.bind_eq_ok.1 hverified
  cases hverified
  have hmeta := verified_of_proposalTxs hmeta
  have hpayload := verified_of_proposalTxs hpayload
  obtain rfl := hmeta.eq
  obtain rfl := hpayload.eq
  obtain ⟨-, hnumber, -⟩ := Consensus.Verifier.verifyBest_eq_ok_iff.1 hbest
  obtain ⟨hbuilt, -⟩ := Consensus.Verifier.verifyHeader_eq_ok_iff.1 h
  exact ⟨hmeta, hpayload, _, _, hbuilt, hnumber, rfl, rfl, rfl⟩

end Backend

/-! Block 1 of the small chain, as its producer sends it to the other nodes. -/

namespace Sample

def built (metaTxs payloadTxs : List Transaction) : Except ErrorKind ChainCommitBlockParams :=
  backend.buildBlock genesis
    { number := 1
      timestamp := 1
      metaTxs := metaTxs.map backend.fullTx
      payloadTxs := payloadTxs.map backend.fullTx
      executionNumber := 0 }

def sent (metaTxs payloadTxs : List Transaction) : Coordinator.BlockData where
  number := 1
  blockHash := ((built metaTxs payloadTxs).toOption.map (·.blockHash)).getD ⟨[]⟩
  header := (built metaTxs payloadTxs).toOption.map (·.header)
  body := some { metaTxs, payloadTxs }
  proof := some { name := "", data := [] }

/-- The consensus engine accepts every proof. -/
def received (metaTxs payloadTxs : List Transaction) :
    Except Coordinator.ErrorKind ChainCommitBlockParams :=
  backend.verifyBlock (fun _ _ => .ok ()) genesis state (sent metaTxs payloadTxs)

/-- The system transaction of a user. -/
def signedTx : Transaction := { entryTx "init" 0 0 with call := systemTx.call }

end Sample

end Finastate.Chain
