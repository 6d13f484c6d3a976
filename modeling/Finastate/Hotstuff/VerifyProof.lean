import Finastate.Hotstuff.Certificate
import Finastate.Coordinator.Verifier

/-!
# HotStuff block proofs

`HotStuff::verify_proof` decodes the commit certificate out of a proof and
hands it to `verifyQc`, with the authorities in force at the parent of the
block and without an expected message type. `ProofBinds` says what a proof of a
header has to be; `verifyProof_binds_iff` gives the exact inputs on which
acceptance implies it.
-/

namespace Finastate.Hotstuff

/-- `get_hotstuff_authorities`, over the call of the module at a block. -/
def getHotstuffAuthorities
    (getAuthorities : BlockNumber → Except Consensus.ErrorKind Authorities)
    (number : BlockNumber) : Except Consensus.ErrorKind Authorities :=
  (getAuthorities number).map aggregateAuthorities

/-- `HotStuff::verify_proof`. -/
def verifyProof (basic : Basic SigMessage)
    (getAuthorities : BlockNumber → Except Consensus.ErrorKind Authorities)
    (header : Header) (proof : Proof) : Except Consensus.ErrorKind Unit :=
  if proof.name ≠ CONSENSUS_HOTSTUFF then
    .error (.verifyProofError ("Unexpected consensus: " ++ proof.name))
  else
    match HotStuffProof.decode proof.data with
    | none => .error (.verifyProofError "Decode error")
    | some hotStuffProof =>
        match getHotstuffAuthorities getAuthorities (wrapSub 64 header.number 1) with
        | .error e => .error e
        | .ok authorities =>
            match verifyQc basic hotStuffProof.commitQc none authorities with
            | .error e =>
                .error (.verifyProofError
                  ("Verify commit qc error: Consensus Error: " ++ e.toString))
            | .ok () => .ok ()

/-- The node a commit certificate of the header has to name. -/
def headerNode (basic : Basic SigMessage) (header : Header) : Node where
  parentHash := header.parentHash
  blockHash := basic.hash header

/-- The proof holds a commit certificate for this very header, signed by
members of quorum weight of the authorities in force at its parent. -/
def ProofBinds (basic : Basic SigMessage)
    (getAuthorities : BlockNumber → Except Consensus.ErrorKind Authorities)
    (header : Header) (proof : Proof) : Prop :=
  ∃ hotStuffProof authorities,
    HotStuffProof.decode proof.data = some hotStuffProof ∧
    getHotstuffAuthorities getAuthorities (wrapSub 64 header.number 1) =
      .ok authorities ∧
    hotStuffProof.commitQc.messageType = .commit ∧
    hotStuffProof.commitQc.node = headerNode basic header ∧
    QuorumSigned basic authorities hotStuffProof.commitQc.sigMessage
      hotStuffProof.commitQc.sig

/-- A certificate that gets through, because its view is `0` or its signatures
pass with repetitions counted, is a commit certificate of the header and the
members that signed reach the quorum when each is counted once. -/
def CertificatesBound (basic : Basic SigMessage)
    (getAuthorities : BlockNumber → Except Consensus.ErrorKind Authorities)
    (header : Header) (proof : Proof) : Prop :=
  proof.name = CONSENSUS_HOTSTUFF → ∀ hotStuffProof authorities,
    HotStuffProof.decode proof.data = some hotStuffProof →
    getHotstuffAuthorities getAuthorities (wrapSub 64 header.number 1) =
      .ok authorities →
    (hotStuffProof.commitQc.view = 0 ∨
      verifySigs basic authorities hotStuffProof.commitQc.sigMessage
        hotStuffProof.commitQc.sig = .ok ()) →
    hotStuffProof.commitQc.messageType = .commit ∧
      hotStuffProof.commitQc.node = headerNode basic header ∧
      authorities.exactQuorum ≤ signedWeight basic authorities
        hotStuffProof.commitQc.sigMessage hotStuffProof.commitQc.sig

theorem nodup_getHotstuffAuthorities
    {getAuthorities : BlockNumber → Except Consensus.ErrorKind Authorities}
    {number : BlockNumber} {authorities : Authorities}
    (h : getHotstuffAuthorities getAuthorities number = .ok authorities) :
    (authorities.members.map Prod.fst).Nodup := by
  unfold getHotstuffAuthorities at h
  cases hcall : getAuthorities number with
  | error e =>
      rw [hcall] at h
      cases h
  | ok raw =>
      rw [hcall] at h
      cases h
      exact nodup_aggregateAuthorities raw

theorem verifyQc_none_eq_ok_iff (basic : Basic SigMessage) (qc : QC)
    (authorities : Authorities) :
    verifyQc basic qc none authorities = .ok () ↔
      qc.view = 0 ∨ verifySigs basic authorities qc.sigMessage qc.sig = .ok () := by
  by_cases hview : qc.view = 0
  · simp [verifyQc, hview]
  · simp [verifyQc, hview]

theorem verifyProof_eq_ok_iff (basic : Basic SigMessage)
    (getAuthorities : BlockNumber → Except Consensus.ErrorKind Authorities)
    (header : Header) (proof : Proof) :
    verifyProof basic getAuthorities header proof = .ok () ↔
      proof.name = CONSENSUS_HOTSTUFF ∧ ∃ hotStuffProof authorities,
        HotStuffProof.decode proof.data = some hotStuffProof ∧
        getHotstuffAuthorities getAuthorities (wrapSub 64 header.number 1) =
          .ok authorities ∧
        verifyQc basic hotStuffProof.commitQc none authorities = .ok () := by
  by_cases hname : proof.name = CONSENSUS_HOTSTUFF
  · rw [verifyProof, if_neg (not_not.2 hname)]
    cases hdecode : HotStuffProof.decode proof.data with
    | none => simp [hname]
    | some hotStuffProof =>
        cases hauth : getHotstuffAuthorities getAuthorities
            (wrapSub 64 header.number 1) with
        | error e => simp [hname]
        | ok authorities =>
            cases hqc : verifyQc basic hotStuffProof.commitQc none authorities with
            | error e => simp [hname, hqc]
            | ok u => simp [hname, hqc]
  · simp [verifyProof, hname]

/-- The exact inputs on which acceptance, by the engine or through the
coordinator, means that the proof binds to its block. -/
theorem verifyProof_binds_iff (basic : Basic SigMessage)
    (getAuthorities : BlockNumber → Except Consensus.ErrorKind Authorities)
    (header : Header) (proof : Proof) :
    ((verifyProof basic getAuthorities header proof = .ok () →
        ProofBinds basic getAuthorities header proof) ∧
      ∀ (support : Coordinator.CoordinatorSupport) (blockData : Coordinator.BlockData)
        (params : CommitBlockParams),
        support.consensusVerifyProof = verifyProof basic getAuthorities →
        Coordinator.verifyBlock support blockData = .ok params →
        blockData.header = some header → blockData.proof = some proof →
        ProofBinds basic getAuthorities header proof) ↔
      CertificatesBound basic getAuthorities header proof := by
  constructor
  · rintro ⟨hbinds, -⟩ hname hotStuffProof authorities hdecode hauth hpass
    have hok : verifyProof basic getAuthorities header proof = .ok () :=
      (verifyProof_eq_ok_iff basic getAuthorities header proof).2
        ⟨hname, hotStuffProof, authorities, hdecode, hauth,
          (verifyQc_none_eq_ok_iff basic _ authorities).2 hpass⟩
    obtain ⟨p, auth, hdecode', hauth', htype, hnode, hsigned⟩ := hbinds hok
    obtain rfl : hotStuffProof = p := Option.some.inj (hdecode.symm.trans hdecode')
    obtain rfl : authorities = auth := Except.ok.inj (hauth.symm.trans hauth')
    exact ⟨htype, hnode, (quorumSigned_iff_le_signedWeight basic
      (nodup_getHotstuffAuthorities hauth) _ _).1 hsigned⟩
  · intro hbound
    have hbinds : verifyProof basic getAuthorities header proof = .ok () →
        ProofBinds basic getAuthorities header proof := by
      intro hok
      obtain ⟨hname, hotStuffProof, authorities, hdecode, hauth, hqc⟩ :=
        (verifyProof_eq_ok_iff basic getAuthorities header proof).1 hok
      obtain ⟨htype, hnode, hweight⟩ := hbound hname hotStuffProof authorities hdecode
        hauth ((verifyQc_none_eq_ok_iff basic _ authorities).1 hqc)
      exact ⟨hotStuffProof, authorities, hdecode, hauth, htype, hnode,
        (quorumSigned_iff_le_signedWeight basic
          (nodup_getHotstuffAuthorities hauth) _ _).2 hweight⟩
    refine ⟨hbinds, ?_⟩
    intro support blockData params hsupport hblock hheader hproof
    obtain ⟨hheader', hproof', hok⟩ := Coordinator.verifyBlock_eq_ok hblock
    obtain rfl : header = params.header := Option.some.inj (hheader.symm.trans hheader')
    obtain rfl : proof = params.proof := Option.some.inj (hproof.symm.trans hproof')
    rw [hsupport] at hok
    exact hbinds hok

/-! ## A forged proof -/

/-- One authority of weight one, in force at every block. -/
def soleAuthority : BlockNumber → Except Consensus.ErrorKind Authorities :=
  fun _ => .ok { members := [(⟨[1]⟩, 1)] }

/-- Algorithms under which no signature at all verifies. -/
def mutedBasic : Basic SigMessage where
  hash := fun header => ⟨7 :: header.parentHash.bytes⟩
  address := fun publicKey => ⟨publicKey.bytes⟩
  publicKey := fun secretKey => ⟨secretKey.bytes⟩
  sign := fun _ _ => ⟨[]⟩
  verify := fun _ _ _ => .error "Verification failed"

def forgedHeader : Header where
  number := 1
  timestamp := 0
  parentHash := ⟨[2]⟩
  metaTxsRoot := ⟨[]⟩
  metaStateRoot := ⟨[]⟩
  metaReceiptsRoot := ⟨[]⟩
  payloadTxsRoot := ⟨[]⟩
  payloadExecutionGap := 1
  payloadExecutionStateRoot := ⟨[]⟩
  payloadExecutionReceiptsRoot := ⟨[]⟩

/-- The encoding of a `Prepare` certificate of view `0` without signatures,
for a node that is not the header's. -/
def viewZeroProof : Proof where
  name := CONSENSUS_HOTSTUFF
  data := [1, 0, 0, 0, 0, 0, 0, 0, 0, 4, 2, 4, 9, 4, 1, 0]

/-- A certificate of view `0` proves every header. -/
theorem verifyProof_viewZeroProof :
    verifyProof mutedBasic soleAuthority forgedHeader viewZeroProof = .ok () ∧
      ¬ ProofBinds mutedBasic soleAuthority forgedHeader viewZeroProof := by
  refine ⟨by decide, ?_⟩
  rintro ⟨hotStuffProof, authorities, hdecode, -, htype, -⟩
  have hprepare : (HotStuffProof.decode viewZeroProof.data).map
      (fun p => p.commitQc.messageType) = some .prepare := by decide
  rw [hdecode] at hprepare
  exact absurd (htype.symm.trans (Option.some.inj hprepare)) (by decide)

end Finastate.Hotstuff
