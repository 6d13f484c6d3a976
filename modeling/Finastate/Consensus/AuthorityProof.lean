import Finastate.Primitives.Codec
import Finastate.Coordinator.Verifier

/-!
# PoA and Raft block proofs

Both engines put the public key of the node that produced a block and a
signature into the proof. `verify_proof` checks the name of the engine, decodes
the proof and compares the address of the key with the authorities in force at
the parent of the block; it is written once, for an `AuthorityEngine`, and each
engine is an instance. What a proof is for is `AuthorityEngine.Signed`.
-/

namespace Finastate.Consensus

open Codec

/-- What `verify_proof` of an engine depends on: its name, the decoder of its
proofs, the address of the key in a proof, the authorities at a block and when
an address is one of them, and when the signature of a proof is valid for a
header. -/
structure AuthorityEngine (P A : Type) where
  name : String
  decode : Bytes → Option P
  address : P → Address
  getAuthority : BlockNumber → Except ErrorKind A
  isAuthority : A → Address → Bool
  signatureValid : Header → P → Prop

namespace AuthorityEngine

variable {P A : Type}

/-- `verify_proof` of PoA and of Raft. -/
def verifyProof (engine : AuthorityEngine P A) (header : Header) (proof : Proof) :
    Except ErrorKind Unit :=
  if proof.name ≠ engine.name then
    .error (.verifyProofError ("Unexpected consensus: " ++ proof.name))
  else
    match engine.decode proof.data with
    | none => .error (.verifyProofError "Decode error")
    | some p =>
        match engine.getAuthority (wrapSub 64 header.number 1) with
        | .error e => .error e
        | .ok authority =>
            if engine.isAuthority authority (engine.address p) then .ok ()
            else .error (.verifyProofError "Not authority")

/-- The proof holds a signature of the header that is valid under a key of an
authority in force at the parent. -/
def Signed (engine : AuthorityEngine P A) (header : Header) (proof : Proof) : Prop :=
  ∃ p authority, engine.decode proof.data = some p ∧
    engine.getAuthority (wrapSub 64 header.number 1) = .ok authority ∧
    engine.isAuthority authority (engine.address p) = true ∧
    engine.signatureValid header p

/-- Whoever puts the public key of an authority into a proof also puts a valid
signature of the header there. -/
def KeysSign (engine : AuthorityEngine P A) (header : Header) (proof : Proof) : Prop :=
  proof.name = engine.name → ∀ p authority, engine.decode proof.data = some p →
    engine.getAuthority (wrapSub 64 header.number 1) = .ok authority →
    engine.isAuthority authority (engine.address p) = true →
    engine.signatureValid header p

/-- Acceptance, by the engine or through the coordinator, means that the proof
is signed. -/
def AcceptsOnlySigned (engine : AuthorityEngine P A) (header : Header)
    (proof : Proof) : Prop :=
  (engine.verifyProof header proof = .ok () → engine.Signed header proof) ∧
    ∀ (support : Coordinator.CoordinatorSupport) (blockData : Coordinator.BlockData)
      (params : CommitBlockParams),
      support.consensusVerifyProof = engine.verifyProof →
      Coordinator.verifyBlock support blockData = .ok params →
      blockData.header = some header → blockData.proof = some proof →
      engine.Signed header proof

theorem verifyProof_eq_ok_iff (engine : AuthorityEngine P A) (header : Header)
    (proof : Proof) :
    engine.verifyProof header proof = .ok () ↔
      proof.name = engine.name ∧ ∃ p authority, engine.decode proof.data = some p ∧
        engine.getAuthority (wrapSub 64 header.number 1) = .ok authority ∧
        engine.isAuthority authority (engine.address p) = true := by
  by_cases hname : proof.name = engine.name
  · rw [verifyProof, if_neg (not_not.2 hname)]
    cases hdecode : engine.decode proof.data with
    | none => simp [hname]
    | some p =>
        cases hauth : engine.getAuthority (wrapSub 64 header.number 1) with
        | error e => simp [hname]
        | ok authority => simp [hname]
  · simp [verifyProof, hname]

theorem acceptsOnlySigned_iff (engine : AuthorityEngine P A) (header : Header)
    (proof : Proof) :
    engine.AcceptsOnlySigned header proof ↔ engine.KeysSign header proof := by
  constructor
  · rintro ⟨hsigned, -⟩ hname p authority hdecode hauth hkey
    obtain ⟨p', authority', hdecode', -, -, hvalid⟩ := hsigned
      ((engine.verifyProof_eq_ok_iff header proof).2
        ⟨hname, p, authority, hdecode, hauth, hkey⟩)
    rw [hdecode] at hdecode'
    cases hdecode'
    exact hvalid
  · intro hkeys
    have hsigned : engine.verifyProof header proof = .ok () →
        engine.Signed header proof := by
      intro hok
      obtain ⟨hname, p, authority, hdecode, hauth, hkey⟩ :=
        (engine.verifyProof_eq_ok_iff header proof).1 hok
      exact ⟨p, authority, hdecode, hauth, hkey,
        hkeys hname p authority hdecode hauth hkey⟩
    refine ⟨hsigned, ?_⟩
    intro support blockData params hsupport hblock hheader hproof
    obtain ⟨hheader', hproof', hok⟩ := Coordinator.verifyBlock_eq_ok hblock
    obtain rfl : header = params.header := Option.some.inj (hheader.symm.trans hheader')
    obtain rfl : proof = params.proof := Option.some.inj (hproof.symm.trans hproof')
    rw [hsupport] at hok
    exact hsigned hok

end AuthorityEngine

end Finastate.Consensus

namespace Finastate.Poa

open Codec Consensus

/-- `proof::Proof` of PoA. -/
structure PoaProof where
  publicKey : PublicKey
  signature : Signature
  deriving DecidableEq, Repr

def PoaProof.decode (data : Bytes) : Option PoaProof := do
  let (publicKey, rest) ← decodePublicKey data
  let (signature, _) ← decodeSignature rest
  return { publicKey, signature }

/-- `Proof::new`: the block hash is what is signed. -/
def PoaProof.new (basic : Basic Hash) (blockHash : Hash) (secretKey : SecretKey) :
    PoaProof where
  publicKey := basic.publicKey secretKey
  signature := basic.sign blockHash secretKey

/-- PoA has a single authority. -/
def engine (basic : Basic Hash)
    (getAuthority : BlockNumber → Except ErrorKind Address) :
    AuthorityEngine PoaProof Address where
  name := CONSENSUS_POA
  decode := PoaProof.decode
  address := fun p => basic.address p.publicKey
  getAuthority := getAuthority
  isAuthority := fun authority address => address = authority
  signatureValid := fun header p => basic.Valid (basic.hash header) p.publicKey p.signature

/-- `Poa::verify_proof`. -/
def verifyProof (basic : Basic Hash)
    (getAuthority : BlockNumber → Except ErrorKind Address) (header : Header)
    (proof : Proof) : Except ErrorKind Unit :=
  (engine basic getAuthority).verifyProof header proof

end Finastate.Poa

namespace Finastate.Raft

open Codec Consensus

/-- The tuples that a Raft node signs: the nonce of a peer when it registers,
and a committed block with the log position it was committed at. -/
inductive SigMessage where
  | nonce (nonce : Nat)
  | proof (blockHash : Hash) (logIndex logTerm : Nat)
  deriving DecidableEq, Repr

/-- `proof::Proof` of Raft. -/
structure RaftProof where
  logIndex : Nat
  logTerm : Nat
  publicKey : PublicKey
  signature : Signature
  deriving DecidableEq, Repr

def RaftProof.decode (data : Bytes) : Option RaftProof := do
  let (logIndex, rest) ← decodeU64 data
  let (logTerm, rest) ← decodeU64 rest
  let (publicKey, rest) ← decodePublicKey rest
  let (signature, _) ← decodeSignature rest
  return { logIndex, logTerm, publicKey, signature }

/-- `Proof::new`. -/
def RaftProof.new (basic : Basic SigMessage) (blockHash : Hash) (logIndex logTerm : Nat)
    (secretKey : SecretKey) : RaftProof where
  logIndex := logIndex
  logTerm := logTerm
  publicKey := basic.publicKey secretKey
  signature := basic.sign (.proof blockHash logIndex logTerm) secretKey

/-- Any of the listed authorities may have produced the block. -/
def engine (basic : Basic SigMessage)
    (getAuthorities : BlockNumber → Except ErrorKind (List Address)) :
    AuthorityEngine RaftProof (List Address) where
  name := CONSENSUS_RAFT
  decode := RaftProof.decode
  address := fun p => basic.address p.publicKey
  getAuthority := getAuthorities
  isAuthority := fun members address => address ∈ members
  signatureValid := fun header p =>
    basic.Valid (.proof (basic.hash header) p.logIndex p.logTerm) p.publicKey p.signature

/-- `Raft::verify_proof`. -/
def verifyProof (basic : Basic SigMessage)
    (getAuthorities : BlockNumber → Except ErrorKind (List Address)) (header : Header)
    (proof : Proof) : Except ErrorKind Unit :=
  (engine basic getAuthorities).verifyProof header proof

end Finastate.Raft

namespace Finastate.Consensus

/-- The exact inputs on which PoA and Raft accept only signed blocks. -/
theorem poa_raft_accept_only_signed_iff (poaBasic : Basic Hash)
    (getAuthority : BlockNumber → Except ErrorKind Address)
    (raftBasic : Basic Raft.SigMessage)
    (getAuthorities : BlockNumber → Except ErrorKind (List Address))
    (header : Header) (proof : Proof) :
    ((Poa.engine poaBasic getAuthority).AcceptsOnlySigned header proof ↔
        (Poa.engine poaBasic getAuthority).KeysSign header proof) ∧
      ((Raft.engine raftBasic getAuthorities).AcceptsOnlySigned header proof ↔
        (Raft.engine raftBasic getAuthorities).KeysSign header proof) :=
  ⟨AuthorityEngine.acceptsOnlySigned_iff _ header proof,
    AuthorityEngine.acceptsOnlySigned_iff _ header proof⟩

/-! ## A proof without a signature -/

/-- Algorithms under which no signature at all verifies. -/
def silentBasic (Message : Type) : Basic Message where
  hash := fun header => ⟨7 :: header.parentHash.bytes⟩
  address := fun publicKey => ⟨publicKey.bytes⟩
  publicKey := fun secretKey => ⟨secretKey.bytes⟩
  sign := fun _ _ => ⟨[]⟩
  verify := fun _ _ _ => .error "Verification failed"

def unsignedHeader : Header where
  number := 1
  timestamp := 0
  parentHash := ⟨[2]⟩
  metaTxsRoot := ⟨[]⟩
  metaStateRoot := ⟨[]⟩
  metaReceiptsRoot := ⟨[]⟩
  payloadTxsRoot := ⟨[]⟩
  payloadExecutionGap := 1
  payloadExecutionStateRoot := ⟨[]⟩
  payloadExecutionReceiptsRoot := ⟨[]⟩

/-- The public key of the authority and an empty signature. -/
def unsignedPoaProof : Proof where
  name := CONSENSUS_POA
  data := [4, 1, 0]

def unsignedRaftProof : Proof where
  name := CONSENSUS_RAFT
  data := [1, 0, 0, 0, 0, 0, 0, 0, 1, 0, 0, 0, 0, 0, 0, 0, 4, 1, 0]

/-- The public key of an authority is all that a forged proof needs. -/
theorem verifyProof_unsigned :
    (Poa.verifyProof (silentBasic Hash) (fun _ => .ok ⟨[1]⟩) unsignedHeader
        unsignedPoaProof = .ok () ∧
      ¬ (Poa.engine (silentBasic Hash) fun _ => .ok ⟨[1]⟩).Signed unsignedHeader
        unsignedPoaProof) ∧
      Raft.verifyProof (silentBasic Raft.SigMessage) (fun _ => .ok [⟨[1]⟩])
        unsignedHeader unsignedRaftProof = .ok () ∧
      ¬ (Raft.engine (silentBasic Raft.SigMessage) fun _ => .ok [⟨[1]⟩]).Signed
        unsignedHeader unsignedRaftProof := by
  refine ⟨⟨by decide, ?_⟩, by decide, ?_⟩
  · rintro ⟨p, authority, -, -, -, hvalid⟩
    cases hvalid
  · rintro ⟨p, authority, -, -, -, hvalid⟩
    cases hvalid

end Finastate.Consensus
