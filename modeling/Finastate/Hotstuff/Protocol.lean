import Finastate.Primitives.Codec
import Finastate.Consensus.Basic

/-!
# HotStuff protocol messages

The message types of `protocol.rs`, the tuples that are signed, and the
decoder of a quorum certificate as it is stored in a block proof.
-/

namespace Finastate.Hotstuff

open Codec

inductive MessageType where
  | newView
  | prepare
  | preCommit
  | commit
  | decide
  deriving DecidableEq, Repr

structure Node where
  parentHash : Hash
  blockHash : Hash
  deriving DecidableEq, Repr

structure QC where
  messageType : MessageType
  view : Nat
  node : Node
  leaderAddress : Address
  sig : List (PublicKey × Signature)
  deriving DecidableEq, Repr

structure Proposal where
  parentHash : Hash
  blockHash : Hash
  number : BlockNumber
  timestamp : Nat
  metaTxs : List Transaction
  payloadTxs : List Transaction
  executionNumber : BlockNumber
  deriving DecidableEq, Repr

structure ConsensusMessage where
  requestId : Nat
  messageType : MessageType
  view : Nat
  node : Option Node
  justify : Option QC
  sig : Option (PublicKey × Signature)
  deriving DecidableEq, Repr

inductive TimeoutMessageType where
  | newTimeout
  | decide
  deriving DecidableEq, Repr

structure TC where
  view : Nat
  sig : List (PublicKey × Signature)
  deriving DecidableEq, Repr

structure TimeoutMessage where
  requestId : Nat
  messageType : TimeoutMessageType
  view : Nat
  justify : Option TC
  sig : Option (PublicKey × Signature)
  deriving DecidableEq, Repr

structure RegisterValidatorReq where
  requestId : Nat
  publicKey : PublicKey
  signature : Signature
  deriving DecidableEq, Repr

structure RegisterValidatorRes where
  requestId : Nat
  success : Bool
  deriving DecidableEq, Repr

structure RequestProposalReq where
  requestId : Nat
  blockHash : Hash
  deriving DecidableEq, Repr

structure RequestProposalRes where
  requestId : Nat
  proposal : Option Proposal
  deriving DecidableEq, Repr

inductive HotStuffMessage where
  | registerValidatorReq (req : RegisterValidatorReq)
  | registerValidatorRes (res : RegisterValidatorRes)
  | requestProposalReq (req : RequestProposalReq)
  | requestProposalRes (res : RequestProposalRes)
  | consensusMessage (message : ConsensusMessage)
  | timeoutMessage (message : TimeoutMessage)
  deriving DecidableEq, Repr

/-- The tuples that a validator signs: the nonce of a peer when it registers,
a vote of a phase, and a timeout. -/
inductive SigMessage where
  | nonce (nonce : Nat)
  | vote (messageType : MessageType) (view : Nat) (node : Option Node)
      (leaderAddress : Address)
  | timeout (messageType : TimeoutMessageType) (view : Nat)
  deriving DecidableEq, Repr

/-- What the signatures of a certificate are over. -/
def QC.sigMessage (qc : QC) : SigMessage :=
  .vote qc.messageType qc.view (some qc.node) qc.leaderAddress

def TC.sigMessage (tc : TC) : SigMessage := .timeout .newTimeout tc.view

/-- The variant index of an enum is its first byte. -/
def decodeMessageType : Decoder MessageType
  | 0 :: input => some (.newView, input)
  | 1 :: input => some (.prepare, input)
  | 2 :: input => some (.preCommit, input)
  | 3 :: input => some (.commit, input)
  | 4 :: input => some (.decide, input)
  | _ => none

def decodeNode : Decoder Node := fun input => do
  let (parentHash, rest) ← decodeHash input
  let (blockHash, rest) ← decodeHash rest
  return ({ parentHash, blockHash }, rest)

def decodeSig : Decoder (PublicKey × Signature) := fun input => do
  let (publicKey, rest) ← decodePublicKey input
  let (signature, rest) ← decodeSignature rest
  return ((publicKey, signature), rest)

def decodeQc : Decoder QC := fun input => do
  let (messageType, rest) ← decodeMessageType input
  let (view, rest) ← decodeU64 rest
  let (node, rest) ← decodeNode rest
  let (leaderAddress, rest) ← decodeAddress rest
  let (sig, rest) ← decodeVec decodeSig rest
  return ({ messageType, view, node, leaderAddress, sig }, rest)

/-- `proof::Proof`: the commit certificate of the block. -/
structure HotStuffProof where
  commitQc : QC
  deriving DecidableEq, Repr

/-- `codec::decode` of a proof; bytes after it are ignored. -/
def HotStuffProof.decode (data : Bytes) : Option HotStuffProof :=
  (decodeQc data).map fun (commitQc, _) => { commitQc }

end Finastate.Hotstuff
