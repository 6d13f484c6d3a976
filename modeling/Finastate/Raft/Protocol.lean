import Finastate.Consensus.AuthorityProof

/-!
# Raft protocol messages

The message types of `protocol.rs`.
-/

namespace Finastate.Raft

structure Proposal where
  blockHash : Hash
  number : BlockNumber
  timestamp : Nat
  metaTxs : List Transaction
  payloadTxs : List Transaction
  executionNumber : BlockNumber
  deriving DecidableEq, Repr

inductive EntryData where
  | blank
  | proposal (blockHash : Hash)
  deriving DecidableEq, Repr

structure Entry where
  term : Nat
  index : Nat
  data : EntryData
  deriving DecidableEq, Repr

/-- The block that an entry proposes. -/
def Entry.proposed? (e : Entry) : Option Hash :=
  match e.data with
  | .blank => none
  | .proposal blockHash => some blockHash

structure RegisterValidatorReq where
  requestId : Nat
  publicKey : PublicKey
  signature : Signature
  deriving DecidableEq, Repr

structure RegisterValidatorRes where
  requestId : Nat
  success : Bool
  deriving DecidableEq, Repr

structure AppendEntriesReq where
  requestId : Nat
  term : Nat
  prevLogIndex : Nat
  prevLogTerm : Nat
  commitLogIndex : Nat
  entries : List Entry
  deriving DecidableEq, Repr

structure AppendEntriesRes where
  requestId : Nat
  success : Bool
  term : Nat
  lastLogIndex : Nat
  lastLogTerm : Nat
  deriving DecidableEq, Repr

structure RequestVoteReq where
  requestId : Nat
  term : Nat
  lastLogIndex : Nat
  lastLogTerm : Nat
  deriving DecidableEq, Repr

structure RequestVoteRes where
  requestId : Nat
  term : Nat
  voteGranted : Bool
  deriving DecidableEq, Repr

structure RequestProposalReq where
  requestId : Nat
  deriving DecidableEq, Repr

/-- Without the extra election timeout, which only moves the timers. -/
structure RequestProposalRes where
  requestId : Nat
  proposal : Option Proposal
  deriving DecidableEq, Repr

inductive RaftMessage where
  | registerValidatorReq (req : RegisterValidatorReq)
  | registerValidatorRes (res : RegisterValidatorRes)
  | appendEntriesReq (req : AppendEntriesReq)
  | appendEntriesRes (res : AppendEntriesRes)
  | requestVoteReq (req : RequestVoteReq)
  | requestVoteRes (res : RequestVoteRes)
  | requestProposalReq (req : RequestProposalReq)
  | requestProposalRes (res : RequestProposalRes)
  deriving DecidableEq, Repr

end Finastate.Raft
