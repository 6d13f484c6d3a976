import Finastate.Raft.Storage

/-!
# Verification of proposals

`verify_proposal` of the Raft crate, over the chain of a node. Unlike in HotStuff
a proposal does not name its parent.
-/

namespace Finastate.Raft

open Consensus (ProposalError)

def Proposal.toConsensus (proposal : Proposal) : Consensus.Proposal where
  parentHash := none
  blockHash := proposal.blockHash
  number := proposal.number
  timestamp := proposal.timestamp
  metaTxs := proposal.metaTxs
  payloadTxs := proposal.payloadTxs
  executionNumber := proposal.executionNumber

/-- `verify_proposal`. -/
def Verifier.verifyProposal (support : Support) (chain : Chain) (executedNumber : BlockNumber)
    (proposal : Proposal) : Except ProposalError CommitBlockParams :=
  Consensus.Verifier.verifyProposal (support.verifierSupport chain executedNumber)
    proposal.toConsensus

end Finastate.Raft
