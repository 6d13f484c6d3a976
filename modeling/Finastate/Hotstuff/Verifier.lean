import Finastate.Hotstuff.Storage

/-!
# Verification of proposals

`verify_proposal` of the HotStuff crate, over the chain of a node. What the rest
of the development uses of it is `verifyProposal_eq_ok`.
-/

namespace Finastate.Hotstuff

open Consensus (ProposalError)

def Proposal.toConsensus (proposal : Proposal) : Consensus.Proposal where
  parentHash := some proposal.parentHash
  blockHash := proposal.blockHash
  number := proposal.number
  timestamp := proposal.timestamp
  metaTxs := proposal.metaTxs
  payloadTxs := proposal.payloadTxs
  executionNumber := proposal.executionNumber

/-- `verify_proposal`. -/
def Verifier.verifyProposal (support : Support) (chain : Chain) (executedNumber : BlockNumber)
    (proposal : Proposal) : Except ProposalError CommitBlockParams :=
  Consensus.Verifier.verifyProposal (support.verifierSupport chain executedNumber)
    proposal.toConsensus

/-- An accepted proposal extends the confirmed block, and the block built from
it has the hash that the proposal states. -/
theorem Verifier.verifyProposal_eq_ok {support : Support} {chain : Chain}
    {executedNumber : BlockNumber} {proposal : Proposal}
    {commitBlockParams : CommitBlockParams}
    (h : verifyProposal support chain executedNumber proposal = .ok commitBlockParams) :
    proposal.number = chain.length + 1 ∧
      proposal.parentHash = support.confirmedBlockHash chain ∧
      commitBlockParams.blockHash = proposal.blockHash ∧
      ∃ params : BuildBlockParams, params.number = proposal.number ∧
        support.buildBlock chain params = .ok commitBlockParams := by
  obtain ⟨-, -, h⟩ := Result.bind_eq_ok.1 h
  obtain ⟨confirmedHeader, hbest, h⟩ := Result.bind_eq_ok.1 h
  obtain ⟨-, -, h⟩ := Result.bind_eq_ok.1 h
  obtain ⟨txs, -, h⟩ := Result.bind_eq_ok.1 h
  obtain ⟨-, hnumber, hparent⟩ := Consensus.Verifier.verifyBest_eq_ok_iff.1 hbest
  obtain ⟨hbuild, hhash⟩ := Consensus.Verifier.verifyHeader_eq_ok_iff.1 h
  exact ⟨hnumber, hparent, hhash, _, rfl, hbuild⟩

end Finastate.Hotstuff
