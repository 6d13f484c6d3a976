import Finastate.Contract.Storage
import Finastate.Executor.Storage
import Finastate.Hotstuff.Certificate
import Finastate.Library.Ballot

/-!
# Proposals and votes

The consensus modules and the contract module change what is critical by a
vote: a member of the admin makes a proposal, which counts as its first vote,
other members vote for it, and it passes with the vote that brings the weight
up to the threshold. A module does so for two kinds of proposals, each with a
pending proposal and a next id of its own.
-/

namespace Finastate.Governance

open Executor
open Contract (Admin)

/-- `Update..Proposal`. -/
structure Proposal (V : Type) where
  proposalId : Nat
  value : V
  vote : List Address
  deriving DecidableEq, Repr

def encodeAddress (address : Address) : Bytes := Codec.encodeBytes address.bytes

def encodeProposal {V : Type} (encode : V → Bytes) (proposal : Proposal V) : Bytes :=
  Codec.encodeLe 4 proposal.proposalId ++ encode proposal.value ++
    Codec.encodeVec encodeAddress proposal.vote

def decodeProposal {V : Type} (decode : Codec.Decoder V) : Codec.Decoder (Proposal V) :=
  fun input => do
    let (proposalId, rest) ← Codec.decodeU32 input
    let (value, rest) ← decode rest
    let (vote, rest) ← Codec.decodeVec Codec.decodeAddress rest
    return ({ proposalId, value, vote }, rest)

/-- `aggregate_admin`. -/
def aggregateAdmin (admin : Admin) : Admin where
  threshold := admin.threshold
  members := admin.members.foldl
    (fun members x => if 0 < x.2 then Hotstuff.addWeight members x.1 x.2 else members) []

/-- The sum of the weights of those that voted, in `u32`. -/
def tally (members : List (Address × Nat)) (vote : List Address) : Nat :=
  vote.foldl (fun sum v => wrapAdd 32 sum ((Weights.weight? members v).getD 0)) 0

/-- One kind of proposals of a module. -/
structure Kind (V : Type) where
  admin : StorageValue Admin
  adminNotFound : String
  /-- `update_.._proposal_id` -/
  proposalId : StorageValue Nat
  /-- `update_.._proposal` -/
  proposal : StorageValue (Proposal V)
  /-- The name of the events without `Created`, `Voted` or `Passed`. -/
  eventName : String
  eventData : Proposal V → Bytes

namespace Kind

variable {C V : Type} [ContextT C] (k : Kind V) (pass : C → Proposal V → ModuleResult C)

/-- `verify_sender`. The members are collected into a `HashMap`, where the
last entry of an address counts. -/
def verifySender (context : C) (sender : Address) :
    ModuleResult (Nat × List (Address × Nat)) :=
  (k.admin.get context).bind fun admin =>
    match admin with
    | none => .error (.ofString k.adminNotFound)
    | some admin =>
        if (Weights.weight? admin.members sender).isSome then
          .ok (admin.threshold, admin.members)
        else .error (.ofString "Not admin")

def emit (context : C) (what : String) (proposal : Proposal V) : C :=
  ContextT.emitEvent context (.fromData (k.eventName ++ what) (k.eventData proposal))

/-- `update_.._vote_and_pass`. -/
def voteAndPass (context : C) (sender : Address) (proposal : Proposal V) (oldThreshold : Nat)
    (oldMembers : List (Address × Nat)) : ModuleResult C :=
  let proposal := { proposal with vote := Ballot.addVote proposal.vote sender }
  let context := k.emit context "Voted" proposal
  if oldThreshold ≤ tally oldMembers proposal.vote then
    (pass context proposal).bind fun context =>
      let context := k.emit context "Passed" proposal
      let context := k.proposal.delete context
      .ok (k.proposalId.set context (wrapAdd 32 proposal.proposalId 1))
  else
    let context := k.proposal.set context proposal
    .ok (k.proposalId.set context (wrapAdd 32 proposal.proposalId 1))

/-- `update_..`. -/
def update (context : C) (sender : Option Address) (value : V) : ModuleResult C :=
  match sender with
  | none => .error (.application .unsigned)
  | some sender =>
      (k.verifySender context sender).bind fun (oldThreshold, oldMembers) =>
        (k.proposalId.get context).bind fun proposalId =>
          let proposal := { proposalId := proposalId.getD 1, value, vote := [] }
          let context := k.emit context "Created" proposal
          k.voteAndPass pass context sender proposal oldThreshold oldMembers

/-- `update_.._vote`. -/
def updateVote (context : C) (sender : Option Address) (proposalId : Nat) : ModuleResult C :=
  match sender with
  | none => .error (.application .unsigned)
  | some sender =>
      (k.proposal.get context).bind fun proposal =>
        match proposal with
        | none => .error (.ofString "Proposal not found")
        | some proposal =>
            if proposal.proposalId ≠ proposalId then
              .error (.ofString "Proposal id not match")
            else
              (k.verifySender context sender).bind fun (oldThreshold, oldMembers) =>
                k.voteAndPass pass context sender proposal oldThreshold oldMembers

end Kind

end Finastate.Governance
