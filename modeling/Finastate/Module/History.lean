import Finastate.Contract.Written
import Finastate.Module.Office

/-!
# Runs of the modules

A run is a sequence of calls of the consensus modules and the contract module
by any senders. Between two calls there may be a new transaction or a new
block, and other transactions that move balances: the context is another one
then, over the same data. The history of a run has the context and, for every
office, the record of what was proposed and voted.
-/

namespace Finastate.Governance

open Executor
open Contract (Admin Library)

namespace Office

abbrev Value : Office → Type
  | consensus o => o.Value
  | contract o _ => o.Value

def proposed : (o : Office) → o.Value → o.Value
  | consensus o => o.proposed
  | contract o _ => o.proposed

/-- The methods `update_..` of the modules. -/
def update (util : Util) : (o : Office) → Context → Option Address → o.Value →
    ModuleResult Context
  | consensus o => o.update
  | contract o a => o.update util a

/-- The methods `update_.._vote` of the modules. -/
def updateVote (util : Util) : Office → Context → Option Address → Nat → ModuleResult Context
  | consensus o => o.updateVote
  | contract o a => o.updateVote util a

/-- The value as it is stored. -/
def read (util : Util) : (o : Office) → Context → ModuleResult (Option o.Value)
  | consensus o => o.seat.read
  | contract o a => (o.seat util a).read

def admin (util : Util) : Office → Context → ModuleResult (Option Admin)
  | consensus o => fun c => o.seat.kind.admin.get (C := MetaContext) c
  | contract o a => fun c => (o.seat util a).kind.admin.get c

def pending (util : Util) : (o : Office) → Context → ModuleResult (Option (Proposal o.Value))
  | consensus o => fun c => o.seat.kind.proposal.get (C := MetaContext) c
  | contract o a => fun c => (o.seat util a).kind.proposal.get c

def nextId (util : Util) : Office → Context → Nat
  | consensus o => o.seat.nextId
  | contract o a => (o.seat util a).nextId

/-- The sender is a member of the current admin. -/
def Member (util : Util) : Office → Context → Address → Prop
  | consensus o => o.seat.Member
  | contract o a => (o.seat util a).Member

def Counted (util : Util) : (o : Office) → Context → Context → Admin → Nat → o.Value →
    Finset Address → Prop
  | consensus o => o.seat.Counted
  | contract o a => (o.seat util a).Counted

end Office

/-- A call of a consensus module or of the contract module. -/
inductive Invocation
  | hotstuffInit (params : Methods.Hotstuff.InitParams)
  | raftInit (params : Methods.Raft.InitParams)
  | poaInit (params : Methods.Poa.InitParams)
  | contractInit (params : Contract.InitParams)
  | create (params : Library.CreateParams)
  | execute (params : Library.ExecuteParams)
  | propose (o : Office) (value : o.Value)
  | vote (o : Office) (proposalId : Nat)

/-- The context after a call that succeeds; a failed one is dropped. -/
def committed {α : Type} (r : Context × ModuleResult α) : ModuleResult Context :=
  r.2.map fun _ => r.1

theorem committed_eq_ok {α : Type} {r : Context × ModuleResult α} {c' : Context}
    (h : committed r = .ok c') : r.1 = c' ∧ ∃ a, r.2 = .ok a := by
  obtain ⟨c, result⟩ := r
  cases result with
  | error e => cases h
  | ok a => exact ⟨Except.ok.inj h, a, rfl⟩

namespace Invocation

def exec (lib : Library) (c : Context) (sender : Option Address) : Invocation →
    ModuleResult Context
  | hotstuffInit params => HotstuffModule.init (C := MetaContext) c params
  | raftInit params => RaftModule.init (C := MetaContext) c params
  | poaInit params => PoaModule.init (C := MetaContext) c params
  | contractInit params => Contract.init c params
  | create params => committed (lib.create c sender params)
  | execute params => committed (lib.execute c sender params)
  | propose o value => o.update lib.util c sender value
  | vote o proposalId => o.updateVote lib.util c sender proposalId

/-- The offices whose value a call may set: those of a module by `init`, those
of a new contract, and the one that a proposal is about. -/
def Sets (lib : Library) (c : Context) : Invocation → Office → Prop
  | hotstuffInit _, o => o = .consensus .hotstuffAdmin ∨ o = .consensus .hotstuffAuthorities
  | raftInit _, o => o = .consensus .raftAdmin ∨ o = .consensus .raftAuthorities
  | poaInit _, o => o = .consensus .poaAdmin ∨ o = .consensus .poaAuthority
  | contractInit _, _ => False
  | create _, o => ∃ txHash k, c.callEnv.txHash = some txHash ∧
      o = .contract k (lib.contractAddress txHash)
  | execute _, _ => False
  | propose o _, o' => o' = o
  | vote o _, o' => o' = o

end Invocation

/-- The context, and what was proposed and voted for every office. -/
structure History where
  context : Context
  log : (o : Office) → List (Ballot.Entry Address o.Value)

namespace History

def start (env : ContextEnv) : History := ⟨.new env [] [], fun _ => []⟩

/-- The records after a call that succeeded. -/
def record (util : Util) (h : History) (sender : Option Address) :
    Invocation → (o : Office) → List (Ballot.Entry Address o.Value)
  | .propose o value =>
      match sender with
      | some x => Function.update h.log o
          (h.log o ++ [.proposed (o.nextId util h.context) (o.proposed value) x])
      | none => h.log
  | .vote o proposalId =>
      match sender with
      | some x => Function.update h.log o (h.log o ++ [.voted proposalId x])
      | none => h.log
  | _ => h.log

end History

/-- The same data, under another environment; balances and the data of contracts
may be others. -/
structure SameData (util : Util) (c c' : Context) : Prop where
  metaGet : ∀ key, MetaContext.metaGet c' key = MetaContext.metaGet c key
  payloadGet : ∀ key ∉ Contract.vmKeys util, c'.payloadGet key = c.payloadGet key

/-- The histories of the runs all of whose calls satisfy `P`. -/
inductive Run (lib : Library) (P : History → Option Address → Invocation → Prop) :
    History → Prop
  | start (env : ContextEnv) : Run lib P (.start env)
  | resume {h : History} {c' : Context} (hrun : Run lib P h) (hdata : SameData lib.util h.context c') :
      Run lib P { h with context := c' }
  | call {h : History} {sender : Option Address} {call : Invocation} {c' : Context}
      (hrun : Run lib P h) (hcall : P h sender call)
      (hexec : call.exec lib h.context sender = .ok c') :
      Run lib P ⟨c', h.record lib.util sender call⟩

/-! ## The calls of a run -/

/-- The value is one of its type, and the weights of a new admin add up. -/
def ConsensusOffice.Typed : (o : ConsensusOffice) → o.Value → Prop
  | hotstuffAdmin => fun a => ValidAdmin a ∧ Weights.total a.members < 2 ^ 32
  | hotstuffAuthorities => Codec.ValidVec ValidMember
  | raftAdmin => fun a => ValidAdmin a ∧ Weights.total a.members < 2 ^ 32
  | raftAuthorities => Codec.ValidVec ValidAddress
  | poaAdmin => fun a => ValidAdmin a ∧ Weights.total a.members < 2 ^ 32
  | poaAuthority => ValidAddress

def ContractOffice.Typed : (o : ContractOffice) → o.Value → Prop
  | admin => fun a => ValidAdmin a ∧ Weights.total a.members < 2 ^ 32
  | code => Codec.ValidBytes

def Office.Typed : (o : Office) → o.Value → Prop
  | consensus o => o.Typed
  | contract o _ => o.Typed

/-- The values of a call have their types, admins have a total weight below
`2 ^ 32`, and there are fewer than `2 ^ 32 - 1` proposals of a kind. -/
def Domain (h : History) (sender : Option Address) (call : Invocation) : Prop :=
  (∀ x ∈ sender, ValidAddress x) ∧
    match call with
    | .hotstuffInit params => ValidAdmin ⟨params.admin.1, params.admin.2⟩ ∧
        Weights.total params.admin.2 < 2 ^ 32
    | .raftInit params => ValidAdmin ⟨params.admin.1, params.admin.2⟩ ∧
        Weights.total params.admin.2 < 2 ^ 32
    | .poaInit params => ValidAdmin ⟨params.admin.1, params.admin.2⟩ ∧
        Weights.total params.admin.2 < 2 ^ 32
    | .propose o value => o.Typed value ∧ (Ballot.proposals (h.log o)).length + 2 < 2 ^ 32
    | _ => True

/-- The admin of a genesis lists no address twice, and the list of the votes
for a proposal can be encoded. -/
def Regular (util : Util) (h : History) : Invocation → Prop
  | .hotstuffInit params => (params.admin.2.map Prod.fst).Nodup
  | .raftInit params => (params.admin.2.map Prod.fst).Nodup
  | .poaInit params => (params.admin.2.map Prod.fst).Nodup
  | .vote o _ => ∀ p, o.pending util h.context = .ok (some p) → p.vote.length + 1 < 2 ^ 32
  | _ => True

end Finastate.Governance
