import Finastate.Chain.Contracts
import Finastate.Chain.Verdict

/-!
# Nodes that lag

With the modules of the chain the verdict on a block depends on the current
payload state in one way only: `create` and `execute` of the contract module are
validated by running the contract on it. The other modules look at the
parameters of a call.
-/

namespace Finastate

open Executor Contract

namespace Contract.Library

variable (lib : Library)

/-- The calls that are validated by running a contract. -/
def runsContract (call : Call) : Prop :=
  call.module = "contract" ∧ (call.method = "create" ∨ call.method = "execute")

instance (call : Call) : Decidable (runsContract call) := by
  unfold runsContract
  infer_instance

theorem moduleValidateCall_of_not_runsContract (context : Context) (sender : Option Address)
    {call : Call} (h : ¬runsContract call) :
    lib.moduleValidateCall context sender call = (context, Methods.validateCall lib.util call) := by
  unfold moduleValidateCall
  split
  · next hmodule hmethod => exact absurd ⟨hmodule, .inl hmethod⟩ h
  · next hmodule hmethod => exact absurd ⟨hmodule, .inr hmethod⟩ h
  · rfl

theorem callResult_eq_ok_iff {result : ModuleResult Unit} :
    callResult result = .ok (.ok ()) ↔ result = .ok () := by
  match result with
  | .ok () => simp [callResult]
  | .error (.system e) => simp [callResult]
  | .error (.application e) => simp [callResult]

variable (validator : Validator)

/-- What is asked of a transaction without a look at the state. -/
structure Static (genesisHash : Hash) (tx : Transaction) : Prop where
  witness : validator.validateWitness genesisHash tx true = .ok ()
  isWriteCall : Methods.isWriteCall lib.util tx.call = .ok true
  call : ¬runsContract tx.call → Methods.validateCall lib.util tx.call = .ok ()

/-- If the call runs a contract, the contract accepts it in this context. -/
def ContractAccepts (context : Context) (tx : Transaction) : Prop :=
  runsContract tx.call →
    (lib.moduleValidateCall context (tx.witness.map fun witness => validator.address
      witness.publicKey) tx.call).2 = .ok ()

theorem validateTx_eq_ok_iff (address : PublicKey → Address)
    (verify : PublicKey → Bytes → Signature → Except String Bool) (genesisHash : Hash)
    (context : Context) (tx : Transaction) :
    ((lib.validator address verify).validateTx genesisHash context tx true).2 = .ok () ↔
      lib.Static (lib.validator address verify) genesisHash tx ∧
        lib.ContractAccepts (lib.validator address verify) context tx := by
  obtain ⟨sender, hsender⟩ : ∃ sender, sender = tx.witness.map fun witness =>
    (lib.validator address verify).address witness.publicKey := ⟨_, rfl⟩
  have hcall : (lib.validateCall context sender tx.call).2 = .ok (.ok ()) ↔
      (¬runsContract tx.call → Methods.validateCall lib.util tx.call = .ok ()) ∧
        (runsContract tx.call → (lib.moduleValidateCall context sender tx.call).2 = .ok ()) := by
    have hresult : (lib.validateCall context sender tx.call).2 =
        callResult (lib.moduleValidateCall context sender tx.call).2 := rfl
    rw [hresult, callResult_eq_ok_iff]
    by_cases hruns : runsContract tx.call
    · simp [hruns]
    · simp [hruns, lib.moduleValidateCall_of_not_runsContract context sender hruns]
  have hvalidate : ((lib.validator address verify).validateTx genesisHash context tx true).2 =
        .ok () ↔
      (lib.validator address verify).validateWitness genesisHash tx true = .ok () ∧
        (lib.validateCall context sender tx.call).2 = .ok (.ok ()) ∧
          Methods.isWriteCall lib.util tx.call = .ok true := by
    have hcallee : (lib.validator address verify).validateCall = lib.validateCall := rfl
    have hwrite : (lib.validator address verify).isWriteCall = Methods.isWriteCall lib.util := rfl
    rw [Validator.validateTx, hcallee, hwrite]
    simp only [← hsender]
    cases (lib.validator address verify).validateWitness genesisHash tx true with
    | error e => simp
    | ok u =>
        simp only
        generalize lib.validateCall context sender tx.call = out
        obtain ⟨c, result⟩ := out
        match result with
        | .error e => simp
        | .ok (.error e) => simp
        | .ok (.ok u) =>
            generalize Methods.isWriteCall lib.util tx.call = isWrite
            match isWrite with
            | .error e => simp
            | .ok false => simp
            | .ok true => simp
  rw [hvalidate, hcall]
  constructor
  · rintro ⟨hwitness, ⟨hstatic, haccepts⟩, hwrite⟩
    exact ⟨⟨hwitness, hwrite, hstatic⟩, fun hruns => hsender ▸ haccepts hruns⟩
  · rintro ⟨hstatic, haccepts⟩
    exact ⟨hstatic.witness, ⟨hstatic.call, fun hruns => hsender ▸ haccepts hruns⟩,
      hstatic.isWriteCall⟩

end Contract.Library

namespace Chain

open Contract.Library

section Lag

variable {lib : Library} {programs : Option Address → Call → Program (ModuleResult Bytes)}
  {algorithms : Backend}

theorem valid_iff {state : CurrentState} {txs : List Transaction} :
    (lib.backend programs algorithms).Valid state txs ↔
      (∀ tx ∈ txs, lib.Static (lib.backend programs algorithms).validator state.genesisHash tx) ∧
        ∀ tx ∈ txs, lib.ContractAccepts (lib.backend programs algorithms).validator
          state.contextEssence.context tx := by
  simp only [Backend.Valid, ← forall_and]
  refine forall₂_congr fun tx htx => ?_
  exact lib.validateTx_eq_ok_iff _ _ _ _ tx

theorem Twins.valid_congr {txs : List Transaction} {timestamp : Nat} {node₁ node₂ : Node}
    (h : Twins (lib.backend programs algorithms) txs timestamp node₁ node₂)
    (hfree : (lib.backend programs algorithms).CollisionFree) (blockTxs : List Transaction) :
    ((lib.backend programs algorithms).Valid node₁.current blockTxs ↔
        (lib.backend programs algorithms).Valid node₂.current blockTxs) ↔
      ((∀ tx ∈ blockTxs, lib.Static (lib.backend programs algorithms).validator
          node₁.current.genesisHash tx) →
        ((∀ tx ∈ blockTxs, lib.ContractAccepts (lib.backend programs algorithms).validator
            node₁.current.contextEssence.context tx) ↔
          ∀ tx ∈ blockTxs, lib.ContractAccepts (lib.backend programs algorithms).validator
            node₂.current.contextEssence.context tx)) := by
  have hgenesis := (h.agree hfree (Nat.zero_le _) (Nat.zero_le _)).2.genesisHash
  rw [valid_iff, valid_iff, ← hgenesis]
  exact and_congr_right_iff

/-- Two nodes with the same confirmed chain give the same verdict on a block, or
a proposal, exactly if its contract calls are accepted by their contracts on the
payload states of both nodes or of none. -/
theorem same_verdict_iff (hfree : (lib.backend programs algorithms).CollisionFree)
    {txs : List Transaction} {timestamp : Nat} {node₁ node₂ : Node}
    (h : Twins (lib.backend programs algorithms) txs timestamp node₁ node₂)
    (consensusVerifyProof : StateMap → Header → Proof → Except Consensus.ErrorKind Unit) :
    (∀ blockData : Coordinator.BlockData,
      (∀ header, blockData.header = some header →
        executionNumber header ≤ node₁.current.executedNumber ∧
          executionNumber header ≤ node₂.current.executedNumber) →
      (((node₁.verifyBlock (lib.backend programs algorithms) consensusVerifyProof blockData).isOk ↔
          (node₂.verifyBlock (lib.backend programs algorithms) consensusVerifyProof
            blockData).isOk) ↔
        ∀ header body proof, (lib.backend programs algorithms).BlockChecks
            (consensusVerifyProof node₁.current.contextEssence.metaState) node₁.db node₁.current
            blockData header body proof →
          (∀ tx ∈ body.metaTxs ++ body.payloadTxs,
            lib.Static (lib.backend programs algorithms).validator node₁.current.genesisHash tx) →
          ((∀ tx ∈ body.metaTxs ++ body.payloadTxs,
              lib.ContractAccepts (lib.backend programs algorithms).validator
                node₁.current.contextEssence.context tx) ↔
            ∀ tx ∈ body.metaTxs ++ body.payloadTxs,
              lib.ContractAccepts (lib.backend programs algorithms).validator
                node₂.current.contextEssence.context tx))) ∧
    ∀ proposal : Consensus.Proposal, proposal.executionNumber ≤ node₁.current.executedNumber →
      proposal.executionNumber ≤ node₂.current.executedNumber →
      (((node₁.verifyProposal (lib.backend programs algorithms) proposal).isOk ↔
          (node₂.verifyProposal (lib.backend programs algorithms) proposal).isOk) ↔
        ((lib.backend programs algorithms).ProposalChecks node₁.db node₁.current proposal →
          (∀ tx ∈ proposal.metaTxs ++ proposal.payloadTxs,
            lib.Static (lib.backend programs algorithms).validator node₁.current.genesisHash tx) →
          ((∀ tx ∈ proposal.metaTxs ++ proposal.payloadTxs,
              lib.ContractAccepts (lib.backend programs algorithms).validator
                node₁.current.contextEssence.context tx) ↔
            ∀ tx ∈ proposal.metaTxs ++ proposal.payloadTxs,
              lib.ContractAccepts (lib.backend programs algorithms).validator
                node₂.current.contextEssence.context tx))) := by
  constructor
  · intro blockData hexecuted
    rw [h.verifyBlock_iff hfree consensusVerifyProof hexecuted]
    refine forall₃_congr fun header body proof => imp_congr_right fun _ => ?_
    exact h.valid_congr hfree _
  · intro proposal hle₁ hle₂
    rw [h.verifyProposal_iff hfree hle₁ hle₂]
    exact imp_congr_right fun _ => h.valid_congr hfree _

end Lag

/-! A chain with contracts. Block 1 creates a contract, and only one of two nodes
has executed it. Block 2 calls the contract. -/

namespace Sample

/-- Contracts accept every call and do nothing. -/
def library : Library := Contract.Sample.library []

/-- The `init` of the system and of the contract module, for the values of their
genesis transactions. -/
def inits : Option Address → Call → Program (ModuleResult Bytes) := fun _ call =>
  match call.module, call.method with
  | "system", "init" =>
      .set (systemKey "chain_id") (some (Codec.encodeBytes [])) <|
        .set (systemKey "timestamp") (some (Codec.encodeU64 0)) <|
          .set (systemKey "max_until_gap") (some (Codec.encodeU64 20)) <|
            .set (systemKey "max_execution_gap") (some [8]) <|
              .set (systemKey "consensus") (some (Codec.encodeBytes (asBytes "poa"))) <|
                .done (.ok [])
  | "contract", "init" =>
      [maxStackHeight, initialMemoryPages, maxMemoryPages, maxShareValueLen, maxShareSize,
        maxNestDepth].foldr (fun limit next => .set limit.key (some (limit.encode none)) next)
          (.done (.ok []))
  | _, _ => .done (.error (.system (.invalidTxMethod call.method)))

def contracts : Backend := library.backend inits backend

def initTxs : List Transaction :=
  [{ witness := none
     call :=
      { module := "system"
        method := "init"
        params := Codec.encodeBytes [] ++ Codec.encodeU64 0 ++ Codec.encodeU64 20 ++ [8] ++
          Codec.encodeBytes (asBytes "poa") } },
    { witness := none
      call := { module := "contract", method := "init", params := List.replicate 6 0 } }]

/-- A call of the contract module by a user. -/
def contractTx (method : String) (params : Bytes) : Transaction where
  witness := (entryTx method 0 0).witness
  call := { module := "contract", method, params }

def createTx (code : Bytes) : Transaction :=
  contractTx "create" (Codec.encodeBytes code ++ Codec.encodeBytes (asBytes "init") ++
    Codec.encodeBytes [] ++ Codec.encodeU64 0)

/-- The address of the contract is the first byte of the hash. -/
def executeTx : Transaction :=
  contractTx "execute" (Codec.encodeBytes [1] ++ Codec.encodeBytes (asBytes "call") ++
    Codec.encodeBytes [] ++ Codec.encodeU64 0)

def contractsContext : Context :=
  Result.get (contracts.executeGenesis initTxs 0) (by decide +kernel)

def contractsState : CurrentState :=
  Result.get (contracts.updateCurrentState (contracts.genesisDB 0 contractsContext) 0)
    (by decide +kernel)

def contractsFirst : Node :=
  .start (contracts.genesisDB 0 contractsContext) contractsState
    [contracts.genesisPrepared 0 contractsContext contractsState]

def createBlock : Prepared where
  metaTxs := []
  payloadTxs := [contracts.fullTx (createTx [1])]
  state := contractsState
  params := Result.get (contracts.buildBlock contractsFirst.db
    { number := 1, timestamp := 1, metaTxs := [], payloadTxs := [contracts.fullTx (createTx [1])],
      executionNumber := 0 }) (by decide +kernel)

def committed : Node :=
  { contractsFirst with prepared := [createBlock] }.commit contracts 1 createBlock

/-- Block 1 is confirmed and not executed. -/
def waiting : Node :=
  { committed with
    current := Result.get (contracts.updateCurrentState committed.db 1) (by decide +kernel) }

/-- The task of block 1 is in the queue. -/
def queued : Node :=
  { committed with
    uninserted := committed.uninserted.erase (.ofParams createBlock.params)
    queue := committed.queue ++ [.ofParams createBlock.params] }

def processed : Node := (queued.loops contracts 3).get (by decide +kernel)

/-- Block 1 is confirmed and executed. -/
def ready : Node :=
  { processed with
    current := Result.get (contracts.updateCurrentState processed.db 1) (by decide +kernel) }

example : ready.current.executedNumber = 1 ∧ waiting.current.executedNumber = 0 := by
  decide +kernel

/-- Block 2 with these payload transactions, on the execution of the genesis. -/
def secondParams (payloadTxs : List Transaction) : BuildBlockParams where
  number := 2
  timestamp := 2
  metaTxs := []
  payloadTxs := payloadTxs.map contracts.fullTx
  executionNumber := 0

def secondProposal (payloadTxs : List Transaction) : Consensus.Proposal where
  parentHash := none
  blockHash := ((contracts.buildBlock ready.db (secondParams payloadTxs)).toOption.map
    (·.blockHash)).getD ⟨[]⟩
  number := 2
  timestamp := 2
  metaTxs := []
  payloadTxs := payloadTxs
  executionNumber := 0

theorem collisionFree_contracts : contracts.CollisionFree :=
  ⟨collisionFree.stateRoot, collisionFree.defaultHash, collisionFree.hashForHash⟩

theorem reach_committed : Reach contracts contracts.Builds initTxs 0 committed := by
  have hgenesis : Reach contracts contracts.Builds initTxs 0 contractsFirst := by
    refine .genesis (fun tx htx => ?_) (Result.eq_ok_get _ _)
      (Result.eq_ok_get _ _)
    simp only [initTxs, List.mem_cons, List.not_mem_nil, or_false] at htx
    rcases htx with rfl | rfl
    · rfl
    · rfl
  have hbuilds : contracts.Builds contractsFirst.db contractsState createBlock := by
    refine ⟨fun tx htx => ?_, rfl, _, _, Result.eq_ok_get _ _, rfl, rfl, rfl⟩
    rw [List.mem_singleton.1 htx]
    rfl
  exact .step (.step hgenesis (.prepare hbuilds)) (.commit 1 List.mem_cons_self)

theorem twins : Twins contracts initTxs 0 ready waiting := by
  have hqueued : Reach contracts contracts.Builds initTxs 0 queued :=
    .step reach_committed (.insert (by decide +kernel))
  have hprocessed : Reach contracts contracts.Builds initTxs 0 processed :=
    hqueued.loops (Option.some_get _).symm
  constructor
  case reach₁ => exact .step hprocessed (.refresh (Result.eq_ok_get _ _))
  case reach₂ => exact .step reach_committed (.refresh (Result.eq_ok_get _ _))
  case sameChain =>
    have hchain : ready.chain.map Prepared.block = waiting.chain.map Prepared.block := by
      decide +kernel
    exact hchain
  case current₁ => exact ⟨1, Result.eq_ok_get _ _⟩
  case current₂ => exact ⟨1, Result.eq_ok_get _ _⟩

end Sample

/-- The node that has executed block 1 accepts block 2, and the other one finds
no contract. -/
theorem not_same_verdict_waiting :
    ¬ ∀ (lib : Library) (programs : Option Address → Call → Program (ModuleResult Bytes))
      (algorithms : Backend) (txs : List Transaction) (timestamp : Nat) (node₁ node₂ : Node),
      (lib.backend programs algorithms).CollisionFree →
      Twins (lib.backend programs algorithms) txs timestamp node₁ node₂ →
      ∀ proposal : Consensus.Proposal, proposal.executionNumber ≤ node₁.current.executedNumber →
        proposal.executionNumber ≤ node₂.current.executedNumber →
        ((node₁.verifyProposal (lib.backend programs algorithms) proposal).isOk ↔
          (node₂.verifyProposal (lib.backend programs algorithms) proposal).isOk) := by
  intro h
  have hsame := h Sample.library Sample.inits Sample.backend Sample.initTxs 0 Sample.ready
    Sample.waiting Sample.collisionFree_contracts Sample.twins
    (Sample.secondProposal [Sample.executeTx]) (Nat.zero_le _) (Nat.zero_le _)
  revert hsame
  decide +kernel

/-- A block 2 that creates another contract. -/
theorem same_verdict_create :
    (Sample.ready.verifyProposal Sample.contracts
        (Sample.secondProposal [Sample.createTx [2]])).isOk ↔
      (Sample.waiting.verifyProposal Sample.contracts
        (Sample.secondProposal [Sample.createTx [2]])).isOk := by
  have hiff := (same_verdict_iff Sample.collisionFree_contracts Sample.twins
    (fun _ _ _ => .ok ())).2 (Sample.secondProposal [Sample.createTx [2]]) (Nat.zero_le _)
      (Nat.zero_le _)
  refine hiff.2 fun _ _ => iff_of_true ?_ ?_
  all_goals
    intro tx htx _
    obtain rfl := List.mem_singleton.1 htx
    decide +kernel

end Chain

end Finastate
