import Finastate.Chain.Lag

/-!
# The blocks that a node proposes

`prepare_block` picks the transactions of the pool for the next block and names
the execution that the node has reached. `build_block` makes the header, with
the difference of the two numbers as the gap, and the other nodes verify what
comes out of it with their own current states. The gap is an `i8`, so it is the
difference only up to multiples of 256.
-/

namespace Finastate

open Executor

namespace Chain

/-! ## The execution gap -/

/-- `get_confirmed_executed_number`. -/
def DB.getConfirmedExecutedNumber (db : DB) : Except ErrorKind (Option BlockNumber) :=
  match db.confirmedNumber with
  | none => .ok none
  | some confirmedNumber => do
      let blockHash ← orData
        ("Missing block hash: number: " ++ toString confirmedNumber)
        (db.getBlockHash confirmedNumber)
      let header ← orData (missingHeader blockHash) (db.getHeader blockHash)
      return if confirmedNumber = 0 then none
        else some (wrapSub 64 confirmedNumber (gapAsU64 header.payloadExecutionGap))

namespace Backend

theorem wrapSub_add (number d : ℕ) : wrapSub 64 (number + d) number = d % 2 ^ 64 := by
  simp only [wrapSub]
  omega

theorem executionGap_add (number d : ℕ) :
    executionGap (number + d) number = Int.bmod d (2 ^ 8) := by
  unfold executionGap
  rw [wrapSub_add]
  simp only [Int.bmod_def]
  omega

/-- The gap is the difference of the numbers if it fits into an `i8`. -/
theorem executionGap_eq_sub_iff {number executionNumber : ℕ} (h : executionNumber ≤ number) :
    executionGap number executionNumber = (number : ℤ) - executionNumber ↔
      number - executionNumber < 128 := by
  obtain ⟨d, rfl⟩ := Nat.exists_eq_add_of_le h
  rw [executionGap_add]
  simp only [Int.bmod_def]
  omega

end Backend

/-- What the gap of a new block has to be, and what the node reads from it once
the block is committed. -/
structure DB.ExactGap (db : DB) (params : BuildBlockParams) (maxExecutionGap : Int)
    (built : ChainCommitBlockParams) : Prop where
  sub : built.header.payloadExecutionGap = (params.number : ℤ) - params.executionNumber
  pos : 1 ≤ built.header.payloadExecutionGap
  le : built.header.payloadExecutionGap ≤ maxExecutionGap
  executedNumber : (db.commitBlock built).getConfirmedExecutedNumber =
    .ok (some params.executionNumber)

namespace Backend

variable {backend : Backend} {db : DB} {params : BuildBlockParams}
  {built : ChainCommitBlockParams}

theorem header_of_buildBlock (h : backend.buildBlock db params = .ok built) :
    built.header.number = params.number ∧
      built.header.payloadExecutionGap =
        executionGap params.number params.executionNumber := by
  obtain ⟨parentHash, parentHeader, execution, essence, -, hbuilt⟩ := buildBlock_eq_ok h
  obtain ⟨context, -, -, hheader, -⟩ := buildOn_eq_ok hbuilt
  constructor
  · exact congrArg Header.number hheader
  · simp only [hheader]

theorem getConfirmedExecutedNumber_commitBlock (db : DB) (built : ChainCommitBlockParams)
    (hpos : 0 < built.header.number) :
    (db.commitBlock built).getConfirmedExecutedNumber =
      .ok (some (executionNumber built.header)) := by
  have hblockHash : (db.commitBlock built).getBlockHash built.header.number =
      some built.blockHash := AssocMap.get?_insert_self ..
  have hheader : (db.commitBlock built).getHeader built.blockHash = some built.header :=
    AssocMap.get?_insert_self ..
  have hconfirmed : (db.commitBlock built).confirmedNumber = some built.header.number := rfl
  simp only [DB.getConfirmedExecutedNumber, hconfirmed]
  refine Result.bind_eq_ok.2 ⟨_, orData_eq_ok.2 hblockHash, ?_⟩
  refine Result.bind_eq_ok.2 ⟨_, orData_eq_ok.2 hheader, ?_⟩
  rw [if_neg hpos.ne']
  rfl

theorem exactGap_iff_of_buildBlock {maxExecutionGap : Int}
    (h : backend.buildBlock db params = .ok built)
    (hlt : params.executionNumber < params.number) (hnumber : params.number < 2 ^ 64)
    (hle : executionGap params.number params.executionNumber ≤ maxExecutionGap) :
    db.ExactGap params maxExecutionGap built ↔ params.number - params.executionNumber < 128 := by
  obtain ⟨hheaderNumber, hgap⟩ := header_of_buildBlock h
  rw [← executionGap_eq_sub_iff hlt.le, ← hgap]
  refine ⟨DB.ExactGap.sub, fun hsub => ?_⟩
  obtain ⟨number, timestamp, metaTxs, payloadTxs, executed⟩ := params
  obtain ⟨d, rfl⟩ : ∃ d : ℕ, number = executed + (d + 1) := Nat.exists_eq_add_of_lt hlt
  have hcast : ((executed + (d + 1) : ℕ) : ℤ) - executed = d + 1 := by omega
  simp only [hcast] at hsub
  refine ⟨by rw [hsub]; simp only [hcast], by omega, hgap ▸ hle, ?_⟩
  rw [getConfirmedExecutedNumber_commitBlock db built (by rw [hheaderNumber]; exact Nat.succ_pos _)]
  have hgapU64 : gapAsU64 ((d : ℤ) + 1) = d + 1 := by
    have hlt : (d : ℤ) + 1 < 2 ^ 64 := by
      have := lt_of_le_of_lt (Nat.le_add_left (d + 1) executed) hnumber
      omega
    simp only [gapAsU64]
    omega
  rw [executionNumber, hheaderNumber, hsub, hgapU64]
  congr 2
  change wrapSub 64 (executed + (d + 1)) (d + 1) = executed
  rw [Nat.add_comm executed, wrapSub_add]
  exact Nat.mod_eq_of_lt (lt_of_le_of_lt (Nat.le_add_right _ _) hnumber)

end Backend

/-! ## The block of the node -/

/-- The transactions of the pool as `prepare_block` sorts them. -/
structure PoolTxs where
  invalidTxs : List FullTransaction
  metaTxs : List FullTransaction
  payloadTxs : List FullTransaction
  deriving DecidableEq, Repr

namespace Backend

variable (backend : Backend) (db : DB) (state : CurrentState)

/-- Whether the transaction is invalid; what is no error of a transaction is
passed on. -/
def isInvalid (tx : FullTransaction) : Except ErrorKind Bool :=
  match backend.validateTransaction db state tx.txHash tx.tx true with
  | .ok () => .ok false
  | .error (.validateTxError _) => .ok true
  | .error e => .error e

def isMetaCall (call : Call) : Except ErrorKind Bool :=
  (backend.dispatcher.isMeta call.module).mapError fun e => .executor (.common e)

/-- The loop over the transactions of the pool. -/
def sortTxs : List FullTransaction → Except ErrorKind PoolTxs
  | [] => .ok { invalidTxs := [], metaTxs := [], payloadTxs := [] }
  | tx :: txs => do
      if ← backend.isInvalid db state tx then
        let rest ← sortTxs txs
        return { rest with invalidTxs := tx :: rest.invalidTxs }
      else if ← backend.isMetaCall tx.tx.call then
        let rest ← sortTxs txs
        return { rest with metaTxs := tx :: rest.metaTxs }
      else
        let rest ← sortTxs txs
        return { rest with payloadTxs := tx :: rest.payloadTxs }

/-- `prepare_block` for the time of the schedule: what it leaves in the pool, and
what it returns. -/
def prepareBlock (txs : List FullTransaction) (timestamp : Nat) :
    List FullTransaction × Except ErrorKind BuildBlockParams :=
  let number := state.confirmedNumber + 1
  let executionNumber := state.executedNumber
  match backend.sortTxs db state txs with
  | .error e => (txs, .error e)
  | .ok { invalidTxs, metaTxs, payloadTxs } =>
      let invalidTxHashSet := invalidTxs.map FullTransaction.txHash
      let txs := txs.filter fun tx => tx.txHash ∉ invalidTxHashSet
      let blockExecutionGap := executionGap number executionNumber
      if state.systemMeta.maxExecutionGap < blockExecutionGap then
        (txs, .error (.data (gapExceeds blockExecutionGap state.systemMeta.maxExecutionGap)))
      else (txs, .ok { number, timestamp, metaTxs, payloadTxs, executionNumber })

variable {backend db state}

theorem prepareBlock_eq_ok {txs : List FullTransaction} {timestamp : Nat}
    {params : BuildBlockParams} (h : (backend.prepareBlock db state txs timestamp).2 = .ok params) :
    ∃ poolTxs, backend.sortTxs db state txs = .ok poolTxs ∧
      executionGap (state.confirmedNumber + 1) state.executedNumber ≤
        state.systemMeta.maxExecutionGap ∧
      params =
        { number := state.confirmedNumber + 1
          timestamp
          metaTxs := poolTxs.metaTxs
          payloadTxs := poolTxs.payloadTxs
          executionNumber := state.executedNumber } := by
  rw [prepareBlock] at h
  split at h
  · cases h
  · next invalidTxs metaTxs payloadTxs hsort =>
    simp only at h
    split at h
    · cases h
    · next hle =>
      cases h
      exact ⟨_, hsort, not_lt.1 hle, rfl⟩

/-- An accepted proposal is built again, on what the tests say of its numbers. -/
theorem verifyProposal_eq_ok_iff {proposal : Consensus.Proposal} {built : ChainCommitBlockParams} :
    backend.verifyProposal db state proposal = .ok built ↔
      (db.getHeader proposal.blockHash).isSome = false ∧
      (∃ confirmedHeader,
        Consensus.Verifier.verifyBest (backend.verifierSupport db state) proposal.number
          proposal.parentHash = .ok confirmedHeader ∧
        Consensus.Verifier.verifyExecution (backend.verifierSupport db state) proposal.number
          proposal.executionNumber confirmedHeader = .ok ()) ∧
      (backend.Admits db state proposal.metaTxs ∧ backend.Valid state proposal.metaTxs) ∧
      (backend.Admits db state proposal.payloadTxs ∧ backend.Valid state proposal.payloadTxs) ∧
      backend.buildBlock db (backend.proposalParams proposal) = .ok built ∧
        built.blockHash = proposal.blockHash := by
  constructor
  · intro h
    obtain ⟨⟨⟩, hnotRepeat, h⟩ := Result.bind_eq_ok.1 h
    obtain ⟨confirmedHeader, hbest, h⟩ := Result.bind_eq_ok.1 h
    obtain ⟨⟨⟩, hexecution, h⟩ := Result.bind_eq_ok.1 h
    obtain ⟨⟨metaTxs, payloadTxs⟩, hbody, h⟩ := Result.bind_eq_ok.1 h
    obtain ⟨metaTxs', hmeta, hbody⟩ := Result.bind_eq_ok.1 hbody
    obtain ⟨payloadTxs', hpayload, hbody⟩ := Result.bind_eq_ok.1 hbody
    cases hbody
    rw [proposalTxs_eq_ok_iff] at hmeta hpayload
    obtain rfl := hmeta.eq
    obtain rfl := hpayload.eq
    exact ⟨proposalNotRepeat_eq_ok_iff.1 hnotRepeat, ⟨confirmedHeader, hbest, hexecution⟩,
      verified_iff.1 hmeta, verified_iff.1 hpayload,
      Consensus.Verifier.verifyHeader_eq_ok_iff.1 h⟩
  · rintro ⟨hnotRepeat, ⟨confirmedHeader, hbest, hexecution⟩, hmeta, hpayload, hbuilt⟩
    refine Result.bind_eq_ok.2 ⟨(), proposalNotRepeat_eq_ok_iff.2 hnotRepeat, ?_⟩
    refine Result.bind_eq_ok.2 ⟨_, hbest, Result.bind_eq_ok.2 ⟨(), hexecution, ?_⟩⟩
    refine Result.bind_eq_ok.2
      ⟨(_, _), ?_, Consensus.Verifier.verifyHeader_eq_ok_iff.2 hbuilt⟩
    exact Result.bind_eq_ok.2
      ⟨_, proposalTxs_eq_ok_iff.2 (verified_iff.2 hmeta), Result.bind_eq_ok.2
        ⟨_, proposalTxs_eq_ok_iff.2 (verified_iff.2 hpayload), rfl⟩⟩

/-- The gap of a prepared block, and that of a block of an accepted proposal, is
the number of blocks between it and its execution exactly if these are fewer
than 128. -/
theorem exactGap_iff (hle : state.executedNumber ≤ state.confirmedNumber)
    (hnumber : state.confirmedNumber + 1 < 2 ^ 64) :
    (∀ txs timestamp params built, (backend.prepareBlock db state txs timestamp).2 = .ok params →
      backend.buildBlock db params = .ok built →
      (db.ExactGap params state.systemMeta.maxExecutionGap built ↔
        state.confirmedNumber + 1 - state.executedNumber < 128)) ∧
    ∀ proposal built, backend.verifyProposal db state proposal = .ok built →
      (db.ExactGap (backend.proposalParams proposal) state.systemMeta.maxExecutionGap built ↔
        proposal.number - proposal.executionNumber < 128) := by
  constructor
  · intro txs timestamp params built hprepare hbuild
    obtain ⟨poolTxs, -, hgap, rfl⟩ := prepareBlock_eq_ok hprepare
    exact exactGap_iff_of_buildBlock hbuild (Nat.lt_succ_of_le hle) hnumber hgap
  · intro proposal built hverify
    obtain ⟨-, ⟨confirmedHeader, hbest, hexecution⟩, -, -, hbuild, -⟩ :=
      verifyProposal_eq_ok_iff.1 hverify
    obtain ⟨-, hmax, -, hexecuted⟩ := Consensus.Verifier.verifyExecution_eq_ok_iff.1 hexecution
    obtain ⟨-, hproposal, -⟩ := Consensus.Verifier.verifyBest_eq_ok_iff.1 hbest
    refine exactGap_iff_of_buildBlock hbuild ?_ ?_ hmax
    · change proposal.executionNumber < proposal.number
      rw [hproposal]
      exact Nat.lt_succ_of_le (hexecuted.trans hle)
    · change proposal.number < 2 ^ 64
      rwa [hproposal]

end Backend

/-! A chain with the widest gap there is, of 127 empty blocks after the genesis,
none of them executed. -/

namespace Sample

/-- `init` of the system module. -/
def wideInit : Program (Except CommonError OpaqueCallResult) :=
  .set (systemKey "chain_id") (some (Codec.encodeBytes [])) <|
    .set (systemKey "timestamp") (some (Codec.encodeU64 0)) <|
      .set (systemKey "max_until_gap") (some (Codec.encodeU64 20)) <|
        .set (systemKey "max_execution_gap") (some [127]) <|
          .set (systemKey "consensus") (some (Codec.encodeBytes [])) <|
            .done (.ok (.ok []))

def wideModules : Modules := { modules with executeCall := fun _ _ => wideInit }

def wide : Backend :=
  { backend with
    dispatcher := wideModules.dispatcher
    modular := wideModules.modular
    validator := wideModules.validator Executor.Sample.address fun _ _ _ => .ok true
    validates := wideModules.validator_modular _ _ }

def emptyParams (number : BlockNumber) : BuildBlockParams where
  number := number
  timestamp := number
  metaTxs := []
  payloadTxs := []
  executionNumber := 0

/-- The database after so many empty blocks. -/
def emptyBlocks (db : DB) : ℕ → DB
  | 0 => db
  | n + 1 =>
      let db := emptyBlocks db n
      match wide.buildBlock db (emptyParams (n + 1)) with
      | .error _ => db
      | .ok built => db.commitBlock built

def wideGenesis : DB :=
  wide.genesisDB 0 (Result.get (wide.executeGenesis [systemTx] 0) (by decide +kernel))

def lagging : DB := emptyBlocks wideGenesis 127

def laggingState : CurrentState :=
  Result.get (wide.updateCurrentState lagging 128) (by decide +kernel)

example : laggingState.confirmedNumber = 127 ∧ laggingState.executedNumber = 0 := by
  decide +kernel

def laggingBuilt : ChainCommitBlockParams :=
  Result.get (wide.buildBlock lagging (emptyParams 128)) (by decide +kernel)

end Sample

/-- Block 128 on the execution of the genesis has the gap -128. -/
theorem not_exactGap_lagging :
    ¬ ∀ (backend : Backend) (db : DB) (state : CurrentState),
      state.executedNumber ≤ state.confirmedNumber → state.confirmedNumber + 1 < 2 ^ 64 →
      (∀ txs timestamp params built,
        (backend.prepareBlock db state txs timestamp).2 = .ok params →
        backend.buildBlock db params = .ok built →
        db.ExactGap params state.systemMeta.maxExecutionGap built) ∧
      ∀ proposal built, backend.verifyProposal db state proposal = .ok built →
        db.ExactGap (backend.proposalParams proposal) state.systemMeta.maxExecutionGap built := by
  intro h
  have hnumbers : Sample.laggingState.executedNumber ≤ Sample.laggingState.confirmedNumber ∧
      Sample.laggingState.confirmedNumber + 1 < 2 ^ 64 := by
    decide +kernel
  have hexact := (h Sample.wide Sample.lagging Sample.laggingState hnumbers.1
    hnumbers.2).1 [] 128 (Sample.emptyParams 128) Sample.laggingBuilt
    (by decide +kernel) (Result.eq_ok_get _ _)
  have hgap : Sample.laggingBuilt.header.payloadExecutionGap = -128 := by decide +kernel
  have hpos := hexact.pos
  rw [hgap] at hpos
  exact absurd hpos (by decide)

/-- Block 1 on the execution of the genesis. -/
theorem exactGap_first :
    Sample.genesis.ExactGap (Sample.emptyParams 1) Sample.state.systemMeta.maxExecutionGap
      (Result.get (Sample.backend.buildBlock Sample.genesis (Sample.emptyParams 1))
        (by decide +kernel)) := by
  have hgap := (@Backend.exactGap_iff Sample.backend Sample.genesis Sample.state
    (by decide +kernel) (by decide +kernel)).1
  exact (hgap [] 1 (Sample.emptyParams 1) _ (by decide +kernel) (Result.eq_ok_get _ _)).2
    (by decide +kernel)

end Chain

end Finastate
