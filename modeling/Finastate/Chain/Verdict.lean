import Finastate.Chain.SameChain

/-!
# The verdict on a block

A block is accepted if it passes the tests of the verifier and the modules find
its transactions valid. The tests read the chain and the execution that the
block names, so nodes with the same chain agree on them as soon as both have this
execution. The modules read the current state, and its payload state is that of
the last block that the node has executed.
-/

namespace Finastate.Chain

open Executor

namespace Backend

variable (backend : Backend)

/-- The tests of a list of transactions other than those of the modules. -/
structure Admits (db : DB) (state : CurrentState) (txs : List Transaction) : Prop where
  untilNumber : ∀ tx ∈ txs, validateUntil state tx = .ok ()
  fresh : ∀ tx ∈ txs, db.getTransaction (backend.hashTransaction tx) = none
  nodup : (txs.map backend.hashTransaction).Nodup

/-- The modules find the transactions valid. -/
def Valid (state : CurrentState) (txs : List Transaction) : Prop :=
  ∀ tx ∈ txs, (backend.validator.validateTx state.genesisHash state.contextEssence.context tx
    true).2 = .ok ()

variable {backend} {db : DB} {state : CurrentState}

theorem valid_append {txs txs' : List Transaction} :
    backend.Valid state (txs ++ txs') ↔ backend.Valid state txs ∧ backend.Valid state txs' := by
  simp [Valid, or_imp, forall_and]

theorem validateTransaction_eq_ok_iff {txHash : Hash} {tx : Transaction} :
    backend.validateTransaction db state txHash tx true = .ok () ↔
      validateUntil state tx = .ok () ∧ db.getTransaction txHash = none ∧
        (backend.validator.validateTx state.genesisHash state.contextEssence.context tx
          true).2 = .ok () := by
  unfold validateTransaction
  generalize (backend.validator.validateTx state.genesisHash state.contextEssence.context tx
    true).2 = result
  cases validateUntil state tx with
  | error e => simp [bind, Except.bind]
  | ok u =>
      cases db.getTransaction txHash with
      | some stored => simp [bind, Except.bind]
      | none =>
          cases result with
          | error e => simp [bind, Except.bind, Except.mapError]
          | ok u => simp [bind, Except.bind, Except.mapError]

theorem verified_iff {txs : List Transaction} :
    backend.Verified db state txs [] (txs.map backend.fullTx) ↔
      backend.Admits db state txs ∧ backend.Valid state txs := by
  constructor
  · intro h
    have hvalid := fun tx htx => validateTransaction_eq_ok_iff.1 (h.valid tx htx)
    exact ⟨⟨fun tx htx => (hvalid tx htx).1, fun tx htx => (hvalid tx htx).2.1, h.nodup⟩,
      fun tx htx => (hvalid tx htx).2.2⟩
  · rintro ⟨hadmits, hvalid⟩
    refine ⟨rfl, fun tx htx => ?_, nofun, hadmits.nodup⟩
    exact validateTransaction_eq_ok_iff.2
      ⟨hadmits.untilNumber tx htx, hadmits.fresh tx htx, hvalid tx htx⟩

theorem Verified.of_cons {tx : Transaction} {txs : List Transaction} {set : List Hash}
    {verified : List FullTransaction} (h : backend.Verified db state (tx :: txs) set verified) :
    backend.hashTransaction tx ∉ set ∧
      backend.validateTransaction db state (backend.hashTransaction tx) tx true = .ok () ∧
      backend.Verified db state txs (backend.hashTransaction tx :: set)
        (txs.map backend.fullTx) := by
  obtain ⟨hnot, hnodup⟩ := List.nodup_cons.1 (List.map_cons ▸ h.nodup)
  refine ⟨h.fresh tx List.mem_cons_self, h.valid tx List.mem_cons_self, rfl, ?_, ?_, hnodup⟩
  · exact fun tx' htx' => h.valid tx' (List.mem_cons_of_mem _ htx')
  · intro tx' htx' hmem
    rcases List.mem_cons.1 hmem with heq | hmem
    · exact hnot (heq ▸ List.mem_map_of_mem htx')
    · exact h.fresh tx' (List.mem_cons_of_mem _ htx') hmem

theorem getVerifiedTxs_eq_ok_iff
    {consensusVerifyProof : Header → Proof → Except Consensus.ErrorKind Unit}
    {txs : List Transaction} {set : List Hash} {verified : List FullTransaction} :
    Coordinator.getVerifiedTxs (backend.coordinatorSupport consensusVerifyProof db state) txs set =
        .ok verified ↔ backend.Verified db state txs set verified := by
  refine ⟨verified_of_getVerifiedTxs, fun h => ?_⟩
  obtain rfl := h.eq
  induction txs generalizing set with
  | nil => rfl
  | cons tx txs ih =>
      obtain ⟨hset, hvalid, hrest⟩ := h.of_cons
      refine Result.bind_eq_ok.2 ⟨backend.hashTransaction tx :: set, ?_, ?_⟩
      · simp only [Coordinator.verifyTransaction, coordinatorSupport, if_neg hset, hvalid]
      · exact Result.bind_eq_ok.2 ⟨_, ih hrest, rfl⟩

theorem proposalTxs_eq_ok_iff {txs : List Transaction} {set : List Hash}
    {verified : List FullTransaction} :
    Consensus.Verifier.getVerifiedTxs (backend.verifierSupport db state) txs set =
        .ok verified ↔
      backend.Verified db state txs set verified := by
  refine ⟨verified_of_proposalTxs, fun h => ?_⟩
  obtain rfl := h.eq
  induction txs generalizing set with
  | nil => rfl
  | cons tx txs ih =>
      obtain ⟨hset, hvalid, hrest⟩ := h.of_cons
      refine Result.bind_eq_ok.2 ⟨backend.hashTransaction tx :: set, ?_, ?_⟩
      · simp only [Consensus.Verifier.verifyTransaction, verifierSupport, if_neg hset, hvalid]
      · exact Result.bind_eq_ok.2 ⟨_, ih hrest, rfl⟩

end Backend

/-! ## The tests of the verifiers -/

theorem isOk_iff {ε α : Type} {x : Except ε α} : x.isOk = true ↔ ∃ a, x = .ok a := by
  cases x with
  | error e => simp [Except.isOk, Except.toBool]
  | ok a => simp [Except.isOk, Except.toBool]

namespace Backend

section Checks

variable (backend : Backend) (consensusVerifyProof : Header → Proof → Except Consensus.ErrorKind Unit)
  (db : DB) (state : CurrentState)

/-- The parameters with which `verify_header` builds the block again. -/
def headerParams (header : Header) (body : Coordinator.BodyData) : BuildBlockParams where
  number := header.number
  timestamp := header.timestamp
  metaTxs := body.metaTxs.map backend.fullTx
  payloadTxs := body.payloadTxs.map backend.fullTx
  executionNumber := wrapSub 64 header.number (gapAsU64 header.payloadExecutionGap)

/-- The tests of `verify_block` other than those of the modules. -/
structure BlockChecks (blockData : Coordinator.BlockData) (header : Header)
    (body : Coordinator.BodyData) (proof : Proof) : Prop where
  data : Coordinator.verifyData blockData = .ok (header, body, proof)
  notRepeat : (db.getHeader blockData.blockHash).isSome = false
  best : ∃ confirmedHeader,
    Coordinator.verifyBest (backend.coordinatorSupport consensusVerifyProof db state) header =
        .ok confirmedHeader ∧
      Coordinator.verifyExecution (backend.coordinatorSupport consensusVerifyProof db state) header
        confirmedHeader = .ok ()
  proof : consensusVerifyProof header proof = .ok ()
  metaTxs : backend.Admits db state body.metaTxs
  payloadTxs : backend.Admits db state body.payloadTxs
  header : ∃ built, backend.buildBlock db (backend.headerParams header body) = .ok built ∧
    built.header = header

/-- The parameters with which a proposal is built again. -/
def proposalParams (proposal : Consensus.Proposal) : BuildBlockParams where
  number := proposal.number
  timestamp := proposal.timestamp
  metaTxs := proposal.metaTxs.map backend.fullTx
  payloadTxs := proposal.payloadTxs.map backend.fullTx
  executionNumber := proposal.executionNumber

/-- The tests of `verify_proposal` other than those of the modules. -/
structure ProposalChecks (proposal : Consensus.Proposal) : Prop where
  notRepeat : (db.getHeader proposal.blockHash).isSome = false
  best : ∃ confirmedHeader,
    Consensus.Verifier.verifyBest (backend.verifierSupport db state) proposal.number
        proposal.parentHash = .ok confirmedHeader ∧
      Consensus.Verifier.verifyExecution (backend.verifierSupport db state) proposal.number
        proposal.executionNumber confirmedHeader = .ok ()
  metaTxs : backend.Admits db state proposal.metaTxs
  payloadTxs : backend.Admits db state proposal.payloadTxs
  header : ∃ built, backend.buildBlock db (backend.proposalParams proposal) = .ok built ∧
    built.blockHash = proposal.blockHash

end Checks

variable {backend : Backend} {db : DB} {state : CurrentState}

theorem verifyNotRepeat_eq_ok_iff
    {consensusVerifyProof : Header → Proof → Except Consensus.ErrorKind Unit} {blockHash : Hash} :
    Coordinator.verifyNotRepeat (backend.coordinatorSupport consensusVerifyProof db state)
        blockHash = .ok () ↔ (db.getHeader blockHash).isSome = false := by
  by_cases hsome : (db.getHeader blockHash).isSome = true
  · have herror : Coordinator.verifyNotRepeat
        (backend.coordinatorSupport consensusVerifyProof db state) blockHash =
          .error (.verifyError .duplicated) := if_pos hsome
    simp [herror, hsome]
  · have hok : Coordinator.verifyNotRepeat
        (backend.coordinatorSupport consensusVerifyProof db state) blockHash = .ok () :=
      if_neg hsome
    simp [hok, hsome]

theorem proposalNotRepeat_eq_ok_iff {blockHash : Hash} :
    Consensus.Verifier.verifyNotRepeat (backend.verifierSupport db state) blockHash = .ok () ↔
      (db.getHeader blockHash).isSome = false := by
  rw [Consensus.Verifier.verifyNotRepeat_eq_ok_iff, Option.isSome_eq_false_iff,
    Option.isNone_iff_eq_none]
  rfl

theorem isOk_verifyHeader_iff {header : Header} {body : Coordinator.BodyData} {proof : Proof} :
    (∃ params, backend.verifyHeader db header proof (body.metaTxs.map backend.fullTx)
      (body.payloadTxs.map backend.fullTx) = .ok params) ↔
    ∃ built, backend.buildBlock db (backend.headerParams header body) = .ok built ∧
      built.header = header := by
  simp only [verifyHeader, headerParams]
  generalize backend.buildBlock db _ = out
  cases out with
  | error e => simp
  | ok built =>
      by_cases hheader : built.header = header
      · simp [hheader]
      · simp [hheader]

/-- A block is accepted if it passes the tests and its transactions are valid. -/
theorem isOk_verifyBlock_iff
    {consensusVerifyProof : Header → Proof → Except Consensus.ErrorKind Unit}
    {blockData : Coordinator.BlockData} :
    (backend.verifyBlock consensusVerifyProof db state blockData).isOk ↔
      ∃ header body proof,
        backend.BlockChecks consensusVerifyProof db state blockData header body proof ∧
          backend.Valid state (body.metaTxs ++ body.payloadTxs) := by
  rw [isOk_iff]
  constructor
  · rintro ⟨params, h⟩
    obtain ⟨⟨header, body, proof⟩, hdata, h⟩ := Result.bind_eq_ok.1 h
    obtain ⟨⟨⟩, hnotRepeat, h⟩ := Result.bind_eq_ok.1 h
    obtain ⟨confirmedHeader, hbest, h⟩ := Result.bind_eq_ok.1 h
    obtain ⟨⟨⟩, hexecution, h⟩ := Result.bind_eq_ok.1 h
    obtain ⟨⟨⟩, hproof, h⟩ := Result.bind_eq_ok.1 h
    obtain ⟨⟨metaTxs, payloadTxs⟩, hbody, h⟩ := Result.bind_eq_ok.1 h
    obtain ⟨metaTxs', hmeta, hbody⟩ := Result.bind_eq_ok.1 hbody
    obtain ⟨payloadTxs', hpayload, hbody⟩ := Result.bind_eq_ok.1 hbody
    cases hbody
    rw [getVerifiedTxs_eq_ok_iff] at hmeta hpayload
    obtain rfl := hmeta.eq
    obtain rfl := hpayload.eq
    obtain ⟨hadmitsMeta, hvalidMeta⟩ := verified_iff.1 hmeta
    obtain ⟨hadmitsPayload, hvalidPayload⟩ := verified_iff.1 hpayload
    refine ⟨header, body, proof, ?_, valid_append.2 ⟨hvalidMeta, hvalidPayload⟩⟩
    exact ⟨hdata, verifyNotRepeat_eq_ok_iff.1 hnotRepeat, ⟨confirmedHeader, hbest, hexecution⟩,
      (Coordinator.verifyProof_eq_ok_iff _ _ _).1 hproof, hadmitsMeta, hadmitsPayload,
      isOk_verifyHeader_iff.1 ⟨params, h⟩⟩
  · rintro ⟨header, body, proof, hchecks, hvalid⟩
    obtain ⟨confirmedHeader, hbest, hexecution⟩ := hchecks.best
    obtain ⟨hvalidMeta, hvalidPayload⟩ := valid_append.1 hvalid
    obtain ⟨params, hheader⟩ := (@isOk_verifyHeader_iff _ _ _ _ proof).2 hchecks.header
    refine ⟨params, Result.bind_eq_ok.2 ⟨_, hchecks.data, ?_⟩⟩
    refine Result.bind_eq_ok.2 ⟨(), verifyNotRepeat_eq_ok_iff.2 hchecks.notRepeat, ?_⟩
    refine Result.bind_eq_ok.2 ⟨_, hbest, Result.bind_eq_ok.2 ⟨(), hexecution, ?_⟩⟩
    refine Result.bind_eq_ok.2
      ⟨(), (Coordinator.verifyProof_eq_ok_iff _ _ _).2 hchecks.proof, ?_⟩
    refine Result.bind_eq_ok.2 ⟨(_, _), ?_, hheader⟩
    exact Result.bind_eq_ok.2
      ⟨_, getVerifiedTxs_eq_ok_iff.2 (verified_iff.2 ⟨hchecks.metaTxs, hvalidMeta⟩),
        Result.bind_eq_ok.2
          ⟨_, getVerifiedTxs_eq_ok_iff.2 (verified_iff.2 ⟨hchecks.payloadTxs, hvalidPayload⟩),
            rfl⟩⟩

theorem isOk_verifyProposal_iff {proposal : Consensus.Proposal} :
    (backend.verifyProposal db state proposal).isOk ↔
      backend.ProposalChecks db state proposal ∧
        backend.Valid state (proposal.metaTxs ++ proposal.payloadTxs) := by
  rw [isOk_iff]
  constructor
  · rintro ⟨params, h⟩
    obtain ⟨⟨⟩, hnotRepeat, h⟩ := Result.bind_eq_ok.1 h
    obtain ⟨confirmedHeader, hbest, h⟩ := Result.bind_eq_ok.1 h
    obtain ⟨⟨⟩, hexecution, h⟩ := Result.bind_eq_ok.1 h
    obtain ⟨⟨metaTxs, payloadTxs⟩, hbody, h⟩ := Result.bind_eq_ok.1 h
    obtain ⟨metaTxs', hmeta, hbody⟩ := Result.bind_eq_ok.1 hbody
    obtain ⟨payloadTxs', hpayload, hbody⟩ := Result.bind_eq_ok.1 hbody
    cases hbody
    rw [proposalTxs_eq_ok_iff] at hmeta hpayload
    obtain rfl := hmeta.eq
    obtain rfl := hpayload.eq
    obtain ⟨hadmitsMeta, hvalidMeta⟩ := verified_iff.1 hmeta
    obtain ⟨hadmitsPayload, hvalidPayload⟩ := verified_iff.1 hpayload
    exact ⟨⟨proposalNotRepeat_eq_ok_iff.1 hnotRepeat, ⟨confirmedHeader, hbest, hexecution⟩,
      hadmitsMeta, hadmitsPayload, params, Consensus.Verifier.verifyHeader_eq_ok_iff.1 h⟩,
      valid_append.2 ⟨hvalidMeta, hvalidPayload⟩⟩
  · rintro ⟨hchecks, hvalid⟩
    obtain ⟨confirmedHeader, hbest, hexecution⟩ := hchecks.best
    obtain ⟨hvalidMeta, hvalidPayload⟩ := valid_append.1 hvalid
    obtain ⟨params, hbuilt⟩ := hchecks.header
    have hheader : Consensus.Verifier.verifyHeader (backend.verifierSupport db state)
        proposal.blockHash (backend.proposalParams proposal) = .ok params :=
      Consensus.Verifier.verifyHeader_eq_ok_iff.2 hbuilt
    refine ⟨params, Result.bind_eq_ok.2
      ⟨(), proposalNotRepeat_eq_ok_iff.2 hchecks.notRepeat, ?_⟩⟩
    refine Result.bind_eq_ok.2 ⟨_, hbest, Result.bind_eq_ok.2 ⟨(), hexecution, ?_⟩⟩
    refine Result.bind_eq_ok.2 ⟨(_, _), ?_, hheader⟩
    exact Result.bind_eq_ok.2
      ⟨_, proposalTxs_eq_ok_iff.2 (verified_iff.2 ⟨hchecks.metaTxs, hvalidMeta⟩),
        Result.bind_eq_ok.2
          ⟨_, proposalTxs_eq_ok_iff.2 (verified_iff.2 ⟨hchecks.payloadTxs, hvalidPayload⟩), rfl⟩⟩

end Backend

/-! ## Two nodes -/

theorem DB.Agree.buildBlock {backend : Backend} {db₁ db₂ : DB} {executed : BlockNumber}
    (h : db₁.Agree backend db₂ executed) {params : BuildBlockParams}
    (hle : params.executionNumber ≤ executed) :
    backend.buildBlock db₁ params = backend.buildBlock db₂ params := by
  simp only [Backend.buildBlock, bind, ← h.blockHash, ← h.header]
  cases hparentHash : db₁.getBlockHash (wrapSub 64 params.number 1) with
  | none => rfl
  | some parentHash =>
      cases hparent : db₁.getHeader parentHash with
      | none => simp only [orData, Except.bind, hparent]
      | some parent =>
          cases hexecutionHash : db₁.getBlockHash params.executionNumber with
          | none => simp only [orData, Except.bind, hparent]
          | some executionHash =>
              have hsame := h.execution _ _ hle hexecutionHash
              cases hexecution : db₁.getExecution executionHash with
              | none => simp only [orData, Except.bind, hparent, ← hsame, hexecution]
              | some execution =>
                  simp only [orData, Except.bind, hparent, ← hsame, hexecution,
                    Backend.contextEssence, bind, h.metaState _ _ hparent,
                    h.payloadState _ _ _ hle hexecutionHash hexecution]

/-- What `update_current_state` has read of the chain. -/
structure Backend.Updated (backend : Backend) (db : DB) (state : CurrentState) : Prop where
  confirmedNumber : db.confirmedNumber = some state.confirmedNumber
  confirmedBlockHash : db.getBlockHash state.confirmedNumber = some state.confirmedBlockHash
  metaState : ∃ header, db.getHeader state.confirmedBlockHash = some header ∧
    backend.prepareGet db.metaState header.metaStateRoot = .ok state.contextEssence.metaState
  executedNumber : db.executionNumber = some state.executedNumber
  systemMeta : getMeta state.contextEssence.metaState = .ok state.systemMeta
  genesisHash : db.getBlockHash 0 = some state.genesisHash

theorem Backend.updated_of_updateCurrentState {backend : Backend} {db : DB} {now : Nat}
    {state : CurrentState} (h : backend.updateCurrentState db now = .ok state) :
    backend.Updated db state := by
  obtain ⟨number, hnumber, h⟩ := Result.bind_eq_ok.1 h
  obtain ⟨blockHash, hblockHash, h⟩ := Result.bind_eq_ok.1 h
  obtain ⟨header, hheader, h⟩ := Result.bind_eq_ok.1 h
  obtain ⟨executedNumber, hexecutedNumber, h⟩ := Result.bind_eq_ok.1 h
  obtain ⟨executedBlockHash, -, h⟩ := Result.bind_eq_ok.1 h
  obtain ⟨execution, -, h⟩ := Result.bind_eq_ok.1 h
  obtain ⟨essence, hessence, h⟩ := Result.bind_eq_ok.1 h
  obtain ⟨systemMeta, hsystemMeta, h⟩ := Result.bind_eq_ok.1 h
  obtain ⟨genesisHash, hgenesisHash, h⟩ := Result.bind_eq_ok.1 h
  obtain ⟨-, hmetaState, -⟩ := contextEssence_eq_ok hessence
  rw [orData_eq_ok] at hnumber hblockHash hheader hexecutedNumber hgenesisHash
  cases h
  exact ⟨hnumber, hblockHash, ⟨header, hheader, hmetaState⟩, hexecutedNumber, hsystemMeta,
    hgenesisHash⟩

/-- The states agree on the chain. -/
structure CurrentState.Agree (state₁ state₂ : CurrentState) : Prop where
  confirmedNumber : state₁.confirmedNumber = state₂.confirmedNumber
  confirmedBlockHash : state₁.confirmedBlockHash = state₂.confirmedBlockHash
  metaState : state₁.contextEssence.metaState = state₂.contextEssence.metaState
  systemMeta : state₁.systemMeta = state₂.systemMeta
  genesisHash : state₁.genesisHash = state₂.genesisHash

theorem DB.Agree.state {backend : Backend} {db₁ db₂ : DB} {executed : BlockNumber}
    (h : db₁.Agree backend db₂ executed) {state₁ state₂ : CurrentState}
    (h₁ : backend.Updated db₁ state₁) (h₂ : backend.Updated db₂ state₂) :
    state₁.Agree state₂ := by
  have hnumber : state₁.confirmedNumber = state₂.confirmedNumber := by
    apply Option.some.inj
    rw [← h₁.confirmedNumber, h.confirmedNumber, h₂.confirmedNumber]
  have hhash : state₁.confirmedBlockHash = state₂.confirmedBlockHash := by
    apply Option.some.inj
    rw [← h₁.confirmedBlockHash, h.blockHash, hnumber, h₂.confirmedBlockHash]
  have hmetaState : state₁.contextEssence.metaState = state₂.contextEssence.metaState := by
    obtain ⟨header₁, hheader₁, hmeta₁⟩ := h₁.metaState
    obtain ⟨header₂, hheader₂, hmeta₂⟩ := h₂.metaState
    have hmeta := h.metaState _ _ hheader₁
    rw [h.header, hhash, hheader₂] at hheader₁
    obtain rfl := Option.some.inj hheader₁
    exact Except.ok.inj (hmeta₁.symm.trans (hmeta.trans hmeta₂))
  constructor
  case confirmedNumber => exact hnumber
  case confirmedBlockHash => exact hhash
  case metaState => exact hmetaState
  case systemMeta =>
    have hsystemMeta := h₁.systemMeta
    rw [hmetaState, h₂.systemMeta] at hsystemMeta
    exact (Except.ok.inj hsystemMeta).symm
  case genesisHash =>
    apply Option.some.inj
    rw [← h₁.genesisHash, h.blockHash, h₂.genesisHash]

namespace Backend

variable {backend : Backend} {db₁ db₂ : DB} {state₁ state₂ : CurrentState}
  {executed : BlockNumber}

theorem validateUntil_congr (h : state₁.Agree state₂) (tx : Transaction) :
    validateUntil state₁ tx = validateUntil state₂ tx := by
  simp only [validateUntil, h.confirmedNumber, h.systemMeta]

theorem Admits.of_agree (h : db₁.Agree backend db₂ executed) (hstate : state₁.Agree state₂)
    {txs : List Transaction} (hadmits : backend.Admits db₁ state₁ txs) :
    backend.Admits db₂ state₂ txs := by
  refine ⟨fun tx htx => ?_, fun tx htx => ?_, hadmits.nodup⟩
  · rw [← validateUntil_congr hstate]
    exact hadmits.untilNumber tx htx
  · have hfresh := h.tx (backend.hashTransaction tx)
    rw [hadmits.fresh tx htx] at hfresh
    simpa using hfresh.symm

theorem verifyBest_congr (h : db₁.Agree backend db₂ executed) (hstate : state₁.Agree state₂)
    (consensusVerifyProof₁ consensusVerifyProof₂ : Header → Proof → Except Consensus.ErrorKind Unit)
    (header : Header) :
    Coordinator.verifyBest (backend.coordinatorSupport consensusVerifyProof₁ db₁ state₁) header =
      Coordinator.verifyBest (backend.coordinatorSupport consensusVerifyProof₂ db₂ state₂)
        header := by
  simp only [Coordinator.verifyBest, coordinatorSupport, h.header, hstate.confirmedNumber,
    hstate.confirmedBlockHash]
  rfl

theorem verifyExecution_congr (hstate : state₁.Agree state₂)
    (consensusVerifyProof₁ consensusVerifyProof₂ : Header → Proof → Except Consensus.ErrorKind Unit)
    {header : Header}
    (hle₁ : wrapSub 64 header.number (gapAsU64 header.payloadExecutionGap) ≤
      state₁.executedNumber)
    (hle₂ : wrapSub 64 header.number (gapAsU64 header.payloadExecutionGap) ≤
      state₂.executedNumber) (confirmedHeader : Header) :
    Coordinator.verifyExecution (backend.coordinatorSupport consensusVerifyProof₁ db₁ state₁)
        header confirmedHeader =
      Coordinator.verifyExecution (backend.coordinatorSupport consensusVerifyProof₂ db₂ state₂)
        header confirmedHeader := by
  have hmax : (backend.coordinatorSupport consensusVerifyProof₁ db₁
        state₁).currentState.maxExecutionGap =
      (backend.coordinatorSupport consensusVerifyProof₂ db₂ state₂).currentState.maxExecutionGap :=
    congrArg Meta.maxExecutionGap hstate.systemMeta
  have hready₁ : ¬(backend.coordinatorSupport consensusVerifyProof₁ db₁
        state₁).currentState.executedNumber <
      wrapSub 64 header.number (gapAsU64 header.payloadExecutionGap) := not_lt.2 hle₁
  have hready₂ : ¬(backend.coordinatorSupport consensusVerifyProof₂ db₂
        state₂).currentState.executedNumber <
      wrapSub 64 header.number (gapAsU64 header.payloadExecutionGap) := not_lt.2 hle₂
  simp only [Coordinator.verifyExecution, hmax, if_neg hready₁, if_neg hready₂]

theorem BlockChecks.of_agree
    {consensusVerifyProof : Header → Proof → Except Consensus.ErrorKind Unit}
    {blockData : Coordinator.BlockData} {header : Header} {body : Coordinator.BodyData}
    {proof : Proof}
    (h : db₁.Agree backend db₂
      (wrapSub 64 header.number (gapAsU64 header.payloadExecutionGap)))
    (hstate : state₁.Agree state₂)
    (hle₁ : wrapSub 64 header.number (gapAsU64 header.payloadExecutionGap) ≤
      state₁.executedNumber)
    (hle₂ : wrapSub 64 header.number (gapAsU64 header.payloadExecutionGap) ≤
      state₂.executedNumber)
    (hchecks : backend.BlockChecks consensusVerifyProof db₁ state₁ blockData header body proof) :
    backend.BlockChecks consensusVerifyProof db₂ state₂ blockData header body proof := by
  constructor
  case data => exact hchecks.data
  case notRepeat =>
    rw [← h.header]
    exact hchecks.notRepeat
  case best =>
    obtain ⟨confirmedHeader, hbest, hexecution⟩ := hchecks.best
    refine ⟨confirmedHeader, ?_, ?_⟩
    · rw [← verifyBest_congr h hstate consensusVerifyProof consensusVerifyProof]
      exact hbest
    · rw [← verifyExecution_congr hstate consensusVerifyProof consensusVerifyProof hle₁ hle₂]
      exact hexecution
  case proof => exact hchecks.proof
  case metaTxs => exact hchecks.metaTxs.of_agree h hstate
  case payloadTxs => exact hchecks.payloadTxs.of_agree h hstate
  case header =>
    rw [← h.buildBlock (le_refl _)]
    exact hchecks.header

theorem ProposalChecks.of_agree {proposal : Consensus.Proposal}
    (h : db₁.Agree backend db₂ proposal.executionNumber) (hstate : state₁.Agree state₂)
    (hle₁ : proposal.executionNumber ≤ state₁.executedNumber)
    (hle₂ : proposal.executionNumber ≤ state₂.executedNumber)
    (hchecks : backend.ProposalChecks db₁ state₁ proposal) :
    backend.ProposalChecks db₂ state₂ proposal := by
  constructor
  case notRepeat =>
    rw [← h.header]
    exact hchecks.notRepeat
  case best =>
    obtain ⟨confirmedHeader, hbest, hexecution⟩ := hchecks.best
    refine ⟨confirmedHeader, ?_, ?_⟩
    · rw [← hbest]
      exact Consensus.Verifier.verifyBest_congr hstate.confirmedNumber.symm
        hstate.confirmedBlockHash.symm (h.header _).symm
    · rw [← hexecution]
      exact Consensus.Verifier.verifyExecution_congr
        (congrArg Meta.maxExecutionGap hstate.systemMeta).symm (iff_of_true hle₂ hle₁)
  case metaTxs => exact hchecks.metaTxs.of_agree h hstate
  case payloadTxs => exact hchecks.payloadTxs.of_agree h hstate
  case header =>
    rw [← h.buildBlock (le_refl _)]
    exact hchecks.header

end Backend

/-- `verify_block` of a node. The authorities of the consensus are in its meta
state. -/
def Node.verifyBlock (node : Node) (backend : Backend)
    (consensusVerifyProof : StateMap → Header → Proof → Except Consensus.ErrorKind Unit)
    (blockData : Coordinator.BlockData) : Except Coordinator.ErrorKind ChainCommitBlockParams :=
  backend.verifyBlock (consensusVerifyProof node.current.contextEssence.metaState) node.db
    node.current blockData

def Node.verifyProposal (node : Node) (backend : Backend) (proposal : Consensus.Proposal) :
    Except Consensus.ProposalError ChainCommitBlockParams :=
  backend.verifyProposal node.db node.current proposal

/-- The number of the execution that a header names. -/
def executionNumber (header : Header) : BlockNumber :=
  wrapSub 64 header.number (gapAsU64 header.payloadExecutionGap)

/-- Two nodes from one genesis with the same confirmed chain, each with the
current state of its database. -/
structure Twins (backend : Backend) (txs : List Transaction) (timestamp : Nat)
    (node₁ node₂ : Node) : Prop where
  reach₁ : Reach backend backend.Builds txs timestamp node₁
  reach₂ : Reach backend backend.Builds txs timestamp node₂
  sameChain : node₁.SameChain node₂
  current₁ : ∃ now, backend.updateCurrentState node₁.db now = .ok node₁.current
  current₂ : ∃ now, backend.updateCurrentState node₂.db now = .ok node₂.current

namespace Twins

variable {backend : Backend} {txs : List Transaction} {timestamp : Nat} {node₁ node₂ : Node}

theorem symm (h : Twins backend txs timestamp node₁ node₂) :
    Twins backend txs timestamp node₂ node₁ :=
  ⟨h.reach₂, h.reach₁, h.sameChain.symm, h.current₂, h.current₁⟩

theorem agree (h : Twins backend txs timestamp node₁ node₂) (hfree : backend.CollisionFree)
    {executed : BlockNumber} (hle₁ : executed ≤ node₁.current.executedNumber)
    (hle₂ : executed ≤ node₂.current.executedNumber) :
    node₁.db.Agree backend node₂.db executed ∧ node₁.current.Agree node₂.current := by
  obtain ⟨now₁, hcurrent₁⟩ := h.current₁
  obtain ⟨now₂, hcurrent₂⟩ := h.current₂
  have hupdated₁ := Backend.updated_of_updateCurrentState hcurrent₁
  have hupdated₂ := Backend.updated_of_updateCurrentState hcurrent₂
  have hagree := h.sameChain.agree hfree h.reach₁ h.reach₂ hupdated₁.executedNumber
    hupdated₂.executedNumber hle₁ hle₂
  exact ⟨hagree, hagree.state hupdated₁ hupdated₂⟩

theorem blockChecks (h : Twins backend txs timestamp node₁ node₂) (hfree : backend.CollisionFree)
    {consensusVerifyProof : StateMap → Header → Proof → Except Consensus.ErrorKind Unit}
    {blockData : Coordinator.BlockData} {header : Header} {body : Coordinator.BodyData}
    {proof : Proof} (hle₁ : executionNumber header ≤ node₁.current.executedNumber)
    (hle₂ : executionNumber header ≤ node₂.current.executedNumber)
    (hchecks : backend.BlockChecks (consensusVerifyProof node₁.current.contextEssence.metaState)
      node₁.db node₁.current blockData header body proof) :
    backend.BlockChecks (consensusVerifyProof node₂.current.contextEssence.metaState)
      node₂.db node₂.current blockData header body proof := by
  obtain ⟨hagree, hstate⟩ := h.agree hfree hle₁ hle₂
  rw [← hstate.metaState]
  exact hchecks.of_agree hagree hstate hle₁ hle₂

theorem proposalChecks (h : Twins backend txs timestamp node₁ node₂)
    (hfree : backend.CollisionFree) {proposal : Consensus.Proposal}
    (hle₁ : proposal.executionNumber ≤ node₁.current.executedNumber)
    (hle₂ : proposal.executionNumber ≤ node₂.current.executedNumber)
    (hchecks : backend.ProposalChecks node₁.db node₁.current proposal) :
    backend.ProposalChecks node₂.db node₂.current proposal := by
  obtain ⟨hagree, hstate⟩ := h.agree hfree hle₁ hle₂
  exact hchecks.of_agree hagree hstate hle₁ hle₂

/-- The nodes differ on a block only through what the modules find of its
transactions. -/
theorem verifyBlock_iff (h : Twins backend txs timestamp node₁ node₂)
    (hfree : backend.CollisionFree)
    (consensusVerifyProof : StateMap → Header → Proof → Except Consensus.ErrorKind Unit)
    {blockData : Coordinator.BlockData}
    (hexecuted : ∀ header, blockData.header = some header →
      executionNumber header ≤ node₁.current.executedNumber ∧
        executionNumber header ≤ node₂.current.executedNumber) :
    ((node₁.verifyBlock backend consensusVerifyProof blockData).isOk ↔
        (node₂.verifyBlock backend consensusVerifyProof blockData).isOk) ↔
      ∀ header body proof, backend.BlockChecks
          (consensusVerifyProof node₁.current.contextEssence.metaState) node₁.db node₁.current
          blockData header body proof →
        (backend.Valid node₁.current (body.metaTxs ++ body.payloadTxs) ↔
          backend.Valid node₂.current (body.metaTxs ++ body.payloadTxs)) := by
  have hdata : ∀ {header body proof},
      Coordinator.verifyData blockData = .ok (header, body, proof) →
        blockData.header = some header := by
    intro header body proof hdata
    unfold Coordinator.verifyData at hdata
    split at hdata
    · next hheader _ _ =>
      cases hdata
      exact hheader
    · cases hdata
  have hsame : ∀ {header body proof header' body' proof'},
      Coordinator.verifyData blockData = .ok (header, body, proof) →
        Coordinator.verifyData blockData = .ok (header', body', proof') → body' = body := by
    intro header body proof header' body' proof' hdata hdata'
    obtain ⟨-, hrest⟩ := Prod.mk.inj (Except.ok.inj (hdata'.symm.trans hdata))
    exact (Prod.mk.inj hrest).1
  rw [Node.verifyBlock, Node.verifyBlock, Backend.isOk_verifyBlock_iff,
    Backend.isOk_verifyBlock_iff]
  constructor
  · intro hiff header body proof hchecks
    obtain ⟨hle₁, hle₂⟩ := hexecuted header (hdata hchecks.data)
    constructor
    · intro hvalid
      obtain ⟨header', body', proof', hchecks', hvalid'⟩ :=
        hiff.1 ⟨header, body, proof, hchecks, hvalid⟩
      rwa [hsame hchecks.data hchecks'.data] at hvalid'
    · intro hvalid
      obtain ⟨header', body', proof', hchecks', hvalid'⟩ :=
        hiff.2 ⟨header, body, proof, h.blockChecks hfree hle₁ hle₂ hchecks, hvalid⟩
      rwa [hsame hchecks.data hchecks'.data] at hvalid'
  · intro hvalidIff
    constructor
    · rintro ⟨header, body, proof, hchecks, hvalid⟩
      obtain ⟨hle₁, hle₂⟩ := hexecuted header (hdata hchecks.data)
      exact ⟨header, body, proof, h.blockChecks hfree hle₁ hle₂ hchecks,
        (hvalidIff header body proof hchecks).1 hvalid⟩
    · rintro ⟨header, body, proof, hchecks, hvalid⟩
      obtain ⟨hle₁, hle₂⟩ := hexecuted header (hdata hchecks.data)
      have hchecks₁ := h.symm.blockChecks hfree hle₂ hle₁ hchecks
      exact ⟨header, body, proof, hchecks₁, (hvalidIff header body proof hchecks₁).2 hvalid⟩

theorem verifyProposal_iff (h : Twins backend txs timestamp node₁ node₂)
    (hfree : backend.CollisionFree) {proposal : Consensus.Proposal}
    (hle₁ : proposal.executionNumber ≤ node₁.current.executedNumber)
    (hle₂ : proposal.executionNumber ≤ node₂.current.executedNumber) :
    ((node₁.verifyProposal backend proposal).isOk ↔ (node₂.verifyProposal backend proposal).isOk) ↔
      (backend.ProposalChecks node₁.db node₁.current proposal →
        (backend.Valid node₁.current (proposal.metaTxs ++ proposal.payloadTxs) ↔
          backend.Valid node₂.current (proposal.metaTxs ++ proposal.payloadTxs))) := by
  have hchecksIff : backend.ProposalChecks node₁.db node₁.current proposal ↔
      backend.ProposalChecks node₂.db node₂.current proposal :=
    ⟨h.proposalChecks hfree hle₁ hle₂, h.symm.proposalChecks hfree hle₂ hle₁⟩
  rw [Node.verifyProposal, Node.verifyProposal, Backend.isOk_verifyProposal_iff,
    Backend.isOk_verifyProposal_iff, ← hchecksIff]
  exact and_congr_right_iff

end Twins

end Finastate.Chain
