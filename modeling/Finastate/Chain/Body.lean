import Finastate.Chain.Verify
import Finastate.Executor.Batch

/-!
# The bodies of accepted blocks

`build_block` takes the meta transactions back from the context, which keeps
those of a batch that it found to be a meta batch, and it never runs the
payload transactions. So the body is the received one exactly when the two
lists were filed by kind (`Filed`): nothing else checks it.
-/

namespace Finastate.Chain

open Executor

namespace Backend

variable (backend : Backend)

/-- The commit parameters say of the received lists what they should: the
hashes and the roots of both, a receipt for each meta transaction, and that
every transaction is in the list of its kind. -/
structure Faithful (metaTxs payloadTxs : List Transaction) (params : ChainCommitBlockParams) :
    Prop where
  metaHashes : params.body.metaTxs = metaTxs.map backend.hashTransaction
  payloadHashes : params.body.payloadTxs = payloadTxs.map backend.hashTransaction
  metaRoot : params.header.metaTxsRoot = backend.txsRoot (metaTxs.map Transaction.forHash)
  payloadRoot :
    params.header.payloadTxsRoot = backend.txsRoot (payloadTxs.map Transaction.forHash)
  metaReceipts :
    params.metaReceipts.map FullReceipt.txHash = metaTxs.map backend.hashTransaction
  metaKind : ∀ tx ∈ metaTxs, backend.dispatcher.isMeta tx.call.module = .ok true
  payloadKind : ∀ tx ∈ payloadTxs, backend.dispatcher.isMeta tx.call.module = .ok false

/-- The meta list starts with a meta transaction, if with any, and the payload
list holds payload transactions only. -/
def Filed (metaTxs payloadTxs : List Transaction) : Prop :=
  (∀ tx ∈ metaTxs.head?, backend.dispatcher.isMeta tx.call.module = .ok true) ∧
    ∀ tx ∈ payloadTxs, backend.dispatcher.isMeta tx.call.module = .ok false

variable {backend} {db : DB} {state : CurrentState}

theorem getTxsRoot_fullTx (txs : List Transaction) :
    backend.getTxsRoot (txs.map backend.fullTx) =
      backend.txsRoot (txs.map Transaction.forHash) := by
  rw [getTxsRoot, List.map_map]
  rfl

theorem filed_of_faithful {metaTxs payloadTxs : List Transaction}
    {params : ChainCommitBlockParams} (h : backend.Faithful metaTxs payloadTxs params) :
    backend.Filed metaTxs payloadTxs :=
  ⟨fun tx htx => h.metaKind tx (List.mem_of_mem_head? htx), h.payloadKind⟩

theorem Accepted.faithful_iff {metaTxs payloadTxs : List Transaction}
    {params : ChainCommitBlockParams} (h : backend.Accepted db state metaTxs payloadTxs params) :
    backend.Faithful metaTxs payloadTxs params ↔ backend.Filed metaTxs payloadTxs := by
  refine ⟨filed_of_faithful, fun hfiled => ?_⟩
  obtain ⟨buildBlockParams, built, hbuilt, -, hmeta, hpayload, hparams⟩ := h.built
  obtain ⟨parentHash, parentHeader, execution, essence, -, hbuilt⟩ := buildBlock_eq_ok hbuilt
  obtain ⟨context, hexecute, -, hheader, hbody, -, hreceipts, -, -⟩ := buildOn_eq_ok hbuilt
  rw [hmeta] at hexecute
  obtain ⟨isMeta, receipts, hbatched, hfirst⟩ :=
    Executor.executeTxs_eq_ok backend.modular (Context.idle_new _ _ _) hexecute
  -- The kind of the batch is that of the first transaction.
  have hall : ∀ tx ∈ metaTxs, backend.dispatcher.isMeta tx.call.module = .ok isMeta :=
    fun tx htx => hbatched.kind (backend.fullTx tx) (List.mem_map_of_mem htx)
  have htxs : context.metaTxs = metaTxs.map backend.fullTx ∧
      context.metaReceipts.map FullReceipt.txHash = metaTxs.map backend.hashTransaction := by
    cases metaTxs with
    | nil =>
        have hnil : receipts = [] := by simpa using hbatched.txHash
        have hempty : context.metaTxs = [] ∧ context.metaReceipts = [] := by
          cases isMeta with
          | true => exact ⟨hbatched.appended, hnil ▸ hbatched.appendedReceipts⟩
          | false => exact ⟨hbatched.otherTxs, hbatched.otherReceipts⟩
        simp [hempty.1, hempty.2]
    | cons tx txs =>
        have hkind : isMeta = true := by
          have htx := hall tx List.mem_cons_self
          rw [hfiled.1 tx rfl] at htx
          exact (Except.ok.inj htx).symm
        subst hkind
        have hcontext : context.metaReceipts = receipts := hbatched.appendedReceipts
        refine ⟨hbatched.appended, ?_⟩
        rw [hcontext, hbatched.txHash, map_txHash_fullTx]
  have hmetaKind : ∀ tx ∈ metaTxs, backend.dispatcher.isMeta tx.call.module = .ok true := by
    cases metaTxs with
    | nil => exact nofun
    | cons tx txs =>
        have hkind := hall tx List.mem_cons_self
        rw [hfiled.1 tx rfl] at hkind
        rw [hkind]
        exact hall
  constructor
  case metaHashes =>
    rw [hparams]
    simp only [hbody, htxs.1, map_txHash_fullTx]
  case payloadHashes =>
    rw [hparams]
    simp only [hbody, hpayload, map_txHash_fullTx]
  case metaRoot =>
    rw [hparams]
    simp only [hheader, htxs.1, getTxsRoot_fullTx]
  case payloadRoot =>
    rw [hparams]
    simp only [hheader, hpayload, getTxsRoot_fullTx]
  case metaReceipts =>
    rw [hparams]
    simp only [hreceipts, htxs.2]
  case metaKind => exact hmetaKind
  case payloadKind => exact hfiled.2

/-- What is committed of an accepted block says of the received lists what it
should if and only if they were filed by kind. -/
theorem faithful_iff_filed (backend : Backend) (db : DB) (state : CurrentState) :
    (∀ consensusVerifyProof blockData body params, blockData.body = some body →
      backend.verifyBlock consensusVerifyProof db state blockData = .ok params →
        (backend.Faithful body.metaTxs body.payloadTxs params ↔
          backend.Filed body.metaTxs body.payloadTxs)) ∧
    ∀ proposal params, backend.verifyProposal db state proposal = .ok params →
      (backend.Faithful proposal.metaTxs proposal.payloadTxs params ↔
        backend.Filed proposal.metaTxs proposal.payloadTxs) := by
  constructor
  · intro consensusVerifyProof blockData body params hbody h
    exact (accepted_of_verifyBlock hbody h).faithful_iff
  · intro proposal params h
    exact (accepted_of_verifyProposal h).faithful_iff

/-- One transaction in each list, both in the right one. -/
theorem faithful_sample :
    ∃ params, Sample.received [Sample.signedTx] [Sample.entryTx "put" 1 5] = .ok params ∧
      Sample.backend.Faithful [Sample.signedTx] [Sample.entryTx "put" 1 5] params := by
  have hok := Result.eq_ok_get
    (Sample.received [Sample.signedTx] [Sample.entryTx "put" 1 5]) (by decide +kernel)
  refine ⟨_, hok, ((faithful_iff_filed _ _ _).1 _ _ _ _ rfl hok).2 ⟨?_, ?_⟩⟩
  · rintro tx ⟨⟩
    rfl
  · rintro tx (_ | ⟨_, ⟨⟩⟩)
    rfl

/-- A payload transaction in the meta list is accepted, and left out of the
body. -/
theorem not_faithful_misfiled :
    ∃ blockData body params, blockData.body = some body ∧
      Sample.backend.verifyBlock (fun _ _ => .ok ()) Sample.genesis Sample.state blockData =
        .ok params ∧
      params.body.metaTxs = [] ∧ body.metaTxs = [Sample.entryTx "put" 1 5] ∧
      ¬ Sample.backend.Faithful body.metaTxs body.payloadTxs params := by
  have hok := Result.eq_ok_get (Sample.received [Sample.entryTx "put" 1 5] []) (by decide +kernel)
  refine ⟨_, _, _, rfl, hok, by decide +kernel, rfl, fun hfaithful => ?_⟩
  have hkind := hfaithful.metaKind _ List.mem_cons_self
  cases hkind

end Backend

end Finastate.Chain
