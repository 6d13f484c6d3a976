import Finastate.Chain.Body
import Finastate.Chain.Chained

/-!
# Replayed transactions

The threads commit blocks that `verify_block` or `verify_proposal` accepted. A
transaction is looked up when its block is verified, and it is stored when the
block is committed, but a block that is committed is the next one to the
database it was verified on: nothing was committed in between. So no
transaction comes twice, except within one block, whose two lists are checked
apart from each other.
-/

namespace Finastate.Chain

open Executor

/-- The hashes in the body of a block. -/
def DB.hashesAt (db : DB) (number : BlockNumber) : List Hash :=
  (((db.getBlockHash number).bind db.getBody).map bodyHashes).getD []

/-- The hashes in the bodies up to this number. -/
def DB.chainHashes (db : DB) (number : BlockNumber) : List Hash :=
  (List.range (number + 1)).flatMap db.hashesAt

namespace Backend

variable (backend : Backend)

/-- What a thread has a block from that passed verification. A proposal gets
its proof when it is decided. -/
inductive Verifies (db : DB) (state : CurrentState) : Prepared → Prop where
  | block {consensusVerifyProof : Header → Proof → Except Consensus.ErrorKind Unit}
      {blockData : Coordinator.BlockData} {body : Coordinator.BodyData}
      {params : ChainCommitBlockParams} (hbody : blockData.body = some body)
      (h : backend.verifyBlock consensusVerifyProof db state blockData = .ok params) :
      Verifies db state
        { metaTxs := body.metaTxs.map backend.fullTx
          payloadTxs := body.payloadTxs.map backend.fullTx
          state
          params }
  | proposal {proposal : Consensus.Proposal} {params : ChainCommitBlockParams} (proof : Proof)
      (h : backend.verifyProposal db state proposal = .ok params) :
      Verifies db state
        { metaTxs := proposal.metaTxs.map backend.fullTx
          payloadTxs := proposal.payloadTxs.map backend.fullTx
          state
          params := { params with proof } }

/-- If the meta list is one, no transaction is in both lists of the block. -/
def Apart (p : Prepared) : Prop :=
  (∀ tx ∈ p.metaTxs.head?, backend.dispatcher.isMeta tx.tx.call.module = .ok true) →
    ∀ tx ∈ p.metaTxs, ∀ tx' ∈ p.payloadTxs, tx.txHash ≠ tx'.txHash

/-- What verification says of a block for good. -/
structure Checked (p : Prepared) : Prop where
  number : p.params.header.number = p.state.confirmedNumber + 1
  untilValid : ∀ tx ∈ p.metaTxs ++ p.payloadTxs, validateUntil p.state tx.tx = .ok ()
  nodupMeta : (p.metaTxs.map FullTransaction.txHash).Nodup
  nodupPayload : (p.payloadTxs.map FullTransaction.txHash).Nodup
  listed : backend.Listed p
  metaKind : p.params.metaTxs = p.metaTxs ∧ (∀ tx ∈ p.metaTxs.head?,
      backend.dispatcher.isMeta tx.tx.call.module = .ok true) ∨
    p.params.metaTxs = [] ∧ ¬ ∀ tx ∈ p.metaTxs.head?,
      backend.dispatcher.isMeta tx.tx.call.module = .ok true

variable {backend}

/-- `build_block` files the meta list as meta, or drops it. -/
theorem Accepted.checked {db : DB} {state : CurrentState} {metaTxs payloadTxs : List Transaction}
    {params : ChainCommitBlockParams} (h : backend.Accepted db state metaTxs payloadTxs params) :
    backend.Checked
      { metaTxs := metaTxs.map backend.fullTx
        payloadTxs := payloadTxs.map backend.fullTx
        state
        params } := by
  obtain ⟨buildBlockParams, built, hbuilt, hnumber, hmeta, hpayload, hparams⟩ := h.built
  obtain ⟨parentHash, parentHeader, execution, essence, -, hbuilt⟩ := buildBlock_eq_ok hbuilt
  obtain ⟨context, hexecute, -, hheader, hbody, hmetaTxs, -, hpayloadTxs, -⟩ :=
    buildOn_eq_ok hbuilt
  rw [hmeta] at hexecute
  obtain ⟨isMeta, receipts, hbatched, hfirst⟩ :=
    Executor.executeTxs_eq_ok backend.modular (Context.idle_new _ _ _) hexecute
  have hvalid : ∀ txs : List Transaction,
      backend.Verified db state txs [] (txs.map backend.fullTx) →
      ∀ tx ∈ txs.map backend.fullTx, validateUntil state tx.tx = .ok () := by
    intro txs hverified tx htx
    obtain ⟨tx', htx', rfl⟩ := List.mem_map.1 htx
    obtain ⟨⟨⟩, huntil, -⟩ := Result.bind_eq_ok.1 (hverified.valid tx' htx')
    exact huntil
  constructor
  case number =>
    rw [hparams]
    simp only [hheader, hnumber]
  case untilValid =>
    intro tx htx
    rcases List.mem_append.1 htx with htx | htx
    · exact hvalid metaTxs h.verifiedMeta tx htx
    · exact hvalid payloadTxs h.verifiedPayload tx htx
  case nodupMeta =>
    simp only [map_txHash_fullTx]
    exact h.verifiedMeta.nodup
  case nodupPayload =>
    simp only [map_txHash_fullTx]
    exact h.verifiedPayload.nodup
  case metaKind =>
    rw [hparams]
    simp only [hmetaTxs]
    cases isMeta with
    | true => exact .inl ⟨hbatched.appended, hfirst⟩
    | false =>
        -- A batch that is no meta batch leaves nothing in the meta list.
        have hnone : context.metaTxs = [] := hbatched.otherTxs
        cases metaTxs with
        | nil => exact .inl ⟨hnone, nofun⟩
        | cons tx txs =>
            refine .inr ⟨hnone, fun hhead => ?_⟩
            have hfalse := hfirst (backend.fullTx tx) rfl
            cases (hhead (backend.fullTx tx) rfl).symm.trans hfalse
  case listed =>
    constructor
    case hashed =>
      intro tx htx
      rw [← List.map_append] at htx
      obtain ⟨tx', -, rfl⟩ := List.mem_map.1 htx
      rfl
    case metaTxs =>
      rw [hparams]
      simp only [hmetaTxs]
      cases isMeta with
      | true => exact .inl hbatched.appended
      | false => exact .inr hbatched.otherTxs
    case payloadTxs =>
      rw [hparams]
      simp only [hpayloadTxs, hpayload]
    case body =>
      rw [hparams]
      simp only [hbody, hmetaTxs, hpayloadTxs]

/-- A block that passed verification, on the database and at the state it
passed with. -/
theorem Verifies.accepted {db : DB} {state : CurrentState} {p : Prepared}
    (h : backend.Verifies db state p) :
    ∃ metaTxs payloadTxs params, p.metaTxs = metaTxs.map backend.fullTx ∧
      p.payloadTxs = payloadTxs.map backend.fullTx ∧ p.state = state ∧
      p.params = { params with proof := p.params.proof } ∧
      backend.Accepted db state metaTxs payloadTxs params := by
  cases h with
  | block hbody h =>
      exact ⟨_, _, _, rfl, rfl, rfl, rfl, accepted_of_verifyBlock hbody h⟩
  | proposal proof h =>
      exact ⟨_, _, _, rfl, rfl, rfl, by rfl, accepted_of_verifyProposal h⟩

theorem Verifies.checked {db : DB} {state : CurrentState} {p : Prepared}
    (h : backend.Verifies db state p) : backend.Checked p ∧ p.state = state := by
  obtain ⟨metaTxs, payloadTxs, params, hmeta, hpayload, rfl, hparams, haccepted⟩ := h.accepted
  have hchecked := haccepted.checked
  obtain ⟨pMeta, pPayload, pState, pParams⟩ := p
  cases hmeta
  cases hpayload
  have hlisted := hchecked.listed
  refine ⟨⟨?_, hchecked.untilValid, hchecked.nodupMeta, hchecked.nodupPayload, ?_, ?_⟩, rfl⟩
  all_goals
    simp only at hparams
    rw [hparams]
  · exact hchecked.number
  · exact hlisted.of_proof _
  · exact hchecked.metaKind

/-- Verification looks every transaction up. -/
theorem Verifies.fresh {db : DB} {state : CurrentState} {p : Prepared}
    (h : backend.Verifies db state p) :
    ∀ tx ∈ p.metaTxs ++ p.payloadTxs, db.getTransaction tx.txHash = none := by
  obtain ⟨metaTxs, payloadTxs, params, hmeta, hpayload, -, -, haccepted⟩ := h.accepted
  have hlist : ∀ txs : List Transaction,
      backend.Verified db state txs [] (txs.map backend.fullTx) →
      ∀ tx ∈ txs.map backend.fullTx, db.getTransaction tx.txHash = none := by
    intro txs hverified tx htx
    obtain ⟨tx', htx', rfl⟩ := List.mem_map.1 htx
    obtain ⟨-, -, hvalid⟩ := Result.bind_eq_ok.1 (hverified.valid tx' htx')
    split at hvalid
    · cases hvalid
    · next hnone => exact Option.not_isSome_iff_eq_none.1 hnone
  intro tx htx
  rw [hmeta, hpayload] at htx
  rcases List.mem_append.1 htx with htx | htx
  · exact hlist metaTxs haccepted.verifiedMeta tx htx
  · exact hlist payloadTxs haccepted.verifiedPayload tx htx

end Backend

section Once

variable {backend : Backend} {txs : List Transaction} {timestamp : Nat} {node node' : Node}

/-- The state is what `update_current_state` makes of a node with the beginning
of the chain. -/
def Backend.TakenFrom (backend : Backend) (txs : List Transaction) (timestamp : Nat)
    (chain : List Prepared) (state : CurrentState) : Prop :=
  ∃ node now, Reach backend backend.Verifies txs timestamp node ∧
    backend.updateCurrentState node.db now = .ok state ∧ node.chain <+: chain

theorem Backend.updateCurrentState_eq_ok {db : DB} {now : Nat} {state : CurrentState}
    (h : backend.updateCurrentState db now = .ok state) :
    db.confirmedNumber = some state.confirmedNumber ∧
      db.getBlockHash state.confirmedNumber = some state.confirmedBlockHash := by
  obtain ⟨number, hnumber, h⟩ := Result.bind_eq_ok.1 h
  obtain ⟨blockHash, hblockHash, h⟩ := Result.bind_eq_ok.1 h
  obtain ⟨header, -, h⟩ := Result.bind_eq_ok.1 h
  obtain ⟨executedNumber, -, h⟩ := Result.bind_eq_ok.1 h
  obtain ⟨executedBlockHash, -, h⟩ := Result.bind_eq_ok.1 h
  obtain ⟨execution, -, h⟩ := Result.bind_eq_ok.1 h
  obtain ⟨essence, -, h⟩ := Result.bind_eq_ok.1 h
  obtain ⟨systemMeta, -, h⟩ := Result.bind_eq_ok.1 h
  obtain ⟨genesisHash, -, h⟩ := Result.bind_eq_ok.1 h
  cases h
  exact ⟨orData_eq_ok.1 hnumber, orData_eq_ok.1 hblockHash⟩

theorem Backend.TakenFrom.lt {chain : List Prepared} {state : CurrentState}
    (h : backend.TakenFrom txs timestamp chain state) : state.confirmedNumber < chain.length := by
  obtain ⟨node, now, hreach, hstate, hbefore⟩ := h
  obtain ⟨number, hnumber, hlength⟩ := hreach.chained.confirmed
  obtain rfl := Option.some.inj (hnumber.symm.trans (updateCurrentState_eq_ok hstate).1)
  have hle := hbefore.length_le
  rwa [hlength] at hle

theorem Backend.TakenFrom.mono {chain chain' : List Prepared} {state : CurrentState}
    (h : backend.TakenFrom txs timestamp chain state) (hchain : chain <+: chain') :
    backend.TakenFrom txs timestamp chain' state := by
  obtain ⟨node, now, hreach, hstate, hbefore⟩ := h
  exact ⟨node, now, hreach, hstate, hbefore.trans hchain⟩

/-- No hash is in two bodies of the chain. A prepared block that is still the next one is new to the database. -/
structure Node.Once (backend : Backend) (txs : List Transaction) (timestamp : Nat) (node : Node) :
    Prop where
  current : backend.TakenFrom txs timestamp node.chain node.current
  prepared : ∀ p ∈ node.prepared,
    backend.Checked p ∧ backend.TakenFrom txs timestamp node.chain p.state
  fresh : ∀ p ∈ node.prepared, p.params.header.number = node.chain.length →
    ∀ tx ∈ p.metaTxs ++ p.payloadTxs, node.db.getTransaction tx.txHash = none
  checked : ∀ p ∈ node.chain.tail,
    backend.Checked p ∧ backend.TakenFrom txs timestamp node.chain p.state
  disjoint : node.chain.Pairwise fun p q =>
    List.Disjoint (bodyHashes p.params.body) (bodyHashes q.params.body)
  content : ∀ p ∈ node.chain, ∀ txHash ∈ bodyHashes p.params.body, ∀ tx,
    node.db.getTransaction txHash = some tx → ∃ tx' ∈ p.metaTxs ++ p.payloadTxs, tx'.tx = tx
  genesis : ∃ p, node.chain.head? = some p ∧
    (p.metaTxs ++ p.payloadTxs).Perm (txs.map backend.fullTx) ∧
    bodyHashes p.params.body = (p.metaTxs ++ p.payloadTxs).map FullTransaction.txHash

theorem Node.Once.commit (h : node.Once backend txs timestamp) (hchain : node.db.Chained node.chain)
    (hstored : node.Stored backend) {p : Prepared} (hp : p ∈ node.prepared) (hplaced : node.db.Placed p.params)
    (uninserted : List ExecuteTask) :
    Node.Once backend txs timestamp
      { node with
        db := node.db.commitBlock p.params
        uninserted := uninserted
        chain := node.chain ++ [p] } := by
  have hgrows : node.chain <+: node.chain ++ [p] := List.prefix_append _ _
  obtain ⟨hchecked, htaken⟩ := h.prepared p hp
  have hlisted := hchecked.listed
  have hfresh := h.fresh p hp (hchain.last hplaced).1
  have hne : node.chain ≠ [] := by
    obtain ⟨number, -, hlength⟩ := hchain.confirmed
    exact List.ne_nil_of_length_pos (hlength ▸ Nat.succ_pos number)
  -- The body is new, so what is stored of the other blocks is not touched.
  have hnew : ∀ q ∈ node.chain, ∀ txHash ∈ bodyHashes q.params.body,
      txHash ∉ bodyHashes p.params.body := by
    intro q hq txHash hmem hmem'
    obtain ⟨tx, htx, rfl⟩ := hlisted.mem_bodyHashes.1 hmem'
    have hsome := hstored.stored q hq _ hmem
    rw [hfresh tx (hlisted.mem_lists htx)] at hsome
    cases hsome
  constructor
  case current => exact h.current.mono hgrows
  case prepared =>
    intro q hq
    exact ⟨(h.prepared q hq).1, (h.prepared q hq).2.mono hgrows⟩
  case fresh =>
    intro q hq hnumber
    have hlt := (h.prepared q hq).2.lt
    simp only [(h.prepared q hq).1.number, List.length_append, List.length_singleton,
      Nat.add_right_cancel_iff] at hnumber
    exact absurd hnumber hlt.ne
  case checked =>
    intro q hq
    simp only [List.tail_append_of_ne_nil hne] at hq
    rcases List.mem_append.1 hq with hq | hq
    · exact ⟨(h.checked q hq).1, (h.checked q hq).2.mono hgrows⟩
    · obtain rfl := List.mem_singleton.1 hq
      exact ⟨hchecked, htaken.mono hgrows⟩
  case disjoint =>
    refine List.pairwise_append.2 ⟨h.disjoint, List.pairwise_singleton _ _, ?_⟩
    intro q hq p' hp' txHash hmem hmem'
    obtain rfl := List.mem_singleton.1 hp'
    exact hnew q hq txHash hmem hmem'
  case content =>
    intro q hq txHash hmem tx hget
    rcases List.mem_append.1 hq with hq | hq
    · rw [hlisted.getTransaction_of_not_mem node.db (hnew q hq txHash hmem)] at hget
      exact h.content q hq txHash hmem tx hget
    · obtain rfl := List.mem_singleton.1 hq
      obtain ⟨tx', htx', -, hget'⟩ := hlisted.getTransaction node.db hmem
      exact ⟨tx', htx', Option.some.inj (hget'.symm.trans hget)⟩
  case genesis =>
    obtain ⟨q, hq, hperm⟩ := h.genesis
    exact ⟨q, by simp [hq], hperm⟩

theorem Node.Once.of_genesis {context : Context} {current : CurrentState} {now : Nat}
    (hspec : ∀ tx ∈ txs, tx.witness = none)
    (hexecute : backend.executeGenesis txs timestamp = .ok context)
    (h : backend.updateCurrentState (backend.genesisDB timestamp context) now = .ok current) :
    Node.Once backend txs timestamp
      (.start (backend.genesisDB timestamp context) current
        [backend.genesisPrepared timestamp context current]) := by
  have hlisted := Backend.listed_genesisPrepared current hexecute
  constructor
  case current =>
    exact ⟨_, now, .genesis hspec hexecute h, h, List.prefix_refl _⟩
  case prepared => rintro _ ⟨⟩
  case fresh => rintro _ ⟨⟩
  case checked => rintro _ ⟨⟩
  case disjoint => exact List.pairwise_singleton _ _
  case content =>
    intro p hp txHash hmem tx hget
    obtain rfl := List.mem_singleton.1 hp
    obtain ⟨tx', htx', -, hget'⟩ := hlisted.getTransaction .empty hmem
    exact ⟨tx', htx', Option.some.inj (hget'.symm.trans hget)⟩
  case genesis =>
    refine ⟨_, rfl, Backend.executeGenesis_eq_ok hexecute, ?_⟩
    rw [List.map_append]
    rfl

theorem Step.once (h : Step backend backend.Verifies node node')
    (hreach : Reach backend backend.Verifies txs timestamp node)
    (honce : node.Once backend txs timestamp) : node'.Once backend txs timestamp := by
  cases h with
  | prepare h =>
      obtain ⟨hchecked, hstate⟩ := h.checked
      constructor
      case prepared =>
        intro q hq
        rcases List.mem_cons.1 hq with rfl | hq
        · exact ⟨hchecked, hstate ▸ honce.current⟩
        · exact honce.prepared q hq
      case fresh =>
        intro q hq hnumber
        rcases List.mem_cons.1 hq with rfl | hq
        · exact h.fresh
        · exact honce.fresh q hq hnumber
      all_goals first
        | exact honce.current
        | exact honce.checked
        | exact honce.disjoint
        | exact honce.content
        | exact honce.genesis
  | commit now hp =>
      rcases node.commit_cases backend now _ with heq | ⟨hplaced, uninserted, -, heq⟩
      · rwa [heq]
      · rw [heq]
        exact honce.commit hreach.chained (hreach.stored fun _ _ _ h => h.checked.1.listed) hp hplaced uninserted
  | refresh h => exact { honce with current := ⟨_, _, hreach, h, List.prefix_refl _⟩ }
  | restart h =>
      exact
        { honce with
          current := ⟨_, _, hreach, h, List.prefix_refl _⟩
          prepared := List.forall_mem_nil _
          fresh := List.forall_mem_nil _ }
  | insert h => exact { honce with }
  | lose task => exact { honce with }
  | take hidle hqueue h => exact { honce with }
  | build hwork hbuilt h => exact { honce with }
  | store hwork hbuilt => exact { honce with }
  | fail => exact { honce with }

theorem Reach.once (h : Reach backend backend.Verifies txs timestamp node) :
    node.Once backend txs timestamp := by
  induction h with
  | genesis hspec hexecute h => exact .of_genesis hspec hexecute h
  | step hreach h ih => exact h.once hreach ih

/-! ## No replay -/

theorem flatMap_range_getElem? {α β : Type} (l : List α) (f : α → List β) :
    (List.range l.length).flatMap (fun k => (l[k]?.map f).getD []) = l.flatMap f := by
  induction l with
  | nil => rfl
  | cons a l ih =>
      rw [List.length_cons, List.range_succ_eq_map, List.flatMap_cons, List.flatMap_map,
        List.flatMap_cons, ← ih]
      simp

theorem DB.Chained.hashesAt {db : DB} {chain : List Prepared} (h : db.Chained chain) (k : ℕ) :
    db.hashesAt k = (chain[k]?.map fun p : Prepared => bodyHashes p.params.body).getD [] := by
  rw [DB.hashesAt, h.blockHash]
  cases hp : chain[k]? with
  | none => rfl
  | some p =>
      have hbody := h.body p (List.mem_of_getElem? hp)
      simp [hbody]

theorem DB.Chained.chainHashes {db : DB} {chain : List Prepared} (h : db.Chained chain)
    {number : BlockNumber} (hnumber : db.confirmedNumber = some number) :
    db.chainHashes number = chain.flatMap fun p : Prepared => bodyHashes p.params.body := by
  obtain ⟨number', hnumber', hlength⟩ := h.confirmed
  obtain rfl := Option.some.inj (hnumber.symm.trans hnumber')
  rw [DB.chainHashes, ← hlength, ← flatMap_range_getElem? chain]
  exact congrArg (fun f => List.flatMap f (List.range chain.length)) (funext h.hashesAt)

/-- The two lists of a block are the body, so a hash is in it twice if it is in
both of them. -/
theorem Backend.Checked.nodup_iff {p : Prepared} (h : backend.Checked p) :
    (bodyHashes p.params.body).Nodup ↔ backend.Apart p := by
  have hbody : bodyHashes p.params.body = p.params.metaTxs.map FullTransaction.txHash ++
      p.payloadTxs.map FullTransaction.txHash := by
    rw [bodyHashes, h.listed.body, h.listed.payloadTxs]
  rw [hbody]
  rcases h.metaKind with ⟨heq, hmeta⟩ | ⟨heq, hmeta⟩
  · rw [heq, List.nodup_append]
    constructor
    · rintro ⟨-, -, hne⟩ - tx htx tx' htx'
      exact hne _ (List.mem_map_of_mem htx) _ (List.mem_map_of_mem htx')
    · intro hapart
      refine ⟨h.nodupMeta, h.nodupPayload, ?_⟩
      intro txHash htxHash txHash' htxHash'
      obtain ⟨tx, htx, rfl⟩ := List.mem_map.1 htxHash
      obtain ⟨tx', htx', rfl⟩ := List.mem_map.1 htxHash'
      exact hapart hmeta tx htx tx' htx'
  · rw [heq]
    exact iff_of_true h.nodupPayload fun hmeta' => absurd hmeta' hmeta

/-- The window of `until`, without the overflow. -/
theorem Backend.untilNumber_of_validateUntil {state : CurrentState} {tx : Transaction}
    {witness : Witness} (h : validateUntil state tx = .ok ()) (hwitness : tx.witness = some witness) :
    state.confirmedNumber + 1 ≤ witness.untilNumber ∧
      witness.untilNumber < state.confirmedNumber + 1 + state.systemMeta.maxUntilGap := by
  simp only [validateUntil, hwitness] at h
  split at h
  · cases h
  · next hmax =>
    split at h
    · cases h
    · next hmin =>
      have hwrap : wrapAdd 64 state.confirmedNumber state.systemMeta.maxUntilGap ≤
          state.confirmedNumber + state.systemMeta.maxUntilGap := Nat.mod_le _ _
      have hle := (not_lt.1 hmax).trans hwrap
      rw [Nat.add_right_comm]
      exact ⟨Nat.lt_of_not_le hmin, Nat.lt_succ_of_le hle⟩

/-- No transaction is in the bodies twice if and only if the genesis has none
twice and every block keeps its two lists apart. The transactions of block `k`
are in their window, by the state after the block before. -/
theorem no_replay_iff {backend : Backend} {txs : List Transaction} {timestamp : Nat} {node : Node}
    (h : Reach backend backend.Verifies txs timestamp node) :
    ∃ number, node.db.confirmedNumber = some number ∧
      ((node.db.chainHashes number).Nodup ↔
        (txs.map backend.hashTransaction).Nodup ∧ ∀ p ∈ node.chain.tail, backend.Apart p) ∧
      ∀ k ≤ number, ∀ txHash ∈ node.db.hashesAt k, ∃ tx,
        node.db.getTransaction txHash = some tx ∧
        ∀ witness, tx.witness = some witness → k ≤ witness.untilNumber ∧
          ∃ before now state, Reach backend backend.Verifies txs timestamp before ∧
            before.chain <+: node.chain ∧
            backend.updateCurrentState before.db now = .ok state ∧
            state.confirmedNumber + 1 = k ∧
            witness.untilNumber < k + state.systemMeta.maxUntilGap := by
  have hchain := h.chained
  have honce := h.once
  have hstored := h.stored fun _ _ _ hverifies => hverifies.checked.1.listed
  obtain ⟨number, hnumber, hlength⟩ := hchain.confirmed
  refine ⟨number, hnumber, ?_, ?_⟩
  · rw [hchain.chainHashes hnumber, List.nodup_flatMap]
    obtain ⟨p, hhead, hperm, hbody⟩ := honce.genesis
    obtain ⟨rest, hrest⟩ : ∃ rest, node.chain = p :: rest := List.head?_eq_some_iff.1 hhead
    have hgenesis : (bodyHashes p.params.body).Nodup ↔
        (txs.map backend.hashTransaction).Nodup := by
      rw [hbody, ← Backend.map_txHash_fullTx]
      exact (hperm.map _).nodup_iff
    have htail : (∀ q ∈ rest, (bodyHashes q.params.body).Nodup) ↔ ∀ q ∈ rest, backend.Apart q :=
      forall₂_congr fun q hq => (honce.checked q (by rwa [hrest])).1.nodup_iff
    have hdisjoint := honce.disjoint
    rw [hrest] at hdisjoint ⊢
    rw [List.forall_mem_cons, hgenesis, htail, and_iff_left hdisjoint]
    rfl
  · intro k hk txHash hmem
    rw [hchain.hashesAt] at hmem
    obtain ⟨p, hp⟩ : ∃ p, node.chain[k]? = some p :=
      ⟨_, List.getElem?_eq_getElem (hlength ▸ Nat.lt_succ_of_le hk)⟩
    simp only [hp, Option.map_some, Option.getD_some] at hmem
    have hmemChain : p ∈ node.chain := List.mem_of_getElem? hp
    obtain ⟨tx, htx⟩ := Option.isSome_iff_exists.1 (hstored.stored p hmemChain txHash hmem)
    refine ⟨tx, htx, fun witness hwitness => ?_⟩
    obtain ⟨tx', htx', rfl⟩ := honce.content p hmemChain txHash hmem tx htx
    obtain ⟨g, hhead, hperm, -⟩ := honce.genesis
    obtain ⟨rest, hrest⟩ : ∃ rest, node.chain = g :: rest := List.head?_eq_some_iff.1 hhead
    cases k with
    | zero =>
        -- The transactions of the genesis have no witness.
        rw [hrest] at hp
        cases hp
        obtain ⟨tx, hspec, rfl⟩ := List.mem_map.1 (hperm.subset htx')
        cases (h.spec tx hspec).symm.trans hwitness
    | succ k =>
        have hmemTail : p ∈ node.chain.tail := by
          rw [hrest] at hp ⊢
          exact List.mem_of_getElem? hp
        obtain ⟨hchecked, before, now, hreach, hstate, hbefore⟩ := honce.checked p hmemTail
        have hat : p.state.confirmedNumber + 1 = k + 1 := by
          rw [← hchecked.number, hchain.number _ p hp]
        obtain ⟨hmin, hmax⟩ :=
          Backend.untilNumber_of_validateUntil (hchecked.untilValid tx' htx') hwitness
        rw [hat] at hmin hmax
        exact ⟨hmin, before, now, p.state, hreach, hbefore, hstate, hat, hmax⟩

end Once

namespace Sample

theorem verifies_verified {metaTxs payloadTxs : List Transaction}
    (h : (received metaTxs payloadTxs).isOk) :
    backend.Verifies genesis state (verified metaTxs payloadTxs h) := by
  obtain ⟨body, hbody⟩ : ∃ body : Coordinator.BodyData, body = { metaTxs, payloadTxs } := ⟨_, rfl⟩
  have hblock : backend.Verifies genesis state
      { metaTxs := body.metaTxs.map backend.fullTx
        payloadTxs := body.payloadTxs.map backend.fullTx
        state := state
        params := Result.get (received metaTxs payloadTxs) h } :=
    .block (congrArg some hbody.symm) (Result.eq_ok_get _ h)
  rwa [hbody] at hblock

/-- One transaction in each list. -/
def apartBlock : Prepared := verified [signedTx] [entryTx "put" 1 5] (by decide +kernel)

/-- The same transaction in both lists. -/
def doubledBlock : Prepared := verified [signedTx] [signedTx] (by decide +kernel)

end Sample

theorem no_replay_sample :
    ∃ number, (Sample.second Sample.apartBlock).db.confirmedNumber = some number ∧
      ((Sample.second Sample.apartBlock).db.chainHashes number).Nodup := by
  have hreach := Sample.reach_second (Sample.verifies_verified
    (show (Sample.received [Sample.signedTx] [Sample.entryTx "put" 1 5]).isOk by decide +kernel))
  obtain ⟨number, hnumber, hiff, -⟩ := no_replay_iff hreach
  refine ⟨number, hnumber, hiff.2 ⟨List.nodup_singleton _, fun p hp => ?_⟩⟩
  rw [Sample.tail_second hp]
  intro _ tx htx tx' htx'
  rw [List.mem_singleton.1 htx, List.mem_singleton.1 htx']
  decide +kernel

/-- Block 1 is accepted with a transaction in both lists, which then is in the
chain twice. -/
theorem not_no_replay_doubled :
    Reach Sample.backend Sample.backend.Verifies [Sample.systemTx] 0
        (Sample.second Sample.doubledBlock) ∧
      (Sample.second Sample.doubledBlock).db.confirmedNumber = some 1 ∧
      ¬ ((Sample.second Sample.doubledBlock).db.chainHashes 1).Nodup :=
  ⟨Sample.reach_second (Sample.verifies_verified _), by decide +kernel, by decide +kernel⟩

end Finastate.Chain
