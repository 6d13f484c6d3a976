import Finastate.Hotstuff.Run

/-!
# What the storage of a node keeps on disk

The operations of `storage.rs` on a new database, in any order, with any
advance of the confirmed block before a refresh. The storage is consistent
when the index of the proposals on disk is the one in memory, every body on
disk is in that index, and a storage opened on the same database is the
running one. A refresh that drops a proposal writes the index of the nodes in
the place of the index of the proposals, and the writes of the view and of the
certificates take any value, so not every run is consistent:
`consistent_iff_kept` says which ones are.
-/

namespace Finastate.Hotstuff

namespace Storage

/-- The operations on a storage; a refresh comes after any number of newly
confirmed blocks. -/
inductive Op where
  | putProposal (proposal : Proposal)
  | refresh (blocks : List ConfirmedBlock)
  | updateView (view : Nat)
  | updatePrepareQc (prepareQc : QC)
  | updateLockedQc (lockedQc : QC)
  deriving DecidableEq, Repr

variable (support : Support)

def apply (storage : Storage) : Op → Option Storage
  | .putProposal proposal => some (storage.putProposal proposal)
  | .refresh blocks => refresh support (blocks ++ storage.chain) storage.db
  | .updateView view => some (storage.updateView view)
  | .updatePrepareQc prepareQc => some (storage.updatePrepareQc prepareQc)
  | .updateLockedQc lockedQc => some (storage.updateLockedQc lockedQc)

/-- The storage after each of the operations, up to one that panics. -/
def visited (storage : Storage) : List Op → List Storage
  | [] => [storage]
  | op :: ops =>
      storage :: match storage.apply support op with
        | none => []
        | some storage => visited storage ops

/-- The index of the proposals on disk, read as a map. -/
def proposalIndex (db : Db) : List (Hash × Node) := collectMap (db.proposals.getD [])

structure Consistent (storage : Storage) : Prop where
  index : ∀ blockHash,
    AssocMap.get? (proposalIndex storage.db) blockHash = AssocMap.get? storage.proposals blockHash
  body : ∀ p ∈ storage.db.proposal, (AssocMap.get? (proposalIndex storage.db) p.1).isSome
  reopened : ∃ opened, new support storage.chain storage.db = some opened ∧
    opened.view = storage.view ∧ opened.prepareQc = storage.prepareQc ∧
    opened.lockedQc = storage.lockedQc ∧
    (∀ blockHash,
      AssocMap.get? opened.nodes blockHash = AssocMap.get? storage.nodes blockHash) ∧
    ∀ blockHash,
      AssocMap.get? opened.proposals blockHash = AssocMap.get? storage.proposals blockHash

/-- An operation that the storage survives: a proposal on the base block, a
refresh that drops no proposal, a view above the committed one, a certificate
above the committed one or that one itself. -/
def Keeps (storage : Storage) : Op → Prop
  | .putProposal proposal => proposal.parentHash = storage.baseBlockHash
  | .refresh blocks => ∀ p ∈ storage.proposals,
      p.2.parentHash = support.confirmedBlockHash (blocks ++ storage.chain)
  | .updateView view => wrapAdd 64 storage.baseCommitQc.view 1 ≤ view
  | .updatePrepareQc qc | .updateLockedQc qc =>
      qc.view ≤ storage.baseCommitQc.view → qc = storage.baseCommitQc

instance (storage : Storage) : (op : Op) → Decidable (storage.Keeps support op)
  | .putProposal proposal =>
      inferInstanceAs (Decidable (proposal.parentHash = storage.baseBlockHash))
  | .refresh _ => inferInstanceAs (Decidable (∀ p ∈ storage.proposals, _))
  | .updateView _ => inferInstanceAs (Decidable (_ ≤ _))
  | .updatePrepareQc _ | .updateLockedQc _ => inferInstanceAs (Decidable (_ ≤ _ → _ = _))

/-- Every operation is kept by the storage it is made on. -/
def Kept (storage : Storage) : List Op → Prop
  | [] => True
  | op :: ops => storage.Keeps support op ∧
      ∀ storage' ∈ storage.apply support op, Kept storage' ops

/-! ## What holds after any operations -/

/-- The values in memory are those on disk, the proposals in memory are in the
index and have all the bodies, and no nodes are ever kept. -/
structure Persisted (storage : Storage) (genesisQc : QC) : Prop where
  genesis : getGenesisQc support storage.chain = some genesisQc
  baseCommitQc : storage.baseCommitQc = confirmedQc genesisQc storage.chain
  baseBlockHash : storage.baseBlockHash = support.confirmedBlockHash storage.chain
  view : storage.db.view.getD 0 = storage.view
  prepareQc : storage.db.prepareQc.getD genesisQc = storage.prepareQc
  lockedQc : storage.db.lockedQc.getD genesisQc = storage.lockedQc
  nodes : storage.nodes = []
  dbNodes : storage.db.nodes.getD [] = []
  nodup : (storage.proposals.map Prod.fst).Nodup
  listed : ∀ p ∈ storage.proposals, p ∈ proposalIndex storage.db
  body : ∀ p ∈ storage.db.proposal, ∃ q ∈ storage.proposals, q.1 = p.1

/-- What a persisted storage has to satisfy to be consistent. -/
structure Sound (storage : Storage) : Prop where
  index : ∀ p ∈ proposalIndex storage.db, p ∈ storage.proposals
  onBase : ∀ p ∈ storage.proposals, p.2.parentHash = storage.baseBlockHash
  view : wrapAdd 64 storage.baseCommitQc.view 1 ≤ storage.view
  prepareQc : storage.prepareQc.view ≤ storage.baseCommitQc.view →
    storage.prepareQc = storage.baseCommitQc
  lockedQc : storage.lockedQc.view ≤ storage.baseCommitQc.view →
    storage.lockedQc = storage.baseCommitQc

variable {support}

/-- No nodes on disk: a refresh keeps none. -/
theorem nodes_of_refresh {chain : Chain} {db : Db} {storage : Storage}
    (h : refresh support chain db = some storage) (hdb : db.nodes.getD [] = []) :
    storage.nodes = [] ∧ storage.db.nodes.getD [] = [] := by
  unfold refresh at h
  cases hgenesis : getGenesisQc support chain with
  | none =>
      rw [hgenesis] at h
      cases h
  | some genesisQc =>
      rw [hgenesis] at h
      simp only [Option.some.injEq] at h
      obtain ⟨⟨view, hv⟩, -⟩ := fixView_spec db (confirmedQc genesisQc chain)
      rw [hv] at h
      obtain ⟨⟨prepareQc, hp⟩, -⟩ :=
        fixPrepareQc_spec { db with view } genesisQc (confirmedQc genesisQc chain)
      rw [hp] at h
      obtain ⟨⟨lockedQc, hl⟩, -⟩ :=
        fixLockedQc_spec { db with view, prepareQc } genesisQc (confirmedQc genesisQc chain)
      rw [hl] at h
      have hn : fixNodes { db with view, prepareQc, lockedQc }
          (support.confirmedBlockHash chain) = ({ db with view, prepareQc, lockedQc }, []) := by
        simp [fixNodes, hdb, collectMap]
      rw [hn] at h
      subst h
      constructor
      · rfl
      · simp only [fixProposals]
        split
        · exact hdb
        · rfl

theorem refresh_isSome {chain : Chain} {genesisQc : QC}
    (h : getGenesisQc support chain = some genesisQc) (db : Db) :
    ∃ storage, refresh support chain db = some storage := by
  unfold refresh
  rw [h]
  exact ⟨_, rfl⟩

theorem Persisted.refresh {chain : Chain} {db : Db} {storage : Storage}
    (h : refresh support chain db = some storage) (hnodes : db.nodes.getD [] = [])
    (hbody : ∀ p ∈ db.proposal, ∃ q ∈ proposalIndex db, q.1 = p.1) :
    ∃ genesisQc, storage.Persisted support genesisQc := by
  obtain ⟨genesisQc, hr⟩ := refreshed_of_refresh h
  obtain ⟨hn, hdbn⟩ := nodes_of_refresh h hnodes
  have hindex : proposalIndex storage.db = proposalIndex db := by
    rw [proposalIndex, proposalIndex, hr.dbProposals]
  have hmem : ∀ p, p ∈ storage.proposals ↔
      p ∈ proposalIndex db ∧ p.2.parentHash = storage.baseBlockHash := by
    intro p
    rw [hr.proposals, List.mem_filter, proposalIndex]
    simp
  refine ⟨genesisQc, by rw [hr.chain]; exact hr.genesis, by rw [hr.chain]; exact hr.baseCommitQc,
    by rw [hr.chain]; exact hr.baseBlockHash, hr.dbView, hr.dbPrepareQc, hr.dbLockedQc, hn, hdbn,
    ?_, ?_, ?_⟩
  · rw [hr.proposals]
    exact (nodup_collectMap _).sublist (List.filter_sublist.map _)
  · intro p hp
    rw [hindex]
    exact ((hmem p).1 hp).1
  · intro p hp
    obtain ⟨hdb, hleft⟩ := hr.proposal p hp
    obtain ⟨q, hq, hkey⟩ := hbody p hdb
    exact ⟨q, (hmem q).2 ⟨hq, hleft q hq hkey⟩, hkey⟩

theorem Persisted.putProposal {storage : Storage} {genesisQc : QC}
    (h : storage.Persisted support genesisQc) (proposal : Proposal) :
    (storage.putProposal proposal).Persisted support genesisQc where
  genesis := h.genesis
  baseCommitQc := h.baseCommitQc
  baseBlockHash := h.baseBlockHash
  view := h.view
  prepareQc := h.prepareQc
  lockedQc := h.lockedQc
  nodes := h.nodes
  dbNodes := h.dbNodes
  nodup := AssocMap.nodup_keys_insert _ _ h.nodup
  listed := fun _ hp => (mem_collectMap (AssocMap.nodup_keys_insert _ _ h.nodup)).2 hp
  body := by
    intro p hp
    rcases AssocMap.mem_insert_iff.1 hp with rfl | ⟨hmem, hne⟩
    · exact ⟨_, AssocMap.mem_insert_iff.2 (Or.inl rfl), rfl⟩
    · obtain ⟨q, hq, hkey⟩ := h.body p hmem
      exact ⟨q, AssocMap.mem_insert_iff.2 (Or.inr ⟨hq, hkey ▸ hne⟩), hkey⟩

/-- Every operation leaves a persisted storage, and none panics on one. -/
theorem Persisted.apply {storage : Storage} {genesisQc : QC}
    (h : storage.Persisted support genesisQc) (op : Op) :
    ∃ storage', storage.apply support op = some storage' ∧
      ∃ genesisQc, storage'.Persisted support genesisQc := by
  cases op with
  | putProposal proposal => exact ⟨_, rfl, genesisQc, h.putProposal proposal⟩
  | refresh blocks =>
      have hgenesis : getGenesisQc support (blocks ++ storage.chain) = some genesisQc := by
        rw [← h.genesis]
        simp [getGenesisQc, Support.getHotstuffAuthorities]
      obtain ⟨storage', hr⟩ := refresh_isSome hgenesis storage.db
      have hbody : ∀ p ∈ storage.db.proposal, ∃ q ∈ proposalIndex storage.db, q.1 = p.1 := by
        intro p hp
        obtain ⟨q, hq, hkey⟩ := h.body p hp
        exact ⟨q, h.listed q hq, hkey⟩
      exact ⟨storage', hr, Persisted.refresh hr h.dbNodes hbody⟩
  | updateView view => exact ⟨_, rfl, genesisQc, { h with view := rfl }⟩
  | updatePrepareQc prepareQc => exact ⟨_, rfl, genesisQc, { h with prepareQc := rfl }⟩
  | updateLockedQc lockedQc => exact ⟨_, rfl, genesisQc, { h with lockedQc := rfl }⟩

/-! ## Consistency -/

/-- What a storage opened on the same database reads. -/
theorem Persisted.opened {storage : Storage} {genesisQc : QC}
    (h : storage.Persisted support genesisQc) :
    ∃ opened, new support storage.chain storage.db = some opened ∧
      opened.view = (if storage.view < wrapAdd 64 storage.baseCommitQc.view 1 then
        wrapAdd 64 storage.baseCommitQc.view 1 else storage.view) ∧
      opened.prepareQc = (if storage.prepareQc.view ≤ storage.baseCommitQc.view then
        storage.baseCommitQc else storage.prepareQc) ∧
      opened.lockedQc = (if storage.lockedQc.view ≤ storage.baseCommitQc.view then
        storage.baseCommitQc else storage.lockedQc) ∧
      opened.nodes = storage.nodes ∧
      opened.proposals =
        (proposalIndex storage.db).filter fun p => p.2.parentHash = storage.baseBlockHash := by
  obtain ⟨opened, hopened⟩ := refresh_isSome h.genesis storage.db
  obtain ⟨genesisQc', hr⟩ := refreshed_of_refresh hopened
  have hsame : genesisQc' = genesisQc := Option.some.inj (hr.genesis.symm.trans h.genesis)
  subst hsame
  have hbase : opened.baseCommitQc = storage.baseCommitQc :=
    hr.baseCommitQc.trans h.baseCommitQc.symm
  have hhash : opened.baseBlockHash = storage.baseBlockHash :=
    hr.baseBlockHash.trans h.baseBlockHash.symm
  have hview := hr.view
  have hprepare := hr.prepareQc
  have hlocked := hr.lockedQc
  have hproposals := hr.proposals
  rw [hbase, h.view] at hview
  rw [hbase, h.prepareQc] at hprepare
  rw [hbase, h.lockedQc] at hlocked
  rw [hhash] at hproposals
  have hnodes : opened.nodes = storage.nodes := by
    rw [h.nodes, (nodes_of_refresh hopened h.dbNodes).1]
  exact ⟨opened, hopened, hview, hprepare, hlocked, hnodes, hproposals⟩

theorem Persisted.sound {storage : Storage} {genesisQc : QC}
    (h : storage.Persisted support genesisQc) (hc : storage.Consistent support) :
    storage.Sound := by
  have hindex := nodup_collectMap (storage.db.proposals.getD [])
  obtain ⟨opened, hopened, hview, hprepare, hlocked, -, hproposals⟩ := h.opened
  obtain ⟨opened', hnew, hv, hp, hl, -, hprop⟩ := hc.reopened
  cases hopened.symm.trans hnew
  constructor
  · intro p hmem
    have hget := (AssocMap.get?_eq_some_iff hindex).2 hmem
    exact AssocMap.mem_of_get?_eq_some ((hc.index p.1).symm.trans hget)
  · intro p hmem
    have hget := (AssocMap.get?_eq_some_iff h.nodup).2 hmem
    have hopen := AssocMap.mem_of_get?_eq_some ((hprop p.1).trans hget)
    rw [hproposals] at hopen
    simpa using (List.mem_filter.1 hopen).2
  · rw [hv] at hview
    split at hview <;> omega
  · intro hle
    rw [← hp, hprepare, if_pos hle]
  · intro hle
    rw [← hl, hlocked, if_pos hle]

theorem Sound.consistent {storage : Storage} {genesisQc : QC} (hs : storage.Sound)
    (h : storage.Persisted support genesisQc) : storage.Consistent support := by
  have hindex := nodup_collectMap (storage.db.proposals.getD [])
  have hmem : ∀ p, p ∈ proposalIndex storage.db ↔ p ∈ storage.proposals :=
    fun p => ⟨hs.index p, h.listed p⟩
  obtain ⟨opened, hopened, hview, hprepare, hlocked, hnodes, hproposals⟩ := h.opened
  constructor
  · exact AssocMap.get?_congr hindex h.nodup hmem
  · intro p hp
    obtain ⟨q, hq, hkey⟩ := h.body p hp
    rw [← hkey, proposalIndex, (AssocMap.get?_eq_some_iff hindex).2 (h.listed q hq)]
    rfl
  · refine ⟨opened, hopened, ?_, ?_, ?_, ?_, ?_⟩
    · rw [hview, if_neg (Nat.not_lt.2 hs.view)]
    · rw [hprepare]
      split
      · next hle => exact (hs.prepareQc hle).symm
      · rfl
    · rw [hlocked]
      split
      · next hle => exact (hs.lockedQc hle).symm
      · rfl
    · intro blockHash
      rw [hnodes]
    · rw [hproposals]
      apply AssocMap.get?_congr (hindex.sublist (List.filter_sublist.map _)) h.nodup
      intro p
      constructor
      · intro hp
        exact (hmem p).1 (List.mem_filter.1 hp).1
      · intro hp
        exact List.mem_filter.2 ⟨(hmem p).2 hp, by simpa using hs.onBase p hp⟩

theorem Persisted.consistent_iff {storage : Storage} {genesisQc : QC}
    (h : storage.Persisted support genesisQc) :
    storage.Consistent support ↔ storage.Sound :=
  ⟨h.sound, fun hs => hs.consistent h⟩

/-! ## Which operations keep it -/

theorem Sound.putProposal_iff {storage : Storage} {genesisQc : QC} (hs : storage.Sound)
    (h : storage.Persisted support genesisQc) (proposal : Proposal) :
    (storage.putProposal proposal).Sound ↔ storage.Keeps support (.putProposal proposal) := by
  have hnodup := AssocMap.nodup_keys_insert proposal.blockHash
    (⟨proposal.parentHash, proposal.blockHash⟩ : Node) h.nodup
  constructor
  · intro hs'
    exact hs'.onBase (proposal.blockHash, ⟨proposal.parentHash, proposal.blockHash⟩)
      (AssocMap.mem_insert_iff.2 (Or.inl rfl))
  · intro hkeeps
    refine ⟨fun p hp => (mem_collectMap hnodup).1 hp, ?_, hs.view, hs.prepareQc, hs.lockedQc⟩
    intro p hp
    rcases AssocMap.mem_insert hp with rfl | hp
    · exact hkeeps
    · exact hs.onBase p hp

/-- A refresh leaves the index on disk as it was, so the storage is sound when
nothing had to be dropped from it. -/
theorem Refreshed.sound_iff {chain : Chain} {db : Db} {storage : Storage} {genesisQc : QC}
    (hr : Refreshed support chain db storage genesisQc) :
    storage.Sound ↔ ∀ p ∈ proposalIndex db, p.2.parentHash = storage.baseBlockHash := by
  have hindex : proposalIndex storage.db = proposalIndex db := by
    rw [proposalIndex, proposalIndex, hr.dbProposals]
  have hmem : ∀ p, p ∈ storage.proposals ↔
      p ∈ proposalIndex db ∧ p.2.parentHash = storage.baseBlockHash := by
    intro p
    rw [hr.proposals, List.mem_filter, decide_eq_true_eq, proposalIndex]
  constructor
  · intro hs p hp
    exact ((hmem p).1 (hs.index p (hindex ▸ hp))).2
  · intro hall
    refine ⟨?_, fun p hp => ((hmem p).1 hp).2, ?_, ?_, ?_⟩
    · intro p hp
      rw [hindex] at hp
      exact (hmem p).2 ⟨hp, hall p hp⟩
    · rw [hr.view]
      split <;> omega
    · rw [hr.prepareQc]
      split
      · exact fun _ => rfl
      · next hlt => exact fun hle => absurd hle hlt
    · rw [hr.lockedQc]
      split
      · exact fun _ => rfl
      · next hlt => exact fun hle => absurd hle hlt

theorem Sound.refresh_iff {storage storage' : Storage} {genesisQc : QC}
    (hs : storage.Sound) (h : storage.Persisted support genesisQc)
    {blocks : List ConfirmedBlock}
    (hop : storage.apply support (.refresh blocks) = some storage') :
    storage'.Sound ↔ storage.Keeps support (.refresh blocks) := by
  obtain ⟨genesisQc', hr⟩ := refreshed_of_refresh hop
  rw [hr.sound_iff, hr.baseBlockHash]
  exact ⟨fun hall p hp => hall p (h.listed p hp), fun hall p hp => hall p (hs.index p hp)⟩

/-- After an operation a sound storage is sound exactly when it keeps it. -/
theorem Sound.apply_iff {storage storage' : Storage} {genesisQc : QC} (hs : storage.Sound)
    (h : storage.Persisted support genesisQc) {op : Op}
    (hop : storage.apply support op = some storage') :
    storage'.Sound ↔ storage.Keeps support op := by
  cases op with
  | putProposal proposal =>
      cases hop
      exact hs.putProposal_iff h proposal
  | refresh blocks => exact hs.refresh_iff h hop
  | updateView view =>
      cases hop
      exact ⟨Sound.view, fun hkeeps => { hs with view := hkeeps }⟩
  | updatePrepareQc prepareQc =>
      cases hop
      exact ⟨Sound.prepareQc, fun hkeeps => { hs with prepareQc := hkeeps }⟩
  | updateLockedQc lockedQc =>
      cases hop
      exact ⟨Sound.lockedQc, fun hkeeps => { hs with lockedQc := hkeeps }⟩

theorem Persisted.visited_iff {storage : Storage} {genesisQc : QC}
    (h : storage.Persisted support genesisQc) (hs : storage.Sound) (ops : List Op) :
    (∀ visit ∈ storage.visited support ops, visit.Consistent support) ↔
      storage.Kept support ops := by
  induction ops generalizing storage genesisQc with
  | nil => simp [visited, Kept, hs.consistent h]
  | cons op ops ih =>
      obtain ⟨storage', happly, genesisQc', h'⟩ := h.apply op
      rw [visited, Kept, happly]
      simp only [List.mem_cons, forall_eq_or_imp, hs.consistent h, true_and, Option.mem_some_iff,
        forall_eq']
      rw [← hs.apply_iff h happly]
      constructor
      · intro hall
        have hmem : storage' ∈ storage'.visited support ops := by
          cases ops <;> simp [visited]
        have hs' := h'.sound (hall storage' hmem)
        exact ⟨hs', (ih h' hs').1 hall⟩
      · rintro ⟨hs', hkept⟩
        exact (ih h' hs').2 hkept

/-- A storage that is opened on a new database stays consistent over a sequence
of operations exactly when it keeps each of them. -/
theorem consistent_iff_kept {chain : Chain} {storage : Storage}
    (h : new support chain Db.empty = some storage) (ops : List Op) :
    (∀ visit ∈ storage.visited support ops, visit.Consistent support) ↔
      storage.Kept support ops := by
  obtain ⟨genesisQc, hp⟩ := Persisted.refresh h rfl fun p hp => by cases hp
  obtain ⟨genesisQc', hr⟩ := refreshed_of_refresh h
  have hs : storage.Sound := hr.sound_iff.2 fun p hp => by cases hp
  exact hp.visited_iff hs ops

end Storage

namespace Sample

/-- A proposal on the genesis block. -/
def firstProposal : Proposal where
  parentHash := (support 4).genesisHash
  blockHash := ⟨[8]⟩
  number := 1
  timestamp := 1
  metaTxs := []
  payloadTxs := []
  executionNumber := 0

/-- The block of another proposal, committed in view `1`. -/
def firstBlock : ConfirmedBlock where
  blockHash := ⟨[9]⟩
  header := { genesisHeader with number := 1, parentHash := (support 4).genesisHash }
  commitQc :=
    { messageType := .commit
      view := 1
      node := { parentHash := (support 4).genesisHash, blockHash := ⟨[9]⟩ }
      leaderAddress := ⟨[1]⟩
      sig := [] }

end Sample

/-- A proposal is stored, the view moves on, and the storage is refreshed. -/
theorem consistent_keptProposal :
    ∃ storage, Storage.new (Sample.support 4) [] Db.empty = some storage ∧
      ∀ visit ∈ storage.visited (Sample.support 4)
        [.putProposal Sample.firstProposal, .updateView 2, .refresh []],
        visit.Consistent (Sample.support 4) := by
  obtain ⟨storage, h⟩ : ∃ storage, Storage.new (Sample.support 4) [] Db.empty = some storage :=
    ⟨_, rfl⟩
  refine ⟨storage, h, (Storage.consistent_iff_kept h _).2 ?_⟩
  cases h
  refine ⟨by decide, ?_⟩
  rintro _ ⟨⟩
  refine ⟨by decide, ?_⟩
  rintro _ ⟨⟩
  refine ⟨by decide, ?_⟩
  rintro _ ⟨⟩
  trivial

/-- A block is committed and the proposal beside it is dropped: the index on
disk still has it. -/
theorem not_consistent_droppedProposal :
    ∃ storage, Storage.new (Sample.support 4) [] Db.empty = some storage ∧
      ∃ visit ∈ storage.visited (Sample.support 4)
        [.putProposal Sample.firstProposal, .refresh [Sample.firstBlock]],
        ¬ visit.Consistent (Sample.support 4) := by
  refine ⟨_, rfl, _, List.mem_of_getElem? (i := 2) rfl, fun h => ?_⟩
  exact absurd (h.index ⟨[8]⟩) (by decide)

end Finastate.Hotstuff
