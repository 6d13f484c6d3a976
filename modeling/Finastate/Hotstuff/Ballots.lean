import Finastate.Library.VoteLog
import Finastate.Hotstuff.Network

/-!
# Ballots of a network

The votes that honest nodes sign are the ballots of a `VoteLog`: voters are
addresses, blocks are hashes, and a block has the parent and the height of the
header behind its hash. What a node stores is read against the log: the chain
holds committed blocks, the lock is a known certificate, a stored proposal lies
above the base block.
-/

namespace Finastate.Hotstuff

open VoteLog (Phase Ballot Ref Cast)

def MessageType.phase? : MessageType → Option Phase
  | .prepare => some .prepare
  | .preCommit => some .preCommit
  | .commit => some .commit
  | _ => none

/-- What a certificate is about. -/
def QC.ref (qc : QC) : Ref Hash := ⟨qc.view, qc.node.blockHash⟩

/-- The block that votes are cast on top of. -/
def Storage.base (storage : Storage) : Hash := storage.baseCommitQc.node.blockHash

namespace Authorities

/-- The quorum of the code is `n - f` when the weights fit into `u32`. -/
theorem quorum_eq {authorities : Authorities} (hpos : 0 < Weights.total authorities.members)
    (hlt : Weights.total authorities.members < 2 ^ 32) :
    authorities.quorum = authorities.exactQuorum := by
  have hn : authorities.n = Weights.total authorities.members := by
    unfold n
    rw [foldl_wrapAdd _ 0 (by omega), Nat.zero_add]
  have hf : authorities.f = (Weights.total authorities.members - 1) / 3 := by
    rw [f, hn, wrapSub_of_le hlt hpos]
  rw [quorum, exactQuorum, hn, hf, wrapSub_of_le hlt (by omega)]

end Authorities

namespace Network

variable (net : Network)

theorem nodup_members : (net.authorities.members.map Prod.fst).Nodup := by
  rw [← net.fixed []]
  exact nodup_aggregateAuthorities _

theorem exactQuorum_pos : 0 < net.authorities.exactQuorum := by
  have := net.total_pos
  rw [Authorities.exactQuorum]
  omega

/-- Two quorums share an honest member. -/
theorem exists_honest {s t : Finset Address}
    (hs : net.authorities.exactQuorum ≤ Weights.weightOf net.authorities.members s)
    (ht : net.authorities.exactQuorum ≤ Weights.weightOf net.authorities.members t) :
    ∃ a ∈ net.honest, a ∈ s ∧ a ∈ t := by
  have hfaulty : Weights.weightOf net.authorities.members ((s ∪ t) \ net.honest) ≤
      (Weights.total net.authorities.members - 1) / 3 := by
    refine le_trans (Weights.weightOf_le_of_keys _ fun a ha hkey => ?_) net.faulty_le
    exact Finset.mem_sdiff.2 ⟨List.mem_toFinset.2 hkey, (Finset.mem_sdiff.1 ha).2⟩
  have hq : Weights.total net.authorities.members +
      (Weights.total net.authorities.members - 1) / 3 <
        2 * net.authorities.exactQuorum := by
    have := net.total_pos
    rw [Authorities.exactQuorum]
    omega
  obtain ⟨a, has, hat, hnot⟩ :=
    Weights.exists_mem_inter_of_quorums hq hs ht hfaulty
  refine ⟨a, ?_, has, hat⟩
  by_contra hhonest
  exact hnot (Finset.mem_sdiff.2 ⟨Finset.mem_union_left t has, hhonest⟩)

open Classical in
/-- The header behind a hash. -/
noncomputable def headerOf (hash : Hash) : Option Header :=
  if h : ∃ header, net.support.basic.hash header = hash then some h.choose else none

@[simp] theorem headerOf_hash (header : Header) :
    net.headerOf (net.support.basic.hash header) = some header := by
  have h : ∃ x, net.support.basic.hash x = net.support.basic.hash header := ⟨header, rfl⟩
  rw [headerOf, dif_pos h, net.hash_injective h.choose_spec]

/-- The members that are not faulty as voters, the hashes as blocks. -/
noncomputable def system : VoteLog.System Address Hash where
  honest := ↑net.honest
  quorum := { s | net.authorities.exactQuorum ≤ Weights.weightOf net.authorities.members s }
  meet := fun _ hs _ ht => net.exists_honest hs ht
  genesis := net.support.genesisHash
  parent hash := ((net.headerOf hash).map Header.parentHash).getD hash
  height hash := ((net.headerOf hash).map Header.number).getD 0
  height_genesis := by
    rw [Consensus.Support.genesisHash, headerOf_hash]
    exact net.genesis_number

@[simp] theorem parent_hash (header : Header) :
    net.system.parent (net.support.basic.hash header) = header.parentHash := by
  simp [system]

@[simp] theorem height_hash (header : Header) :
    net.system.height (net.support.basic.hash header) = header.number := by
  simp [system]

@[simp] theorem height_genesisHash : net.system.height net.support.genesisHash = 0 :=
  net.system.height_genesis

variable (log : List (Ballot Address Hash))

/-- The vote of an honest node is in the log. -/
def Voted (a : Address) (t : MessageType) (view : Nat) (node : Option Node) : Prop :=
  ∃ n phase, node = some n ∧ t.phase? = some phase ∧ Cast log a phase view n.blockHash

/-- If members of quorum weight have signed the certificate, then it is one of the
log. -/
def Sound (qc : QC) : Prop :=
  QuorumSigned net.support.basic net.authorities qc.sigMessage qc.sig →
    ∃ phase, qc.messageType.phase? = some phase ∧
      net.system.Cert log phase qc.view qc.node.blockHash

/-- What honest nodes have signed of a message is in the log. -/
structure SoundMessage (message : ConsensusMessage) : Prop where
  justify : ∀ qc ∈ message.justify, net.Sound log qc
  sig : ∀ s ∈ message.sig, net.support.basic.address s.1 ∈ net.honest →
    ∀ t view node leader,
      net.support.basic.verify (.vote t view node leader) s.1 s.2 = .ok () →
        Voted log (net.support.basic.address s.1) t view node

variable {net} {log} {log' : List (Ballot Address Hash)}

theorem Voted.mono (hsub : log ⊆ log') {a : Address} {t : MessageType} {view : Nat}
    {node : Option Node} (h : Voted log a t view node) : Voted log' a t view node := by
  obtain ⟨n, phase, hn, hphase, hcast⟩ := h
  exact ⟨n, phase, hn, hphase, hcast.mono hsub⟩

theorem Sound.mono (hsub : log ⊆ log') {qc : QC} (h : net.Sound log qc) :
    net.Sound log' qc := by
  intro hsigned
  obtain ⟨phase, hphase, hcert⟩ := h hsigned
  exact ⟨phase, hphase, hcert.mono hsub⟩

theorem SoundMessage.mono (hsub : log ⊆ log') {message : ConsensusMessage}
    (h : net.SoundMessage log message) : net.SoundMessage log' message where
  justify := fun qc hqc => (h.justify qc hqc).mono hsub
  sig := fun s hs hhonest t view node leader hverify =>
    (h.sig s hs hhonest t view node leader hverify).mono hsub

/-- A genuine certificate of a later view than `0` is one of the log. -/
theorem Sound.cert {qc : QC} (h : net.Sound log qc)
    (hgenuine : qc.Genuine net.support net.authorities) (hview : qc.view ≠ 0) :
    ∃ phase, qc.messageType.phase? = some phase ∧
      net.system.Cert log phase qc.view qc.node.blockHash := by
  rw [QC.Genuine, if_neg hview] at hgenuine
  exact h ((quorumSigned_iff_le_signedWeight _ net.nodup_members _ _).2 hgenuine)

theorem Sound.known {qc : QC} (h : net.Sound log qc)
    (hgenuine : qc.Genuine net.support net.authorities) : net.system.Known log qc.ref := by
  by_cases hview : qc.view = 0
  · left
    rw [QC.Genuine, if_pos hview] at hgenuine
    rw [QC.ref, hview, hgenuine]
    rfl
  · obtain ⟨phase, -, hcert⟩ := h.cert hgenuine hview
    exact Or.inr ⟨phase, hcert⟩

/-- A certificate of the log is sound. -/
theorem Sound.of_cert {qc : QC} {phase : Phase} (hphase : qc.messageType.phase? = some phase)
    (hcert : net.system.Cert log phase qc.view qc.node.blockHash) : net.Sound log qc :=
  fun _ => ⟨phase, hphase, hcert⟩

/-- Nobody has signed an empty list. -/
theorem Sound.of_sig_nil {qc : QC} (hsig : qc.sig = []) : net.Sound log qc := by
  rintro ⟨s, hsigned, hquorum⟩
  have hempty : s = ∅ := by
    rw [Finset.eq_empty_iff_forall_notMem]
    intro a ha
    obtain ⟨x, hx, -⟩ := hsigned a ha
    rw [hsig] at hx
    cases hx
  rw [hempty, Weights.weightOf, Finset.sum_empty] at hquorum
  exact absurd hquorum (not_le.2 net.exactQuorum_pos)

/-! ## The chain -/

/-- A chain of blocks that honest nodes have voted to commit. -/
inductive Confirmed (net : Network) (log : List (Ballot Address Hash)) : Chain → Prop
  | nil : Confirmed net log []
  | cons {chain : Chain} {block : ConfirmedBlock} (h : Confirmed net log chain)
      (hash : block.blockHash = net.support.basic.hash block.header)
      (number : block.header.number = chain.length + 1)
      (parent : block.header.parentHash = net.support.confirmedBlockHash chain)
      (type : block.commitQc.messageType = .commit)
      (node : block.commitQc.node.blockHash = block.blockHash)
      (cert : net.system.Cert log .commit block.commitQc.view block.blockHash) :
      Confirmed net log (block :: chain)

theorem Confirmed.mono (hsub : log ⊆ log') {chain : Chain} (h : net.Confirmed log chain) :
    net.Confirmed log' chain := by
  induction h with
  | nil => exact .nil
  | cons h hash number parent type node cert ih =>
      exact .cons ih hash number parent type node (cert.mono hsub)

theorem Confirmed.suffix {chain chain' : Chain} (h : net.Confirmed log chain)
    (hsuffix : chain' <:+ chain) : net.Confirmed log chain' := by
  obtain ⟨later, rfl⟩ := hsuffix
  induction later with
  | nil => exact h
  | cons block later ih =>
      cases h with
      | cons h hash number parent type node cert => exact ih h

theorem Confirmed.height_eq {chain : Chain} (h : net.Confirmed log chain) :
    net.system.height (net.support.confirmedBlockHash chain) = chain.length := by
  cases h with
  | nil => exact net.height_genesisHash
  | cons h hash number parent type node cert =>
      rw [Support.confirmedBlockHash_cons, hash, height_hash, number, List.length_cons]

/-- The hashes of a confirmed chain are a chain of the log. -/
theorem Confirmed.chain {chain : Chain} (h : net.Confirmed log chain) :
    net.system.Chain log (chain.map ConfirmedBlock.blockHash) := by
  induction h with
  | nil => exact .nil
  | @cons chain block h hash number parent type node cert ih =>
      refine .cons ih ?_ cert
      rw [hash, parent_hash, parent]
      cases chain with
      | nil => rfl
      | cons block chain => rfl

/-! ## The storage -/

/-- What is stored of a proposal: its block is built on the parent it names, and
lies above the base. -/
structure Stored (net : Network) (storage : Storage) (hash : Hash) (proposal : Proposal) :
    Prop where
  key : proposal.blockHash = hash
  parent : net.system.parent hash = proposal.parentHash
  height : net.system.height hash = net.system.height proposal.parentHash + 1
  above : net.system.height storage.base < net.system.height hash
  indexed : ∃ q ∈ storage.proposals, q.1 = hash ∧ q.2.parentHash = proposal.parentHash

/-- What a node has in its storage, in memory and on disk. -/
structure StorageInv (net : Network) (log : List (Ballot Address Hash)) (storage : Storage) :
    Prop where
  dbView : storage.db.view.getD 0 = storage.view
  confirmed : net.Confirmed log storage.chain
  base : ∃ blocks, blocks <:+ storage.chain ∧
    storage.base = net.support.confirmedBlockHash blocks
  prepareQc : net.Sound log storage.prepareQc
  dbPrepareQc : ∀ qc ∈ storage.db.prepareQc, net.Sound log qc
  lockedQc : net.system.Known log storage.lockedQc.ref
  dbLockedQc : ∀ qc ∈ storage.db.lockedQc, net.system.Known log qc.ref
  dbLockedView : ∀ qc : QC, qc.view = 0 →
    (storage.db.lockedQc.getD qc).view = storage.lockedQc.view
  proposal : ∀ p ∈ storage.db.proposal, net.Stored storage p.1 p.2
  proposals : ∀ q ∈ storage.proposals, q ∈ collectMap (storage.db.proposals.getD [])
  nodup : (storage.proposals.map Prod.fst).Nodup

variable {storage : Storage}

theorem StorageInv.mono (hsub : log ⊆ log') (h : net.StorageInv log storage) :
    net.StorageInv log' storage :=
  { h with
    confirmed := h.confirmed.mono hsub
    prepareQc := h.prepareQc.mono hsub
    dbPrepareQc := fun qc hqc => (h.dbPrepareQc qc hqc).mono hsub
    lockedQc := h.lockedQc.mono hsub
    dbLockedQc := fun qc hqc => (h.dbLockedQc qc hqc).mono hsub }

/-- The base is not above the chain. -/
theorem StorageInv.height_base_le (h : net.StorageInv log storage) :
    net.system.height storage.base ≤ storage.chain.length := by
  obtain ⟨blocks, hsuffix, hbase⟩ := h.base
  rw [hbase, (h.confirmed.suffix hsuffix).height_eq]
  exact hsuffix.length_le

theorem StorageInv.updateView (h : net.StorageInv log storage) (view : Nat) :
    net.StorageInv log (storage.updateView view) :=
  { h with
    dbView := rfl
    proposal := fun p hp => { h.proposal p hp with } }

theorem StorageInv.updatePrepareQc (h : net.StorageInv log storage) {qc : QC}
    (hqc : net.Sound log qc) : net.StorageInv log (storage.updatePrepareQc qc) :=
  { h with
    prepareQc := hqc
    dbPrepareQc := by
      rintro x hx
      cases hx
      exact hqc
    proposal := fun p hp => { h.proposal p hp with } }

theorem StorageInv.updateLockedQc (h : net.StorageInv log storage) {qc : QC}
    (hqc : net.system.Known log qc.ref) : net.StorageInv log (storage.updateLockedQc qc) :=
  { h with
    lockedQc := hqc
    dbLockedQc := by
      rintro x hx
      cases hx
      exact hqc
    dbLockedView := fun _ _ => rfl
    proposal := fun p hp => { h.proposal p hp with } }

/-- A new block of the chain. -/
theorem StorageInv.commitBlock (h : net.StorageInv log storage) {params : CommitBlockParams}
    {qc : QC} {chain : Chain}
    (hcommit : net.support.commitBlock storage.chain params qc = .ok chain)
    (hhash : params.blockHash = net.support.basic.hash params.header)
    (htype : qc.messageType = .commit) (hnode : qc.node.blockHash = params.blockHash)
    (hcert : net.system.Cert log .commit qc.view qc.node.blockHash) :
    net.StorageInv log { storage with chain } := by
  obtain ⟨rfl, hnumber, hparent⟩ := Support.commitBlock_eq_ok hcommit
  obtain ⟨blocks, hsuffix, hbase⟩ := h.base
  rw [hnode] at hcert
  exact { h with
    confirmed := .cons h.confirmed hhash hnumber hparent htype hnode hcert
    base := ⟨blocks, hsuffix.trans (List.suffix_cons _ _), hbase⟩
    proposal := fun p hp => { h.proposal p hp with } }

/-- A proposal that the node has built on top of its chain. -/
theorem StorageInv.putProposal (h : net.StorageInv log storage) {proposal : Proposal}
    {x : CommitBlockParams} {p : BuildBlockParams}
    (hbuilt : net.support.buildBlock storage.chain p = .ok x)
    (hnumber : p.number = storage.chain.length + 1)
    (hparent : proposal.parentHash = x.header.parentHash)
    (hhash : proposal.blockHash = x.blockHash) :
    net.StorageInv log (storage.putProposal proposal) := by
  obtain ⟨hblock, hheader, hof⟩ := Consensus.Support.buildBlock_eq_ok hbuilt
  rw [hnumber, Consensus.Support.parentHashOf, Consensus.Support.getBlockHash_length] at hof
  have hconfirmed : net.support.confirmedBlockHash storage.chain = proposal.parentHash :=
    (Option.some.inj hof).trans hparent.symm
  have hheight : net.system.height proposal.blockHash = storage.chain.length + 1 := by
    rw [hhash, hblock, height_hash, hheader, hnumber]
  have hbelow : net.system.height proposal.parentHash = storage.chain.length := by
    rw [← hconfirmed, h.confirmed.height_eq]
  have hnodup := AssocMap.nodup_keys_insert proposal.blockHash
    { blockHash := proposal.blockHash, parentHash := proposal.parentHash : Node } h.nodup
  refine { h with proposal := ?_, proposals := ?_, nodup := hnodup }
  · intro q hq
    rcases AssocMap.mem_insert_iff.1 hq with rfl | ⟨hq, hne⟩
    · exact
        { key := rfl
          parent := by rw [hhash, hblock, parent_hash, hparent]
          height := by rw [hheight, hbelow]
          above := by
            rw [hheight]
            exact Nat.lt_succ_of_le h.height_base_le
          indexed := ⟨_, List.mem_cons_self, rfl, rfl⟩ }
    · have hold := h.proposal q hq
      obtain ⟨r, hr, hkey, hr'⟩ := hold.indexed
      refine { hold with indexed := ⟨r, ?_, hkey, hr'⟩ }
      exact AssocMap.mem_insert_iff.2 (Or.inr ⟨hr, by rw [hkey]; exact hne⟩)
  · exact fun q hq => (Storage.mem_collectMap hnodup).2 hq

/-! ## Reading the storage again -/

/-- The genesis certificate. -/
theorem genesisQc_spec {chain : Chain} {genesisQc : QC}
    (h : getGenesisQc net.support chain = some genesisQc) :
    genesisQc.view = 0 ∧ net.Sound log genesisQc ∧
      genesisQc.ref = ⟨0, net.support.genesisHash⟩ := by
  unfold getGenesisQc at h
  split at h
  · cases h
  · cases h
    exact ⟨rfl, .of_sig_nil rfl, rfl⟩

/-- The certificate of the confirmed block is known, and for that block. -/
theorem Confirmed.confirmedQc {chain : Chain} (h : net.Confirmed log chain) {genesisQc : QC}
    (hgenesis : getGenesisQc net.support chain = some genesisQc) :
    net.Sound log (Storage.confirmedQc genesisQc chain) ∧
      net.system.Known log (Storage.confirmedQc genesisQc chain).ref ∧
      (Storage.confirmedQc genesisQc chain).node.blockHash =
        net.support.confirmedBlockHash chain := by
  cases h with
  | nil =>
      obtain ⟨-, hsound, href⟩ := genesisQc_spec hgenesis
      exact ⟨hsound, Or.inl href, congrArg Ref.block href⟩
  | cons h hash number parent type node cert =>
      rw [← node] at cert
      refine ⟨.of_cert ?_ cert, Or.inr ⟨.commit, cert⟩, node⟩
      rw [Storage.confirmedQc, type]
      rfl

/-- A stored value, or the default for a missing one. -/
theorem getD_of_forall {P : QC → Prop} {stored : Option QC} {genesisQc : QC}
    (hgenesis : P genesisQc) (hstored : ∀ qc ∈ stored, P qc) : P (stored.getD genesisQc) := by
  cases stored with
  | none => exact hgenesis
  | some qc => exact hstored qc rfl

theorem forall_of_getD {P : QC → Prop} {stored : Option QC} {genesisQc qc : QC}
    (h : stored.getD genesisQc = qc) (hqc : P qc) : ∀ x ∈ stored, P x := by
  rintro x rfl
  have hx : x = qc := h
  rw [hx]
  exact hqc

theorem StorageInv.refresh (h : net.StorageInv log storage) {storage' : Storage}
    (hrefresh : Storage.refresh net.support storage.chain storage.db = some storage') :
    net.StorageInv log storage' ∧ storage.view ≤ storage'.view ∧
      net.system.height storage.base ≤ net.system.height storage'.base ∧
      storage.lockedQc.view ≤ storage'.lockedQc.view := by
  obtain ⟨genesisQc, hr⟩ := Storage.refreshed_of_refresh hrefresh
  obtain ⟨hgenesis, hgenesisSound, href⟩ := genesisQc_spec hr.genesis
  obtain ⟨hsound, hknown, hnode⟩ := h.confirmed.confirmedQc hr.genesis
  rw [← hr.baseCommitQc] at hsound hknown hnode
  have hbase : storage'.base = storage'.baseBlockHash := hnode.trans hr.baseBlockHash.symm
  have hheight : net.system.height storage'.base = storage.chain.length := by
    rw [hbase, hr.baseBlockHash, h.confirmed.height_eq]
  have hview : storage.view ≤ storage'.view := h.dbView.symm.trans_le hr.le_view
  have hprepare : net.Sound log storage'.prepareQc := by
    rw [hr.prepareQc]
    split
    · exact hsound
    · exact getD_of_forall hgenesisSound h.dbPrepareQc
  have hlocked : net.system.Known log storage'.lockedQc.ref := by
    rw [hr.lockedQc]
    split
    · exact hknown
    · exact getD_of_forall (P := fun qc => net.system.Known log qc.ref) (Or.inl href)
        h.dbLockedQc
  refine ⟨?_, hview, ?_, ?_⟩
  · exact
      { dbView := hr.dbView
        confirmed := by
          rw [hr.chain]
          exact h.confirmed
        base := ⟨storage.chain, by rw [hr.chain], hnode⟩
        prepareQc := hprepare
        dbPrepareQc := forall_of_getD hr.dbPrepareQc hprepare
        lockedQc := hlocked
        dbLockedQc := forall_of_getD (P := fun qc => net.system.Known log qc.ref)
          hr.dbLockedQc hlocked
        dbLockedView := fun qc hqc =>
          Storage.view_getD hr.dbLockedQc (hgenesis.trans hqc.symm)
        proposal := by
          intro p hp
          obtain ⟨hmem, hindex⟩ := hr.proposal p hp
          have hold := h.proposal p hmem
          obtain ⟨q, hq, hkey, hparent⟩ := hold.indexed
          -- the index lists the proposal, so it has been checked against the base
          have hq' := h.proposals q hq
          have hchild : p.2.parentHash = storage'.base := by
            rw [← hparent, hindex q hq' hkey, hbase]
          have habove : net.system.height storage'.base < net.system.height p.1 := by
            rw [hold.height, hchild]
            exact Nat.lt_succ_self _
          refine { hold with above := habove, indexed := ⟨q, ?_, hkey, hparent⟩ }
          rw [hr.proposals]
          exact List.mem_filter.2 ⟨hq', by simpa using hindex q hq' hkey⟩
        proposals := by
          rw [hr.proposals, hr.dbProposals]
          exact fun q hq => (List.mem_filter.1 hq).1
        nodup := by
          rw [hr.proposals]
          exact (Storage.nodup_collectMap _).sublist (List.filter_sublist.map _) }
  · rw [hheight]
    exact h.height_base_le
  · have hlocked := Storage.le_view_ite hr.lockedQc (le_max_left _ _) (le_max_right _ _)
    exact (h.dbLockedView genesisQc hgenesis).symm.trans_le hlocked.1

end Network

end Finastate.Hotstuff
