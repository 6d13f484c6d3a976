import Finastate.Hotstuff.Views

/-!
# Votes of a replica

A replica keeps no record of its votes: whether two votes of one phase and
view are for the same node depends on the messages it is given. Every vote can
be traced to the message that the replica has acted on, and `SinglyAsked` says
of these messages what the vote handlers leave unchecked. Two certificates for
different nodes then have signers in common that are too few.
-/

namespace Finastate.Hotstuff

/-! ## What a replica is asked -/

/-- The message that a replica acts on. -/
def Entry.asked? (e : Entry) : Option ConsensusMessage :=
  match e.state, e.action with
  | .replica, .phase message _ => some message
  | _, _ => none

/-- There is a proposal of this block on top of this parent. -/
def Storage.Stores (storage : Storage) (node : Node) : Prop :=
  (storage.getProposal node.blockHash).map Proposal.parentHash = some node.parentHash

instance (storage : Storage) (node : Node) : Decidable (storage.Stores node) :=
  inferInstanceAs (Decidable (_ = _))

/-- The type of the certificate that a message of a phase carries. -/
def MessageType.certified? : MessageType → Option MessageType
  | .preCommit => some .prepare
  | .commit => some .preCommit
  | _ => none

/-- The members with a valid signature in the certificate. -/
def QC.signedBy (support : Support) (authorities : Authorities) (qc : QC) : Finset Address :=
  ((authorities.members.map Prod.fst).filter fun a =>
    SignedIn support.basic qc.sigMessage qc.sig a).toFinset

/-- Two prepare messages of one view do not name two stored proposals. -/
def Entry.NamesOne (e e' : Entry) : Prop :=
  ∀ message ∈ e.asked?, ∀ message' ∈ e'.asked?,
    message.messageType = .prepare → message'.messageType = .prepare →
    message.view = message'.view → ∀ node ∈ message.node, ∀ node' ∈ message'.node,
      e.storage.Stores node → e'.storage.Stores node' → node = node'

/-- A certificate that `verify_qc` accepts is signed by members of quorum weight,
each counted once. -/
def Entry.Certified (support : Support) (e : Entry) : Prop :=
  ∀ message ∈ e.asked?, ∀ t ∈ message.messageType.certified?, ∀ qc ∈ message.justify,
    (verifyQc support.basic qc (some t) e.authorities).isOk →
      e.authorities.exactQuorum ≤
        Weights.weightOf e.authorities.members (qc.signedBy support e.authorities)

/-- In messages of one phase and view the signers that two certificates for
different nodes have in common weigh less than a third, by the same authorities. -/
def Entry.Unequivocal (support : Support) (e e' : Entry) : Prop :=
  ∀ message ∈ e.asked?, ∀ message' ∈ e'.asked?, ∀ qc ∈ message.justify,
    ∀ qc' ∈ message'.justify,
    message.messageType.certified?.isSome → message.messageType = message'.messageType →
    message.view = message'.view → qc.node ≠ qc'.node →
      e.authorities = e'.authorities ∧
        3 * Weights.weightOf e.authorities.members
            (qc.signedBy support e.authorities ∩ qc'.signedBy support e.authorities) <
          Weights.total e.authorities.members

instance (e e' : Entry) : Decidable (e.NamesOne e') :=
  inferInstanceAs (Decidable (∀ message ∈ e.asked?, ∀ message' ∈ e'.asked?, _))

instance (support : Support) (e : Entry) : Decidable (e.Certified support) :=
  inferInstanceAs (Decidable (∀ message ∈ e.asked?, _))

instance (support : Support) (e e' : Entry) : Decidable (e.Unequivocal support e') :=
  inferInstanceAs (Decidable (∀ message ∈ e.asked?, ∀ message' ∈ e'.asked?, _))

/-- What the vote handlers rely on and do not check. -/
structure SinglyAsked (support : Support) (trace : List Entry) : Prop where
  proposals : ∀ e ∈ trace, ∀ e' ∈ trace, e.NamesOne e'
  certified : ∀ e ∈ trace, e.Certified support
  unequivocal : ∀ e ∈ trace, ∀ e' ∈ trace, e.Unequivocal support e'

/-- A replica that finds one proposal in its storage is asked to prepare one. -/
theorem Entry.namesOne_of_stored {e e' : Entry} {proposal : Hash × Proposal}
    (h : ∀ p ∈ e.storage.db.proposal, p = proposal)
    (h' : ∀ p ∈ e'.storage.db.proposal, p = proposal) : e.NamesOne e' := by
  have hnode : ∀ {storage : Storage} {node : Node},
      (∀ p ∈ storage.db.proposal, p = proposal) → storage.Stores node →
        node = { blockHash := proposal.1, parentHash := proposal.2.parentHash } := by
    intro storage node hstored hnode
    obtain ⟨p, hget, hparent⟩ := Option.map_eq_some_iff.1 hnode
    have hp := hstored _ (AssocMap.mem_of_get?_eq_some hget)
    rw [← hp, hparent]
  intro message _ message' _ _ _ _ node _ node' _ hstores hstores'
  rw [hnode h hstores, hnode h' hstores']

/-! ## Two votes -/

section Votes

variable {support : Support} {e e' : Entry}

/-- A vote comes from a message that the replica is asked. -/
theorem Entry.asked_of_replicaVote {t : MessageType} {view : Nat} {node : Node} {justify : QC}
    (h : e.replicaVote support = some (t, view, node, justify)) :
    ∃ message ∈ e.asked?, (message.messageType = t ∧ message.view = view) ∧
      message.justify = some justify ∧
      ((t = .prepare ∧ message.node = some node ∧ e.storage.Stores node) ∨
        ∃ t', t.certified? = some t' ∧ node = justify.node ∧
          (verifyQc support.basic justify (some t') e.authorities).isOk) := by
  cases haction : e.action with
  | phase message address =>
      obtain ⟨⟨hstate, htype⟩, hjustify, hview, hcases⟩ := replicaVote_eq_some haction h
      have hasked : e.asked? = some message := by
        rw [asked?, hstate, haction]
      refine ⟨message, hasked, ⟨htype, hview.symm⟩, hjustify, ?_⟩
      rcases hcases with ⟨rfl, hnode, hstored, -⟩ | ⟨rfl, hnode, hverify⟩ | ⟨rfl, hnode, hverify⟩
      · exact Or.inl ⟨rfl, hnode, hstored⟩
      · exact Or.inr ⟨.prepare, rfl, hnode, by rw [hverify]; rfl⟩
      · exact Or.inr ⟨.preCommit, rfl, hnode, by rw [hverify]; rfl⟩
  | propose node highQc => simp [replicaVote, haction] at h
  | timeout message address => simp [replicaVote, haction] at h
  | sync block => simp [replicaVote, haction] at h

/-- A prepare vote is for the stored proposal that its message names. -/
theorem Entry.NamesOne.prepareVote_eq (h : e.NamesOne e') {view : Nat} {node node' : Node}
    {justify justify' : QC}
    (hvote : e.replicaVote support = some (.prepare, view, node, justify))
    (hvote' : e'.replicaVote support = some (.prepare, view, node', justify')) :
    node = node' := by
  obtain ⟨message, hasked, ⟨htype, hview⟩, -, hcases⟩ := asked_of_replicaVote hvote
  obtain ⟨message', hasked', ⟨htype', hview'⟩, -, hcases'⟩ := asked_of_replicaVote hvote'
  obtain ⟨-, hnode, hstores⟩ := hcases.resolve_right (by rintro ⟨_, ⟨⟩, -⟩)
  obtain ⟨-, hnode', hstores'⟩ := hcases'.resolve_right (by rintro ⟨_, ⟨⟩, -⟩)
  exact h message hasked message' hasked' htype htype' (hview.trans hview'.symm) node hnode node'
    hnode' hstores hstores'

/-- Two certificates that are signed by a quorum have too many signers in common
to be for different nodes. -/
theorem Entry.Unequivocal.certifiedVote_eq (h : e.Unequivocal support e')
    (hcertified : e.Certified support) (hcertified' : e'.Certified support) {t : MessageType}
    (ht : t ≠ .prepare) {view : Nat} {node node' : Node} {justify justify' : QC}
    (hvote : e.replicaVote support = some (t, view, node, justify))
    (hvote' : e'.replicaVote support = some (t, view, node', justify')) :
    node = node' := by
  obtain ⟨message, hasked, ⟨htype, hview⟩, hjustify, hcases⟩ := asked_of_replicaVote hvote
  obtain ⟨message', hasked', ⟨htype', hview'⟩, hjustify', hcases'⟩ := asked_of_replicaVote hvote'
  obtain ⟨t₁, ht₁, rfl, hverify⟩ := hcases.resolve_left fun h => ht h.1
  obtain ⟨t₂, ht₂, rfl, hverify'⟩ := hcases'.resolve_left fun h => ht h.1
  by_contra hne
  have hsome : message.messageType.certified?.isSome := by
    rw [htype, ht₁]
    rfl
  obtain ⟨hauthorities, hfew⟩ := h message hasked message' hasked' justify hjustify justify'
    hjustify' hsome (htype.trans htype'.symm) (hview.trans hview'.symm) hne
  have hquorum := hcertified message hasked t₁ (htype ▸ ht₁) justify hjustify hverify
  have hquorum' := hcertified' message' hasked' t₂ (htype' ▸ ht₂) justify' hjustify' hverify'
  rw [← hauthorities] at hquorum'
  have hq : Weights.total e.authorities.members + (Weights.total e.authorities.members - 1) / 3 <
      2 * e.authorities.exactQuorum := by
    rw [Authorities.exactQuorum]
    omega
  have hmany := Weights.lt_weightOf_inter_of_quorums hq hquorum hquorum'
  omega

end Votes

/-- The votes that a node signs as a replica, that is for another leader, are
for one node in every phase and view. -/
def Stream.SingleVote (s : Stream) : Prop :=
  ∀ t ∈ [MessageType.prepare, .preCommit, .commit], ∀ view node node' leader leader',
    leader ≠ s.address → leader' ≠ s.address →
    SigMessage.vote t view node leader ∈ s.signed →
    SigMessage.vote t view node' leader' ∈ s.signed → node = node'

/-- Every vote for another leader was cast on something in the trace. -/
def Core.VotesTraced (support : Support) (c : Core) : Prop :=
  ∀ t view node leader, leader ≠ c.address →
    SigMessage.vote t view node leader ∈ c.signed →
    ∃ e ∈ c.trace, ∃ n justify, node = some n ∧
      e.replicaVote support = some (t, view, n, justify)

theorem Core.VotesTraced.note {support : Support} {c : Core} (h : c.VotesTraced support)
    (action : Action) : (c.note action).VotesTraced support := by
  intro t view node leader hother hvote
  obtain ⟨e, he, hcast⟩ := h t view node leader hother hvote
  exact ⟨e, List.mem_cons_of_mem _ he, hcast⟩

theorem CommonAct.votesTraced {support : Support} {c c' : Core}
    (h : CommonAct support c c') (hc : c.VotesTraced support) : c'.VotesTraced support := by
  cases h with
  | note action h => exact hc.note action
  | queue queued h => exact hc
  | params params built => exact hc
  | putProposal proposal x p built number parent hash => exact hc

/-- The leader votes for itself, so it adds no vote for another leader. -/
theorem LeaderAct.votesTraced {support : Support} {c c' : Core}
    (h : LeaderAct support c c') (hleader : c.currentLeader = some c.address)
    (hc : c.VotesTraced support) : c'.VotesTraced support := by
  cases h with
  | common c' h => exact h.votesTraced hc
  | work l h => exact hc
  | propose node highQc pm signal acting fresh pmNode idle => exact hc
  | ownVote t message pm leaderAddress phase leader type view proposed node own =>
      intro t' view' node' leader' hother hvote
      rcases List.mem_cons.1 hvote with heq | hvote
      · cases heq
        rw [hleader] at leader
        exact absurd (Option.some.inj leader).symm hother
      · exact hc t' view' node' leader' hother hvote
  | remoteVote t message pm address s phase other received type view sig signer valid
      proposed node => exact hc
  | prepareQc order qc message collected fresh => exact hc
  | preCommitQc order qc message collected fresh => exact hc
  | decide order qc chain collected decides => exact hc

theorem ReplicaAct.votesTraced {support : Support} {c c' : Core}
    (h : ReplicaAct support c c') (hc : c.VotesTraced support) :
    c'.VotesTraced support := by
  cases h with
  | common c' h => exact h.votesTraced hc
  | vote message address leaderAddress t view node justify acting received current casts
      leader =>
      have hvoted : { c with
          signed := .vote t view (some node) leaderAddress :: c.signed }.VotesTraced
            support := by
        intro t' view' node' leader' hother hvote
        rcases List.mem_cons.1 hvote with heq | hvote
        · cases heq
          exact ⟨_, acting.mem, node, justify, rfl, casts⟩
        · exact hc t' view' node' leader' hother hvote
      cases t <;> exact hvoted
  | decide message address qc chain acting received type justify valid decides => exact hc

theorem Act.votesTraced {support : Support} {event : Event} {c c' : Core}
    (h : Act support event c c') (hwf : c.Wf) (hc : c.VotesTraced support) : c'.VotesTraced support := by
  cases h with
  | common c' h => exact h.votesTraced hc
  | leader c' state view h => exact h.votesTraced (hwf.leader state) hc
  | replica c' state h => exact h.votesTraced hc
  | receive peerId message h => exact hc
  | sign message h =>
      intro t view node leader hother hvote
      rcases List.mem_cons.1 hvote with heq | hvote
      · exact absurd heq.symm (h t view node leader)
      · exact hc t view node leader hother hvote
  | timeouts timeouts byView => exact hc
  | newTimeout message address first second acting type signed view attached alone =>
      cases first <;> cases second <;> exact hc
  | decideTimeout message address tc acting type attached valid => exact hc
  | refresh storage h => exact hc
  | restart storage h => exact hc
  | runView state leader own other => exact hc
  | sync block params chain h hash header commits => exact hc.note (.sync block)

/-- A replica votes for one node in every phase and view of a run in which it is
asked for one: by two messages of one phase and view it is not told of two
stored proposals, and their certificates are what they are taken for. -/
theorem single_vote {support : Support} {secretKey : SecretKey} {s : Stream}
    (hrun : Run support secretKey s) (hasked : SinglyAsked support s.trace) :
    s.SingleVote := by
  have htraced : s.core.VotesTraced support := by
    refine hrun.core_induction ?_ fun hact hwf hc => hact.votesTraced hwf hc
    intro t view node leader _ hvote
    cases hvote
  intro t _ view node node' leader leader' hother hother' hvote hvote'
  obtain ⟨e, he, n, justify, rfl, hcast⟩ := htraced t view node leader hother hvote
  obtain ⟨e', he', n', justify', rfl, hcast'⟩ := htraced t view node' leader' hother' hvote'
  by_cases ht : t = .prepare
  · subst ht
    rw [(hasked.proposals e he e' he').prepareVote_eq hcast hcast']
  · rw [(hasked.unequivocal e he e' he').certifiedVote_eq (hasked.certified e he)
      (hasked.certified e' he') ht hcast hcast']

namespace Sample

/-- A message of view `1` from its leader. -/
def asking (messageType : MessageType) (node : Option Node) (justify : QC) :
    ConsensusMessage where
  requestId := 0
  messageType
  view := 1
  node
  justify := some justify
  sig := none

/-- A certificate of view `0`, without signatures. -/
def unsignedQc (messageType : MessageType) (node : Node) : QC where
  messageType
  view := 0
  node
  leaderAddress := ⟨[1]⟩
  sig := []

/-- A certificate of view `1` with the signatures of these validators. -/
def signedQc (keys : List UInt8) (messageType : MessageType) (node : Node) : QC where
  messageType
  view := 1
  node
  leaderAddress := ⟨[1]⟩
  sig := signatures keys (.vote messageType 1 (some node) ⟨[1]⟩)

/-- The node of the sample proposal. -/
def proposedNode (timestamp : Nat) : Node where
  parentHash := (proposal timestamp).parentHash
  blockHash := (proposal timestamp).blockHash

/-- The genesis block. -/
def genesisNode : Node where
  parentHash := ⟨[]⟩
  blockHash := ⟨encodeHeader genesisHeader⟩

end Sample

/-- View `1` of a replica: it is given a proposal and asked to vote for it in every
phase, twice, with certificates of different signers; a second prepare message
names a block that it does not have, and a pre-commit message has a certificate
without a quorum. -/
def votedInEveryPhase : List Event :=
  let node := Sample.proposedNode 5
  let other : Node := { node with blockHash := ⟨[9]⟩ }
  let prepare := Sample.asking .prepare (some node) (Sample.unsignedQc .decide Sample.genesisNode)
  Sample.register 1 ++
    [.message [1] (some (.requestProposalRes
      { requestId := 0, proposal := some (Sample.proposal 5) })), .internal] ++
    Sample.deliver 1 prepare ++ Sample.deliver 1 prepare ++
    Sample.deliver 1 { prepare with node := some other } ++
    Sample.deliver 1 (Sample.asking .preCommit none (Sample.signedQc [1, 2, 3] .prepare node)) ++
    Sample.deliver 1 (Sample.asking .preCommit none (Sample.signedQc [0, 1, 2] .prepare node)) ++
    Sample.deliver 1 (Sample.asking .preCommit none (Sample.signedQc [1] .prepare other)) ++
    Sample.deliver 1 (Sample.asking .commit none (Sample.signedQc [1, 2, 3] .preCommit node)) ++
    Sample.deliver 1 (Sample.asking .commit none (Sample.signedQc [0, 2, 3] .preCommit node))

theorem single_vote_inEveryPhase :
    (Sample.node 4 votedInEveryPhase).SingleVote ∧
      ∀ t ∈ [MessageType.prepare, .preCommit, .commit],
        SigMessage.vote t 1 (some (Sample.proposedNode 5)) ⟨[1]⟩ ∈
          (Sample.node 4 votedInEveryPhase).signed := by
  have hstored : ∀ e ∈ (Sample.node 4 votedInEveryPhase).trace,
      ∀ p ∈ e.storage.db.proposal, p = ((Sample.proposal 5).blockHash, Sample.proposal 5) := by
    decide +kernel
  refine ⟨single_vote (Sample.run_node 4 _) ⟨?_, ?_, ?_⟩, ?_⟩
  · exact fun e he e' he' => Entry.namesOne_of_stored (hstored e he) (hstored e' he')
  · decide +kernel
  · decide +kernel
  · decide +kernel

/-- Two pre-commit messages of view `1` that name different nodes. -/
def twoPreCommits : List Event :=
  let qc (blockHash : Hash) :=
    Sample.unsignedQc .prepare { parentHash := ⟨[]⟩, blockHash }
  Sample.register 1 ++ Sample.deliver 1 (Sample.asking .preCommit none (qc ⟨[8]⟩)) ++
    Sample.deliver 1 (Sample.asking .preCommit none (qc ⟨[9]⟩))

/-- The replica signs a pre-commit vote for both nodes. -/
theorem not_singleVote_twoPreCommits :
    Run (Sample.support 4) ⟨[0]⟩ (Sample.node 4 twoPreCommits) ∧
      ¬ (Sample.node 4 twoPreCommits).SingleVote := by
  refine ⟨Sample.run_node 4 _, fun h => ?_⟩
  have hsame := h .preCommit (by decide) 1
    (some { parentHash := ⟨[]⟩, blockHash := ⟨[8]⟩ })
    (some { parentHash := ⟨[]⟩, blockHash := ⟨[9]⟩ }) ⟨[1]⟩ ⟨[1]⟩ (by decide +kernel)
    (by decide +kernel) (by decide +kernel) (by decide +kernel)
  exact absurd hsame (by decide)

end Finastate.Hotstuff
