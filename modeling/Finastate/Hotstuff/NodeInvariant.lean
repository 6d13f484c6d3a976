import Finastate.Hotstuff.Ballots

/-!
# A node and the log

`Network.NodeInv` ties an honest node to the log of ballots: what it has signed
is in the log, what it has received is backed by the log, and its own ballots
are bounded by its view, its base and its lock. Every act of a proper run keeps
it, an act that signs a vote with one more ballot that is allowed.
-/

namespace Finastate.Hotstuff

open VoteLog (Phase Ballot Ref Cast)

/-! ## Collected votes -/

theorem IterOrder.nodup_iterate {α : Type} (order : IterOrder) {m : List (Address × α)}
    (h : (m.map Prod.fst).Nodup) : ((order.iterate m).map Prod.fst).Nodup := by
  rw [order.map_fst_iterate]
  exact (order.perm _).nodup_iff.2 h

/-- A certificate is made of votes of quorum weight. -/
theorem ConsensusMessageCollector.quorum_of_collectQc {authorities : Authorities}
    {leaderAddress : Address} {messages : List (Address × ConsensusMessage)}
    {totalWeight : Nat} {sig : List (PublicKey × Signature)} {qc : QC}
    (hnodup : (messages.map Prod.fst).Nodup) {s : Finset Address}
    (hs : ∀ p ∈ messages, p.1 ∉ s)
    (htotal : totalWeight ≤ Weights.weightOf authorities.members s)
    (h : collectQc authorities leaderAddress messages totalWeight sig = .ok (some qc)) :
    ∃ t : Finset Address, (∀ a ∈ t, a ∈ s ∨ ∃ p ∈ messages, p.1 = a) ∧
      authorities.quorum ≤ Weights.weightOf authorities.members t := by
  induction messages generalizing totalWeight sig s with
  | nil => cases h
  | cons p messages ih =>
      obtain ⟨address, message⟩ := p
      rw [List.map_cons, List.nodup_cons] at hnodup
      have hweight := Weights.weightOf_insert authorities.members
        (hs (address, message) List.mem_cons_self)
      have hfresh : ∀ p ∈ messages, p.1 ∉ insert address s := by
        intro p hp hmem
        rcases Finset.mem_insert.1 hmem with heq | hmem
        · exact hnodup.1 (List.mem_map.2 ⟨p, hp, heq⟩)
        · exact hs p (List.mem_cons_of_mem _ hp) hmem
      have hdone {x : Nat} (hx : x ≤ Weights.weightOf authorities.members (insert address s))
          (hquorum : authorities.quorum ≤ x) :
          ∃ t : Finset Address,
            (∀ a ∈ t, a ∈ s ∨ ∃ p ∈ (address, message) :: messages, p.1 = a) ∧
              authorities.quorum ≤ Weights.weightOf authorities.members t := by
        refine ⟨insert address s, fun a ha => ?_, hquorum.trans hx⟩
        rcases Finset.mem_insert.1 ha with rfl | ha
        · exact Or.inr ⟨_, List.mem_cons_self, rfl⟩
        · exact Or.inl ha
      have hnext {x : Nat} (hx : x ≤ Weights.weightOf authorities.members (insert address s))
          {sig : List (PublicKey × Signature)}
          (h : collectQc authorities leaderAddress messages x sig = .ok (some qc)) :
          ∃ t : Finset Address,
            (∀ a ∈ t, a ∈ s ∨ ∃ p ∈ (address, message) :: messages, p.1 = a) ∧
              authorities.quorum ≤ Weights.weightOf authorities.members t := by
        obtain ⟨t, ht, hquorum⟩ := ih hnodup.2 hfresh hx h
        refine ⟨t, fun a ha => ?_, hquorum⟩
        rcases ht a ha with hmem | ⟨p, hp, rfl⟩
        · rcases Finset.mem_insert.1 hmem with rfl | hmem
          · exact Or.inr ⟨_, List.mem_cons_self, rfl⟩
          · exact Or.inl hmem
        · exact Or.inr ⟨p, List.mem_cons_of_mem _ hp, rfl⟩
      unfold collectQc at h
      split at h
      · cases h
      · next weight sig' hsome _ =>
        have hx : wrapAdd 32 totalWeight weight ≤
            Weights.weightOf authorities.members (insert address s) := by
          rw [hweight, hsome, Option.getD_some]
          exact (Nat.mod_le _ _).trans (by omega)
        simp only at h
        split at h
        · next hquorum => exact hdone hx hquorum
        · exact hnext hx h
      · have hx : totalWeight ≤ Weights.weightOf authorities.members (insert address s) :=
          htotal.trans (hweight ▸ Nat.le_add_left _ _)
        split at h
        · next hquorum => exact hdone hx hquorum
        · exact hnext hx h

namespace Network

variable {net : Network} {log : List (Ballot Address Hash)} {a : Address} {c c' : Core}

/-! ## The invariant of a node -/

/-- What the leader has collected: its votes are in the log, and the messages of
the later phases stand for certificates. -/
structure LeaderInv (net : Network) (log : List (Ballot Address Hash)) (l : LeaderState)
    (view lockedView : Nat) : Prop where
  newView : ∀ p ∈ l.newViewCollector, ∀ qc ∈ p.2.justify, net.Sound log qc
  signal : ∀ qc ∈ l.workNewViewSignal, net.Sound log qc
  votes : ∀ t, ∀ p ∈ l.votes t, p.1 ∈ net.honest → Voted log p.1 t p.2.view p.2.node
  nodup : ∀ t, ((l.votes t).map Prod.fst).Nodup
  preCommit : l.preCommitMessage.isSome → ∃ pm n, l.prepareMessage = some pm ∧
    pm.node = some n ∧ net.system.Cert log .prepare view n.blockHash
  commit : l.commitMessage.isSome → view ≤ lockedView ∧ ∃ pm n,
    l.prepareMessage = some pm ∧ pm.node = some n ∧
      net.system.Cert log .preCommit view n.blockHash

/-- What a node still knows of its own ballots. -/
structure Bounded (net : Network) (storage : Storage) (trace : List Entry)
    (b : Ballot Address Hash) : Prop where
  view : b.view ≤ storage.view
  base : net.system.height b.base ≤ net.system.height storage.base
  lock : b.phase = .commit → b.view ≤ storage.lockedQc.view
  traced : b.phase = .prepare → ∃ e ∈ trace, ∃ n,
    (b.view, n) ∈ e.prepares net.support ∧ n.blockHash = b.block

structure NodeInv (net : Network) (log : List (Ballot Address Hash)) (a : Address)
    (c : Core) : Prop where
  address : c.address = a
  authorities : c.authorities = net.authorities
  storage : net.StorageInv log c.storage
  view_pos : 0 < c.storage.view
  currentView : c.currentView ≤ c.storage.view
  collected : c.Collected
  leader : net.LeaderInv log c.leader c.currentView c.storage.lockedQc.view
  params : ∀ x ∈ c.commitBlockParams, x.blockHash = net.support.basic.hash x.header
  signed : ∀ t view node leader, SigMessage.vote t view node leader ∈ c.signed →
    Voted log a t view node
  received : ∀ message ∈ c.received, net.SoundMessage log message
  ballots : ∀ b ∈ log, b.voter = a → net.Bounded c.storage c.trace b

/-- The node is tied to the log, or to one with more of its own ballots. -/
def Continues (net : Network) (log : List (Ballot Address Hash)) (a : Address) (c : Core) :
    Prop :=
  ∃ new, net.system.Legal (new ++ log) ∧ (∀ b ∈ new, b.voter = a) ∧
    net.NodeInv (new ++ log) a c

theorem NodeInv.continues (hlegal : net.system.Legal log) (h : net.NodeInv log a c) :
    net.Continues log a c :=
  ⟨[], hlegal, by simp, h⟩

theorem LeaderInv.mono {log' : List (Ballot Address Hash)} (hsub : log ⊆ log')
    {l : LeaderState} {view lockedView : Nat} (h : net.LeaderInv log l view lockedView) :
    net.LeaderInv log' l view lockedView where
  newView := fun p hp qc hqc => (h.newView p hp qc hqc).mono hsub
  signal := fun qc hqc => (h.signal qc hqc).mono hsub
  votes := fun t p hp hhonest => (h.votes t p hp hhonest).mono hsub
  nodup := h.nodup
  preCommit := by
    intro hsome
    obtain ⟨pm, n, hpm, hn, hcert⟩ := h.preCommit hsome
    exact ⟨pm, n, hpm, hn, hcert.mono hsub⟩
  commit := by
    intro hsome
    obtain ⟨hle, pm, n, hpm, hn, hcert⟩ := h.commit hsome
    exact ⟨hle, pm, n, hpm, hn, hcert.mono hsub⟩

theorem LeaderInv.new (view lockedView : Nat) :
    net.LeaderInv log LeaderState.new view lockedView where
  newView := fun p hp => by cases hp
  signal := fun qc hqc => by cases hqc
  votes := fun t p hp => by simp at hp
  nodup := fun t => by simp
  preCommit := fun h => by cases h
  commit := fun h => by cases h

/-- Ballots of other nodes do not concern the node. -/
theorem NodeInv.append (h : net.NodeInv log a c) {new : List (Ballot Address Hash)}
    (hother : ∀ b ∈ new, b.voter ≠ a) : net.NodeInv (new ++ log) a c := by
  have hsub : log ⊆ new ++ log := List.subset_append_right new log
  exact
    { h with
      storage := h.storage.mono hsub
      leader := h.leader.mono hsub
      signed := fun t view node leader hvote => (h.signed t view node leader hvote).mono hsub
      received := fun message hmessage => (h.received message hmessage).mono hsub
      ballots := by
        intro b hb hvoter
        rcases List.mem_append.1 hb with hb | hb
        · exact absurd hvoter (hother b hb)
        · exact h.ballots b hb hvoter }

/-! ## Writes that sign nothing -/

theorem NodeInv.note (h : net.NodeInv log a c) (action : Action) :
    net.NodeInv log a (c.note action) := by
  refine { h with ballots := fun b hb hvoter => ?_ }
  have hold := h.ballots b hb hvoter
  refine { hold with traced := fun hphase => ?_ }
  obtain ⟨e, he, hcast⟩ := hold.traced hphase
  exact ⟨e, List.mem_cons_of_mem _ he, hcast⟩

/-- A write of the storage that does not fall behind what the node has voted. -/
theorem NodeInv.setStorage (h : net.NodeInv log a c) {storage : Storage}
    (hstorage : net.StorageInv log storage) (hview : c.storage.view ≤ storage.view)
    (hbase : net.system.height c.storage.base ≤ net.system.height storage.base)
    (hlock : c.storage.lockedQc.view ≤ storage.lockedQc.view ∨
      c.storage.view ≤ storage.lockedQc.view) :
    net.NodeInv log a (c.setStorage storage) := by
  have hlocked {v : Nat} (hle : v ≤ c.storage.lockedQc.view) (hle' : v ≤ c.storage.view) :
      v ≤ storage.lockedQc.view :=
    hlock.elim hle.trans hle'.trans
  refine
    { h with
      storage := hstorage
      view_pos := h.view_pos.trans_le hview
      currentView := h.currentView.trans hview
      leader := { h.leader with commit := fun hsome => ?_ }
      ballots := fun b hb hvoter => ?_ }
  · obtain ⟨hle, hcert⟩ := h.leader.commit hsome
    exact ⟨hlocked hle h.currentView, hcert⟩
  · have hold := h.ballots b hb hvoter
    exact
      { view := hold.view.trans hview
        base := hold.base.trans hbase
        lock := fun hphase => hlocked (hold.lock hphase) hold.view
        traced := hold.traced }

theorem NodeInv.updateView (h : net.NodeInv log a c) {view : Nat}
    (hle : c.storage.view ≤ view) :
    net.NodeInv log a (c.setStorage (c.storage.updateView view)) :=
  h.setStorage (h.storage.updateView view) hle le_rfl (Or.inl le_rfl)

theorem NodeInv.refresh (h : net.NodeInv log a c) {storage : Storage}
    (hrefresh : Storage.refresh net.support c.storage.chain c.storage.db = some storage) :
    net.NodeInv log a (c.setStorage storage) := by
  obtain ⟨hstorage, hview, hbase, hlock⟩ := h.storage.refresh hrefresh
  exact h.setStorage hstorage hview hbase (Or.inl hlock)

/-- A new block with a certificate of the log. -/
theorem NodeInv.commitBlock (h : net.NodeInv log a c) {params : CommitBlockParams}
    {qc : QC} {chain : Chain}
    (hcommit : net.support.commitBlock c.storage.chain params qc = .ok chain)
    (hhash : params.blockHash = net.support.basic.hash params.header)
    (htype : qc.messageType = .commit) (hnode : qc.node.blockHash = params.blockHash)
    (hcert : net.system.Cert log .commit qc.view qc.node.blockHash) :
    net.NodeInv log a (c.setStorage { c.storage with chain }) :=
  h.setStorage (h.storage.commitBlock hcommit hhash htype hnode hcert) le_rfl le_rfl
    (Or.inl le_rfl)

theorem NodeInv.decides (h : net.NodeInv log a c) {qc : QC} {chain : Chain}
    (hdecides : c.Decides net.support qc chain) (htype : qc.messageType = .commit)
    (hcert : net.system.Cert log .commit qc.view qc.node.blockHash) :
    net.NodeInv log a (c.decide chain) := by
  obtain ⟨proposal, params, hproposal, hparams, hhash, hcommit⟩ := hdecides
  have hkey := (h.storage.proposal _ (AssocMap.mem_of_get?_eq_some hproposal)).key
  have hblock := h.commitBlock hcommit (h.params params hparams) htype
    (hkey.symm.trans hhash.symm) hcert
  exact { hblock with params := fun x hx => by cases hx }

theorem NodeInv.commonAct (hc : net.NodeInv log a c) (h : CommonAct net.support c c') :
    net.NodeInv log a c' := by
  cases h with
  | note action h => exact hc.note action
  | queue queued h => exact { hc with }
  | params params built =>
      refine { hc with params := fun x hx => ?_ }
      obtain ⟨p, hbuilt⟩ := built x hx
      exact (Consensus.Support.buildBlock_eq_ok hbuilt).1
  | putProposal proposal x p built number parent hash =>
      have hput := hc.setStorage (hc.storage.putProposal built number parent hash) le_rfl
        le_rfl (Or.inl le_rfl)
      refine { hput with params := ?_ }
      rintro y hy
      cases hy
      exact (Consensus.Support.buildBlock_eq_ok built).1

/-! ## Casting a ballot -/

/-- A vote of the node in its present state. -/
def ballot (a : Address) (storage : Storage) (phase : Phase) (node : Node) (justify : QC) :
    Ballot Address Hash where
  voter := a
  phase
  view := storage.view
  block := node.blockHash
  base := storage.base
  justify := justify.ref
  lock := storage.lockedQc.ref

/-- The grounds of a vote, phase by phase. -/
structure Grounds (net : Network) (log : List (Ballot Address Hash)) (a : Address) (c : Core)
    (phase : Phase) (node : Node) (justify : QC) : Prop where
  prepare : phase = .prepare → net.system.Safe log (ballot a c.storage .prepare node justify) ∧
    ∃ e ∈ c.trace, (c.storage.view, node) ∈ e.prepares net.support
  preCommit : phase = .preCommit →
    net.system.Cert log .prepare c.storage.view node.blockHash
  commit : phase = .commit → net.system.Cert log .preCommit c.storage.view node.blockHash ∧
    c.storage.view ≤ c.storage.lockedQc.view

/-- A vote on these grounds is one more ballot of a legal log. -/
theorem NodeInv.cast (hlegal : net.system.Legal log) (h : net.NodeInv log a c)
    {t : MessageType} {phase : Phase} (hphase : t.phase? = some phase) {node : Node}
    {justify : QC} (hgrounds : net.Grounds log a c phase node justify)
    (leader : Address) :
    net.system.Legal (ballot a c.storage phase node justify :: log) ∧
      net.NodeInv (ballot a c.storage phase node justify :: log) a
        { c with signed := .vote t c.storage.view (some node) leader :: c.signed } := by
  have hallowed : net.system.Allowed log (ballot a c.storage phase node justify) :=
    { view_pos := h.view_pos
      view_le := fun b hb hvoter => (h.ballots b hb hvoter).view
      base_le := fun b hb hvoter => (h.ballots b hb hvoter).base
      prepare := by
        rintro rfl
        exact (hgrounds.prepare rfl).1
      preCommit := hgrounds.preCommit
      commit := fun hcommit => (hgrounds.commit hcommit).1 }
  have hsub : log ⊆ ballot a c.storage phase node justify :: log := List.subset_cons_self _ _
  refine ⟨.cons hlegal hallowed, ?_⟩
  refine
    { h with
      storage := h.storage.mono hsub
      leader := h.leader.mono hsub
      signed := ?_
      received := fun message hmessage => (h.received message hmessage).mono hsub
      ballots := ?_ }
  · intro t' view node' leader' hvote
    rcases List.mem_cons.1 hvote with heq | hvote
    · cases heq
      exact ⟨node, phase, rfl, hphase, _, List.mem_cons_self, rfl, rfl, rfl, rfl⟩
    · exact (h.signed t' view node' leader' hvote).mono hsub
  · intro b hb hvoter
    rcases List.mem_cons.1 hb with rfl | hb
    · refine ⟨le_rfl, le_rfl, fun hcommit => (hgrounds.commit hcommit).2, fun hprepare => ?_⟩
      obtain ⟨e, he, hcast⟩ := (hgrounds.prepare hprepare).2
      exact ⟨e, he, node, hcast, rfl⟩
    · exact h.ballots b hb hvoter

/-- The checks of a replica, with a genuine justify, make a prepare vote safe. -/
theorem NodeInv.safe (h : net.NodeInv log a c) (hproper : net.Proper a c.trace) {node : Node}
    {justify : QC} (hsound : net.Sound log justify)
    (hgenuine : justify.Genuine net.support net.authorities)
    (hstored : (c.storage.getProposal node.blockHash).map Proposal.parentHash =
      some node.parentHash)
    (hsafe : Stream.safeNode c.storage node justify) {e : Entry} (he : e ∈ c.trace)
    (hcast : (c.storage.view, node) ∈ e.prepares net.support) :
    net.system.Safe log (ballot a c.storage .prepare node justify) := by
  obtain ⟨proposal, hget, hparent⟩ := Option.map_eq_some_iff.1 hstored
  have hstored := h.storage.proposal _ (AssocMap.mem_of_get?_eq_some hget)
  have hparent' : net.system.parent node.blockHash = node.parentHash :=
    hstored.parent.trans hparent
  have hextends {r : QC} (hr : (if r.node.blockHash = c.storage.baseCommitQc.node.blockHash
      then decide (node.parentHash = c.storage.baseCommitQc.node.blockHash)
      else decide (node.blockHash = r.node.blockHash)) = true) :
      net.system.Extends c.storage.base node.blockHash r.ref := by
    split at hr
    · next hbase => exact Or.inl ⟨hbase, hparent'.trans (of_decide_eq_true hr)⟩
    · exact Or.inr (of_decide_eq_true hr)
  simp only [Stream.safeNode, Bool.and_eq_true, Bool.or_eq_true] at hsafe
  exact
    { once := by
        intro b hb hvoter hphase (hview : b.view = c.storage.view)
        obtain ⟨e', he', n, hcast', hblock⟩ := (h.ballots b hb hvoter).traced hphase
        rw [← hblock]
        exact congrArg Node.blockHash (hproper.once e' he' e he _ hcast' _ hcast hview)
      height := by
        have hheight := hstored.height
        rw [← hstored.parent] at hheight
        exact hheight
      above := hstored.above
      justify := hsound.known hgenuine
      lock := h.storage.lockedQc
      locked := fun b hb hvoter hphase => (h.ballots b hb hvoter).lock hphase
      justified := hextends hsafe.1
      unlocked := hsafe.2.imp hextends of_decide_eq_true }

/-! ## The leader -/

theorem LeaderInv.addVote {l : LeaderState} {view lockedView : Nat}
    (h : net.LeaderInv log l view lockedView) {t : MessageType} {address : Address}
    {message : ConsensusMessage}
    (hvote : address ∈ net.honest → Voted log address t message.view message.node) :
    net.LeaderInv log (l.addVote t address message) view lockedView where
  newView := by
    have hsame : (l.addVote t address message).newViewCollector = l.newViewCollector := by
      cases t <;> rfl
    rw [hsame]
    exact h.newView
  signal := by
    have hsame : (l.addVote t address message).workNewViewSignal = l.workNewViewSignal := by
      cases t <;> rfl
    rw [hsame]
    exact h.signal
  votes := by
    intro t' p hp hhonest
    rcases LeaderState.mem_votes_addVote hp with ⟨rfl, rfl⟩ | hp
    · exact hvote hhonest
    · exact h.votes t' p hp hhonest
  nodup := by
    intro t'
    have hold := h.nodup t'
    cases t <;> cases t' <;> first
      | exact hold
      | exact AssocMap.nodup_keys_insert address message hold
  preCommit := by
    rw [LeaderState.addVote_preCommitMessage, LeaderState.addVote_prepareMessage]
    exact h.preCommit
  commit := by
    rw [LeaderState.addVote_commitMessage, LeaderState.addVote_prepareMessage]
    exact h.commit

/-- What the leader collects is a certificate of the log, for its proposal. -/
theorem NodeInv.cert_of_getQc (h : net.NodeInv log a c) {t : MessageType} {phase : Phase}
    (hphase : t.phase? = some phase) {order : IterOrder} {qc : QC}
    (hqc : ConsensusMessageCollector.getQc order (c.leader.votes t) c.authorities c.address =
      .ok (some qc)) :
    qc.messageType = t ∧ qc.view = c.currentView ∧
      (∃ pm, c.leader.prepareMessage = some pm ∧ pm.node = some qc.node) ∧
      net.system.Cert log phase qc.view qc.node.blockHash := by
  obtain ⟨htype, hview, pm, hpm, hnode⟩ := h.collected.of_getQc hqc
  refine ⟨htype, hview, ⟨pm, hpm, hnode⟩, ?_⟩
  obtain ⟨s, hs, hquorum⟩ := ConsensusMessageCollector.quorum_of_collectQc
    (order.nodup_iterate (h.leader.nodup t)) (s := ∅) (by simp) (Nat.zero_le _) hqc
  rw [h.authorities, Authorities.quorum_eq net.total_pos net.total_lt] at hquorum
  refine ⟨s, hquorum, fun b hb hhonest => ?_⟩
  rcases hs b hb with hempty | ⟨p, hp, rfl⟩
  · simp at hempty
  · have hp' := IterOrder.mem_iterate hp
    obtain ⟨n, phase', hn, hphase', hcast⟩ := h.leader.votes t p hp' hhonest
    obtain ⟨-, hview', pm', hpm', hnode'⟩ := h.collected t p hp'
    rw [hphase] at hphase'
    cases hphase'
    rw [hpm] at hpm'
    cases hpm'
    rw [hnode', hnode] at hn
    cases hn
    rw [hview', ← hview] at hcast
    exact hcast

/-- The leader votes for its proposal after the checks of a replica, and in the
later phases with the certificate of the phase before. -/
theorem NodeInv.ownGrounds (h : net.NodeInv log a c) (hproper : net.Proper a c.trace)
    (hstate : c.state = .leader) (hview : c.storage.view = c.currentView) {t : MessageType}
    {phase : Phase} (hphase : t.phase? = some phase) {pm : ConsensusMessage}
    (hpm : c.leader.prepareMessage = some pm) (hown : c.OwnVote t) :
    ∃ node justify, pm.node = some node ∧ net.Grounds log a c phase node justify := by
  rcases hown with ⟨message, htype, hacting⟩ | hown
  · have hforeign := (hproper.entries _ hacting.mem).foreign (message, c.address) rfl hstate
      h.address
    rw [htype] at hforeign
    rw [hforeign] at hphase
    cases hphase
  cases t with
  | newView => cases hphase
  | decide => cases hphase
  | prepare =>
      cases hphase
      obtain ⟨node, highQc, pm', hacting, hsignal, hpm', hnode⟩ := hown
      rw [hpm] at hpm'
      cases hpm'
      obtain ⟨hgenuine, hstored, hsafe⟩ :=
        (hproper.entries _ hacting.mem).proposals (node, highQc) rfl
      refine ⟨node, highQc, hnode, fun _ => ⟨?_, _, hacting.mem, rfl⟩, nofun, nofun⟩
      exact h.safe hproper (h.leader.signal highQc hsignal) hgenuine hstored hsafe
        hacting.mem rfl
  | preCommit =>
      cases hphase
      obtain ⟨pm', node, hpm', hnode, hcert⟩ := h.leader.preCommit hown
      rw [hpm] at hpm'
      cases hpm'
      rw [← hview] at hcert
      exact ⟨node, c.storage.lockedQc, hnode, nofun, fun _ => hcert, nofun⟩
  | commit =>
      cases hphase
      obtain ⟨hle, pm', node, hpm', hnode, hcert⟩ := h.leader.commit hown
      rw [hpm] at hpm'
      cases hpm'
      rw [← hview] at hcert hle
      exact ⟨node, c.storage.lockedQc, hnode, nofun, nofun, fun _ => ⟨hcert, hle⟩⟩

theorem phase?_of_or {t : MessageType} (h : t = .prepare ∨ t = .preCommit ∨ t = .commit) :
    ∃ phase, t.phase? = some phase := by
  rcases h with rfl | rfl | rfl
  · exact ⟨.prepare, rfl⟩
  · exact ⟨.preCommit, rfl⟩
  · exact ⟨.commit, rfl⟩

theorem NodeInv.leaderAct (hc : net.NodeInv log a c) (hlegal : net.system.Legal log)
    (hstate : c.state = .leader) (hview : c.storage.view = c.currentView)
    (h : LeaderAct net.support c c') (hproper : net.Proper a c'.trace) :
    net.Continues log a c' := by
  have hcollected := h.collected hview hc.collected
  cases h with
  | common c' h => exact (hc.commonAct h).continues hlegal
  | work l h =>
      have hnewView : ∀ p ∈ l.newViewCollector, ∀ qc ∈ p.2.justify, net.Sound log qc := by
        intro p hp qc hqc
        rcases h.newView p hp with hold | hreceived | hown
        · exact hc.leader.newView p hold qc hqc
        · exact (hc.received p.2 hreceived).justify qc hqc
        · rw [hown] at hqc
          cases hqc
          exact hc.storage.prepareQc
      refine NodeInv.continues hlegal { hc with collected := hcollected, leader := ?_ }
      exact
        { newView := hnewView
          signal := by
            intro qc hqc
            rcases h.signal qc hqc with hold | ⟨p, hp, hjustify⟩
            · exact hc.leader.signal qc hold
            · exact hnewView p hp qc hjustify
          votes := by
            rw [h.votes]
            exact hc.leader.votes
          nodup := by
            rw [h.votes]
            exact hc.leader.nodup
          preCommit := by
            rw [h.preCommitMessage, h.prepareMessage]
            exact hc.leader.preCommit
          commit := by
            rw [h.commitMessage, h.prepareMessage]
            exact hc.leader.commit }
  | propose node highQc pm signal acting fresh pmNode idle =>
      -- before the proposal there is no certificate of a later phase
      have hnone {P : Prop} {q : Node → Prop} (h : ∃ pm n, c.leader.prepareMessage = some pm ∧
          pm.node = some n ∧ q n) : P := by
        obtain ⟨pm', n, hpm', -⟩ := h
        rw [fresh] at hpm'
        cases hpm'
      refine NodeInv.continues hlegal { hc with collected := hcollected, leader := ?_ }
      exact
        { newView := hc.leader.newView
          signal := hc.leader.signal
          votes := by
            intro t
            have hold := hc.leader.votes t
            cases t <;> exact hold
          nodup := by
            intro t
            have hold := hc.leader.nodup t
            cases t <;> exact hold
          preCommit := fun hsome => hnone (hc.leader.preCommit hsome)
          commit := fun hsome => hnone (hc.leader.commit hsome).2 }
  | ownVote t message pm leaderAddress phase leader type view proposed node own =>
      obtain ⟨phase, hphase⟩ := phase?_of_or phase
      obtain ⟨n, justify, hn, hgrounds⟩ :=
        hc.ownGrounds hproper hstate hview hphase proposed own
      obtain ⟨hlegal', hcast⟩ := hc.cast hlegal hphase hgrounds leaderAddress
      rw [← hn, ← node, ← view] at hcast
      have hvoted := hcast.signed t message.view message.node leaderAddress
        List.mem_cons_self
      refine ⟨[_], hlegal', by simp [ballot], ?_⟩
      refine { hcast with collected := hcollected, leader := hcast.leader.addVote fun _ => ?_ }
      rw [hc.address]
      exact hvoted
  | remoteVote t message pm address s phase other received type view sig signer valid
      proposed node =>
      refine NodeInv.continues hlegal
        { hc with collected := hcollected, leader := hc.leader.addVote fun hhonest => ?_ }
      rw [← signer] at hhonest ⊢
      rw [type] at valid
      exact (hc.received message received).sig s sig hhonest _ _ _ _ valid
  | prepareQc order qc message collected fresh =>
      obtain ⟨htype, hqc, ⟨pm, hpm, hnode⟩, hcert⟩ :=
        hc.cert_of_getQc (t := .prepare) rfl collected
      have hsound : net.Sound log qc := .of_cert (by rw [htype]; rfl) hcert
      have hwrite := hc.setStorage (hc.storage.updatePrepareQc hsound) le_rfl le_rfl
        (Or.inl le_rfl)
      rw [hqc] at hcert
      refine NodeInv.continues hlegal { hwrite with collected := hcollected, leader := ?_ }
      exact
        { hc.leader with
          votes := by
            intro t
            have hold := hc.leader.votes t
            cases t <;> exact hold
          nodup := by
            intro t
            have hold := hc.leader.nodup t
            cases t <;> exact hold
          preCommit := fun _ => ⟨pm, qc.node, hpm, hnode, hcert⟩ }
  | preCommitQc order qc message collected fresh =>
      obtain ⟨htype, hqc, ⟨pm, hpm, hnode⟩, hcert⟩ :=
        hc.cert_of_getQc (t := .preCommit) rfl collected
      have hle : c.storage.view ≤ qc.view := (hview.trans hqc.symm).le
      have hwrite := hc.setStorage (hc.storage.updateLockedQc (Or.inr ⟨_, hcert⟩)) le_rfl
        le_rfl (Or.inr hle)
      rw [hqc] at hcert
      refine NodeInv.continues hlegal { hwrite with collected := hcollected, leader := ?_ }
      exact
        { hc.leader with
          votes := by
            intro t
            have hold := hc.leader.votes t
            cases t <;> exact hold
          nodup := by
            intro t
            have hold := hc.leader.nodup t
            cases t <;> exact hold
          commit := fun _ => ⟨hqc.ge, pm, qc.node, hpm, hnode, hcert⟩ }
  | decide order qc chain collected decides =>
      obtain ⟨htype, -, -, hcert⟩ := hc.cert_of_getQc (t := .commit) rfl collected
      exact (hc.decides decides htype hcert).continues hlegal

/-! ## The replica -/

theorem messageType_of_verifyQc {basic : Basic SigMessage} {qc : QC} {t : MessageType}
    {authorities : Authorities} (h : verifyQc basic qc (some t) authorities = .ok ())
    (hview : qc.view ≠ 0) : qc.messageType = t := by
  by_contra hne
  simp [verifyQc, hview, hne] at h

/-- A genuine certificate that has passed the check of its type. -/
theorem Sound.cert_of_verifyQc {qc : QC} (hsound : net.Sound log qc)
    (hgenuine : qc.Genuine net.support net.authorities) (hview : qc.view ≠ 0)
    {t : MessageType} {phase : Phase} (hphase : t.phase? = some phase)
    (htype : qc.messageType = t) : net.system.Cert log phase qc.view qc.node.blockHash := by
  obtain ⟨phase', hphase', hcert⟩ := hsound.cert hgenuine hview
  rw [htype, hphase] at hphase'
  cases hphase'
  exact hcert

theorem NodeInv.replicaAct (hc : net.NodeInv log a c) (hlegal : net.system.Legal log)
    (h : ReplicaAct net.support c c') (hproper : net.Proper a c'.trace) :
    net.Continues log a c' := by
  cases h with
  | common c' h => exact (hc.commonAct h).continues hlegal
  | vote message address leaderAddress t view node justify acting received current casts
      leader =>
      have htrace : ({ c.afterVote t justify with
          signed := .vote t view (some node) leaderAddress :: c.signed } : Core).trace =
            c.trace := by
        cases t <;> rfl
      rw [htrace] at hproper
      have hentry := hproper.entries _ acting.mem
      obtain ⟨hgenuine, hsame⟩ := hentry.votes _ casts
      obtain ⟨-, hjustify, rfl, hcases⟩ := Entry.replicaVote_eq_some rfl casts
      have hsound := (hc.received message received).justify justify hjustify
      rw [current]
      rcases hcases with
        ⟨rfl, -, hstored, hsafe⟩ | ⟨rfl, rfl, hverify⟩ | ⟨rfl, rfl, hverify⟩
      · have hcast : (c.storage.view, node) ∈
            (c.entry (.phase message address)).prepares net.support := by
          rw [current] at casts
          simp [Entry.prepares, Core.entry] at casts ⊢
          rw [casts]
        have hgrounds : net.Grounds log a c .prepare node justify :=
          ⟨fun _ => ⟨hc.safe hproper hsound hgenuine hstored hsafe acting.mem hcast, _,
            acting.mem, hcast⟩, by rintro ⟨⟩, by rintro ⟨⟩⟩
        obtain ⟨hlegal', hinv⟩ := hc.cast hlegal (t := .prepare) rfl hgrounds leaderAddress
        exact ⟨[_], hlegal', by simp [ballot], hinv⟩
      · have hview : justify.view = c.storage.view := (hsame (by rintro ⟨⟩)).trans current
        have hne : justify.view ≠ 0 := hview ▸ hc.view_pos.ne'
        have hcert := hsound.cert_of_verifyQc hgenuine hne (t := .prepare) rfl
          (messageType_of_verifyQc hverify hne)
        have hwrite := hc.setStorage (hc.storage.updatePrepareQc hsound) le_rfl le_rfl
          (Or.inl le_rfl)
        rw [hview] at hcert
        have hgrounds : net.Grounds log a (c.setStorage (c.storage.updatePrepareQc justify))
            .preCommit justify.node justify := ⟨by rintro ⟨⟩, fun _ => hcert, by rintro ⟨⟩⟩
        obtain ⟨hlegal', hinv⟩ := hwrite.cast hlegal (t := .preCommit) rfl hgrounds
          leaderAddress
        exact ⟨[_], hlegal', by simp [ballot], hinv⟩
      · have hview : justify.view = c.storage.view := (hsame (by rintro ⟨⟩)).trans current
        have hne : justify.view ≠ 0 := hview ▸ hc.view_pos.ne'
        have hcert := hsound.cert_of_verifyQc hgenuine hne (t := .preCommit) rfl
          (messageType_of_verifyQc hverify hne)
        have hwrite := hc.setStorage (hc.storage.updateLockedQc (Or.inr ⟨_, hcert⟩)) le_rfl
          le_rfl (Or.inr hview.ge)
        rw [hview] at hcert
        have hgrounds : net.Grounds log a (c.setStorage (c.storage.updateLockedQc justify))
            .commit justify.node justify := ⟨by rintro ⟨⟩, by rintro ⟨⟩, fun _ => ⟨hcert, hview.ge⟩⟩
        obtain ⟨hlegal', hinv⟩ := hwrite.cast hlegal (t := .commit) rfl hgrounds leaderAddress
        exact ⟨[_], hlegal', by simp [ballot], hinv⟩
  | decide message address qc chain acting received type justify valid decides =>
      have hcommits := (hproper.entries _ acting.mem).commits qc (by
        simp [Entry.commitQc?, Core.entry, type, justify, valid, Except.isOk, Except.toBool])
      obtain ⟨hview, htype, hgenuine⟩ := hcommits
      have hcert := ((hc.received message received).justify qc justify).cert_of_verifyQc
        hgenuine hview (t := .commit) rfl htype
      exact (hc.decides decides htype hcert).continues hlegal

/-! ## Acts and runs -/

/-- What honest nodes have signed of an event is in the log. -/
structure SoundEvent (net : Network) (log : List (Ballot Address Hash)) (event : Event) :
    Prop where
  message : ∀ peerId message, event = .message peerId (some (.consensusMessage message)) →
    net.SoundMessage log message
  block : ∀ block, event = .sync block → net.Sound log block.commitQc

theorem SoundEvent.mono {log' : List (Ballot Address Hash)} (hsub : log ⊆ log') {event : Event}
    (h : net.SoundEvent log event) : net.SoundEvent log' event where
  message := fun peerId message hevent => (h.message peerId message hevent).mono hsub
  block := fun block hevent => (h.block block hevent).mono hsub

theorem getHotstuffAuthorities_eq (chain : Chain) (number : BlockNumber) :
    net.support.getHotstuffAuthorities chain number = net.authorities :=
  net.fixed _

theorem NodeInv.restarted (h : net.NodeInv log a c) {storage : Storage}
    (hrefresh : Storage.refresh net.support c.storage.chain c.storage.db = some storage)
    (hcollected : (c.restarted net.support storage).Collected) :
    net.NodeInv log a (c.restarted net.support storage) := by
  have hnew := h.refresh hrefresh
  exact
    { hnew with
      authorities := getHotstuffAuthorities_eq _ _
      collected := hcollected
      leader := .new _ _
      params := fun x hx => by cases hx }

theorem NodeInv.act {event : Event} (hc : net.NodeInv log a c)
    (hlegal : net.system.Legal log) (hevent : net.SoundEvent log event)
    (h : Act net.support event c c') (hproper : net.Proper a c'.trace) :
    net.Continues log a c' := by
  have hcollected := h.collected hc.collected
  cases h with
  | common c' h => exact (hc.commonAct h).continues hlegal
  | leader c' state view h => exact hc.leaderAct hlegal state view h hproper
  | replica c' state h => exact hc.replicaAct hlegal h hproper
  | receive peerId message h =>
      refine NodeInv.continues hlegal { hc with received := fun m hm => ?_ }
      rcases List.mem_cons.1 hm with rfl | hm
      · exact hevent.message peerId m h
      · exact hc.received m hm
  | sign message h =>
      refine NodeInv.continues hlegal { hc with signed := fun t view node leader hvote => ?_ }
      rcases List.mem_cons.1 hvote with heq | hvote
      · exact absurd heq.symm (h t view node leader)
      · exact hc.signed t view node leader hvote
  | timeouts timeouts byView => exact NodeInv.continues hlegal { hc with }
  | newTimeout message address first second acting type signed view attached alone
      complete =>
      have htrace : ((c.timeoutFirst first).timeoutSecond message second).trace = c.trace := by
        cases first <;> cases second <;> rfl
      rw [htrace] at hproper
      obtain ⟨hfirst, hsecond⟩ :=
        ((hproper.entries _ acting.mem).keepsView (message, address) rfl).newTimeout type
          signed view attached alone complete
      have hinv : net.NodeInv log a (c.timeoutFirst first) := by
        cases first with
        | none => exact hc
        | some tc => exact hc.updateView (hfirst tc rfl)
      cases second with
      | false => exact hinv.continues hlegal
      | true => exact (hinv.updateView (hsecond rfl)).continues hlegal
  | decideTimeout message address tc acting type attached valid =>
      obtain ⟨hle, hlt⟩ := ((hproper.entries _ acting.mem).keepsView (message, address) rfl).1
        type tc attached valid
      exact (hc.updateView (hle.trans_eq (wrapAdd_of_lt hlt).symm)).continues hlegal
  | refresh storage h =>
      have hnew := hc.refresh h
      exact NodeInv.continues hlegal { hnew with authorities := getHotstuffAuthorities_eq _ _ }
  | restart storage h => exact (hc.restarted h hcollected).continues hlegal
  | runView state leader own other =>
      exact NodeInv.continues hlegal
        { hc with collected := hcollected, currentView := le_rfl, leader := .new _ _ }
  | sync block params chain h hash header commits =>
      have hentry := hproper.entries _ List.mem_cons_self
      obtain ⟨hview, htype, hgenuine⟩ := hentry.commits block.commitQc rfl
      have hcert := (hevent.block block h).cert_of_verifyQc hgenuine hview (t := .commit) rfl
        htype
      have hnode : block.commitQc.node.blockHash = params.blockHash := by
        rw [hash, header]
        exact hentry.blocks block rfl
      exact ((hc.note (.sync block)).commitBlock commits hash htype hnode hcert).continues
        hlegal

theorem NodeInv.acts {event : Event} (hc : net.NodeInv log a c)
    (hlegal : net.system.Legal log) (hevent : net.SoundEvent log event)
    (h : Acts net.support event c c') (hproper : net.Proper a c'.trace) :
    net.Continues log a c' := by
  induction h with
  | refl => exact hc.continues hlegal
  | tail hfirst hlast ih =>
      obtain ⟨new, hlegal', hvoter, hinv⟩ :=
        ih (hproper.suffix (hlast.trace_suffix))
      obtain ⟨new', hlegal'', hvoter', hinv'⟩ := hinv.act hlegal'
        (hevent.mono (List.subset_append_right new log)) hlast hproper
      rw [← List.append_assoc] at hlegal'' hinv'
      refine ⟨new' ++ new, hlegal'', fun b hb => ?_, hinv'⟩
      rcases List.mem_append.1 hb with hb | hb
      · exact hvoter' b hb
      · exact hvoter b hb

end Network

end Finastate.Hotstuff
