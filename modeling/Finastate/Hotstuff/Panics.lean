import Finastate.Hotstuff.Admission
import Finastate.Hotstuff.Ballots
import Finastate.Hotstuff.Leaders

/-!
# Panics

The handlers rely on facts that are not checked again: what is in a collector
carries what a certificate is made of, a leader that handles votes has
proposed, the highest certificate is held by another node when its proposal is
not stored, the leader of the base certificate is a member. The first one is an
invariant, `Core.Sane`. The others are not: `never_panics` says that a node
does not panic as long as it is only given what fits them.
-/

namespace Finastate.Hotstuff

/-! ## Collectors -/

namespace ConsensusMessageCollector

theorem collectQc_ok {authorities : Authorities} {leaderAddress : Address}
    {messages : List (Address × ConsensusMessage)}
    (h : ∀ p ∈ messages, p.2.sig.isSome ∧ p.2.node.isSome) (totalWeight : Nat)
    (sig : List (PublicKey × Signature)) :
    ∃ qc, collectQc authorities leaderAddress messages totalWeight sig = .ok qc := by
  induction messages generalizing totalWeight sig with
  | nil => exact ⟨none, rfl⟩
  | cons p messages ih =>
      obtain ⟨address, message⟩ := p
      obtain ⟨hsig, hnode⟩ := h (address, message) List.mem_cons_self
      obtain ⟨s, hs⟩ := Option.isSome_iff_exists.1 hsig
      obtain ⟨node, hn⟩ := Option.isSome_iff_exists.1 hnode
      have htail := fun x y => ih (fun p hp => h p (List.mem_cons_of_mem _ hp)) x y
      have hqc : ∀ sig, ∃ qc, qcOf message leaderAddress sig = .ok qc := by
        intro sig
        rw [qcOf, hn]
        exact ⟨_, rfl⟩
      simp only at hs
      rw [collectQc, hs]
      cases Weights.weight? authorities.members address with
      | none =>
          simp only
          split
          · exact hqc _
          · exact htail _ _
      | some weight =>
          simp only
          split
          · exact hqc _
          · exact htail _ _

theorem getQc_ok (order : IterOrder) {m : List (Address × ConsensusMessage)}
    (h : ∀ p ∈ m, p.2.sig.isSome ∧ p.2.node.isSome) (authorities : Authorities)
    (leaderAddress : Address) : ∃ qc, getQc order m authorities leaderAddress = .ok qc :=
  collectQc_ok (fun p hp => h p (IterOrder.mem_iterate hp)) 0 []

theorem collectHighQc_ok {authorities : Authorities}
    {messages : List (Address × ConsensusMessage)}
    (h : ∀ p ∈ messages, p.2.justify.isSome) (totalWeight : Nat) (highQc : Option QC) :
    ∃ qc, collectHighQc authorities messages totalWeight highQc = .ok qc := by
  induction messages generalizing totalWeight highQc with
  | nil => exact ⟨none, rfl⟩
  | cons p messages ih =>
      obtain ⟨address, message⟩ := p
      obtain ⟨justify, hj⟩ :=
        Option.isSome_iff_exists.1 (h (address, message) List.mem_cons_self)
      have htail := fun x y => ih (fun p hp => h p (List.mem_cons_of_mem _ hp)) x y
      simp only at hj
      rw [collectHighQc, hj]
      cases Weights.weight? authorities.members address with
      | none =>
          simp only
          split
          · exact ⟨_, rfl⟩
          · exact htail _ _
      | some weight =>
          simp only
          split
          · exact ⟨_, rfl⟩
          · exact htail _ _

theorem getHighQc_ok (order : IterOrder) {m : List (Address × ConsensusMessage)}
    (h : ∀ p ∈ m, p.2.justify.isSome) (authorities : Authorities) :
    ∃ qc, getHighQc order m authorities = .ok qc :=
  collectHighQc_ok (fun p hp => h p (IterOrder.mem_iterate hp)) 0 none

end ConsensusMessageCollector

namespace TimeoutMessageCollector

/-- Every collected timeout message is signed. -/
def AllSigned (m : List (Nat × List (Address × TimeoutMessage))) : Prop :=
  ∀ p ∈ m, ∀ q ∈ p.2, q.2.sig.isSome

theorem collect_ok {authorities : Authorities} {messages : List (Address × TimeoutMessage)}
    (h : ∀ q ∈ messages, q.2.sig.isSome) (totalWeight : Nat)
    (sig : List (PublicKey × Signature)) :
    ∃ tc, collect authorities messages totalWeight sig = .ok tc := by
  induction messages generalizing totalWeight sig with
  | nil => exact ⟨none, rfl⟩
  | cons p messages ih =>
      obtain ⟨address, message⟩ := p
      obtain ⟨s, hs⟩ := Option.isSome_iff_exists.1 (h (address, message) List.mem_cons_self)
      have htail := fun x y => ih (fun p hp => h p (List.mem_cons_of_mem _ hp)) x y
      simp only at hs
      rw [collect, hs]
      cases Weights.weight? authorities.members address with
      | none =>
          simp only
          split
          · exact ⟨_, rfl⟩
          · exact htail _ _
      | some weight =>
          simp only
          split
          · exact ⟨_, rfl⟩
          · exact htail _ _

theorem AllSigned.getTc_ok {m : List (Nat × List (Address × TimeoutMessage))}
    (h : AllSigned m) (order : IterOrder) (authorities : Authorities) (view : Nat) :
    ∃ tc, getTc order m authorities view = .ok tc := by
  unfold getTc
  cases hget : AssocMap.get? m view with
  | none => exact ⟨none, rfl⟩
  | some messages =>
      have hmem := AssocMap.mem_of_get?_eq_some hget
      exact collect_ok (fun q hq => h _ hmem q (IterOrder.mem_iterate hq)) 0 []

theorem AllSigned.add {m : List (Nat × List (Address × TimeoutMessage))} (h : AllSigned m)
    (address : Address) {message : TimeoutMessage} (hsig : message.sig.isSome) :
    AllSigned (TimeoutMessageCollector.add m address message) := by
  have hold : ∀ q ∈ (AssocMap.get? m message.view).getD [], q.2.sig.isSome := by
    cases hget : AssocMap.get? m message.view with
    | none => simp
    | some messages => exact h _ (AssocMap.mem_of_get?_eq_some hget)
  intro p hp q hq
  rcases AssocMap.mem_insert hp with rfl | hp
  · simp only at hq
    split at hq
    · exact hold q hq
    · rcases AssocMap.mem_insert hq with rfl | hq
      · exact hsig
      · exact hold q hq
  · exact h p hp q hq

theorem AllSigned.cleanup {m : List (Nat × List (Address × TimeoutMessage))}
    (h : AllSigned m) (view : Nat) : AllSigned (TimeoutMessageCollector.cleanup m view) :=
  fun p hp => h p (List.mem_filter.1 hp).1

end TimeoutMessageCollector

/-! ## What the handlers can rely on -/

/-- What is collected carries what a certificate is made of, and the leader and
the signal that the handlers ask for are there. -/
structure Core.Sane (c : Core) : Prop where
  currentLeader : c.currentLeader.isSome
  newView : ∀ p ∈ c.leader.newViewCollector, p.2.justify.isSome
  votes : ∀ t, ∀ p ∈ c.leader.votes t, p.2.sig.isSome ∧ p.2.node.isSome
  prepareMessage : ∀ m ∈ c.leader.prepareMessage, m.node.isSome
  pending : c.leader.pendingRemoteProposal.isSome → c.leader.workNewViewSignal.isSome
  timeouts : TimeoutMessageCollector.AllSigned c.timeouts

/-- A handler has ended without a panic and left a sane stream. -/
def Calm (r : Stream × Outcome) : Prop :=
  r.1.core.Sane ∧ ∀ msg, r.2 ≠ .error (.panic msg)

theorem calm_done {s : Stream} (h : s.core.Sane) : Calm (done s) := ⟨h, nofun⟩

theorem calm_err {s : Stream} (h : s.core.Sane) (e : Consensus.HandlerError) :
    Calm (s, .error (.err e)) :=
  ⟨h, nofun⟩

theorem Calm.andThen {r : Stream × Outcome} {k : Stream → Stream × Outcome} (hr : Calm r)
    (hk : r.1.core.Sane → Calm (k r.1)) : Calm (andThen r k) := by
  unfold Finastate.Hotstuff.andThen
  split
  · exact hk hr.1
  · next e he => exact ⟨hr.1, fun msg h => hr.2 msg (he.trans h)⟩

/-- What follows only sends. -/
theorem Calm.send {r : Stream × Outcome} {f : Stream → Stream} (hr : Calm r)
    (hf : ∀ s, (f s).core = s.core) : Calm (Finastate.Hotstuff.andThen r fun s => done (f s)) :=
  hr.andThen fun h => calm_done (by rw [hf]; exact h)

/-! ## Votes -/

namespace LeaderState

variable {support : Support} {oracle : Oracle}

/-- A vote that passes the check of its signature comes after the proposal. -/
def Votable (support : Support) (s : Stream) (message : ConsensusMessage)
    (address : Address) : Prop :=
  s.leader.prepareMessage = none →
    s.address ≠ address ∧ ∀ sig ∈ message.sig, support.basic.address sig.1 = address →
      support.basic.verify (.vote message.messageType message.view message.node s.address)
        sig.1 sig.2 ≠ .ok ()

theorem votable_of_isSome {s : Stream} (h : s.leader.prepareMessage.isSome)
    (message : ConsensusMessage) (address : Address) : Votable support s message address := by
  intro hnone
  rw [hnone] at h
  cases h

/-- A vote that goes into a collector. -/
structure Collectable (s : Stream) (message : ConsensusMessage) : Prop where
  sig : message.sig.isSome
  node : message.node.isSome
  proposed : s.leader.prepareMessage.isSome

theorem verifyMessage_calm {s : Stream} (h : s.core.Sane) {message : ConsensusMessage}
    {address : Address} (hv : Votable support s message address) :
    (∃ e, verifyMessage support s message address = .error (.err e)) ∨
      ∃ s' message', verifyMessage support s message address = .ok (s', message') ∧
        s'.core.Sane ∧ Collectable s' message' := by
  unfold verifyMessage
  by_cases hown : s.address = address
  · cases hpm : s.leader.prepareMessage with
    | none => exact absurd hown (hv hpm).1
    | some pm =>
        obtain ⟨leaderAddress, hleader⟩ := Option.isSome_iff_exists.1 h.currentLeader
        have hleader : s.currentLeader = some leaderAddress := hleader
        simp only [hown, if_true, Stream.signMessage, hleader]
        refine Or.inr ⟨_, _, rfl, ?_, rfl, h.prepareMessage pm hpm, ?_⟩
        · exact { h with }
        · exact Option.isSome_iff_exists.2 ⟨pm, hpm⟩
  · simp only [hown, if_false]
    cases hsig : message.sig with
    | none => exact Or.inl ⟨_, rfl⟩
    | some sig =>
        obtain ⟨publicKey, signature⟩ := sig
        by_cases hsigner : support.basic.address publicKey = address
        · simp only [hsigner, ne_eq, not_true_eq_false, if_false]
          cases hverify : support.basic.verify
              (.vote message.messageType message.view message.node s.address)
              publicKey signature with
          | error e => exact Or.inl ⟨_, rfl⟩
          | ok u =>
              cases hpm : s.leader.prepareMessage with
              | none => exact absurd hverify ((hv hpm).2 _ hsig hsigner)
              | some pm =>
                  by_cases hnode : message.node = pm.node
                  · simp only [hnode, not_true_eq_false, if_false]
                    refine Or.inr ⟨_, _, rfl, h, ?_, ?_, ?_⟩
                    · rw [hsig]
                      rfl
                    · rw [hnode]
                      exact h.prepareMessage pm hpm
                    · rw [hpm]
                      rfl
                  · simp only [hnode, not_false_eq_true, if_true]
                    exact Or.inl ⟨_, rfl⟩
        · simp only [ne_eq, hsigner, not_false_eq_true, if_true]
          exact Or.inl ⟨_, rfl⟩

theorem sane_addVote {s : Stream} (h : s.core.Sane) {message : ConsensusMessage}
    (hc : Collectable s message) (t : MessageType) (address : Address) :
    { s with leader := s.leader.addVote t address message }.core.Sane := by
  refine ⟨h.currentLeader, ?_, ?_, ?_, ?_, h.timeouts⟩
  · cases t <;> exact h.newView
  · intro t' p hp
    rcases mem_votes_addVote hp with ⟨-, rfl⟩ | hp
    · exact ⟨hc.sig, hc.node⟩
    · exact h.votes t' p hp
  · intro m hm
    exact h.prepareMessage m (by simpa [Stream.core] using hm)
  · cases t <;> exact h.pending

theorem withVote_calm {s : Stream} (h : s.core.Sane) {t : MessageType}
    {message : ConsensusMessage} {address : Address}
    (hv : Votable support s message address) {k : Stream → Stream × Outcome}
    (hk : ∀ s : Stream, s.core.Sane → s.leader.prepareMessage.isSome → Calm (k s)) :
    Calm (withVote support t s message address k) := by
  unfold withVote
  rcases verifyMessage_calm h hv with ⟨e, he⟩ | ⟨s', message', hok, hs', hc⟩
  · rw [he]
    exact calm_done h
  · rw [hok]
    refine hk _ (sane_addVote hs' hc t address) ?_
    simpa using hc.proposed

theorem decideBlock_calm {s : Stream} (h : s.core.Sane) (qc : QC) :
    Calm (s.decideBlock support qc) := by
  constructor
  · rcases Stream.core_decideBlock support s qc with heq | heq | ⟨chain, -, heq⟩
    · rw [heq]
      exact h
    · rw [heq]
      exact { h with }
    · rw [heq]
      exact { h with }
  · intro msg
    unfold Stream.decideBlock
    split
    · exact nofun
    · split
      · exact nofun
      · simp only
        split
        · unfold Stream.onDecide
          split
          · exact nofun
          · exact nofun
        · exact nofun

theorem onCommit_calm {s : Stream} (h : s.core.Sane) {message : ConsensusMessage}
    {address : Address} (hv : Votable support s message address) :
    Calm (onCommit support oracle s message address) := by
  refine withVote_calm h hv fun s h hproposed => ?_
  obtain ⟨qc, hqc⟩ := ConsensusMessageCollector.getQc_ok (oracle.order .commit)
    (h.votes .commit) s.authorities s.address
  have hqc : ConsensusMessageCollector.getQc (oracle.order .commit) s.leader.commitCollector
    s.authorities s.address = .ok qc := hqc
  simp only [hqc]
  cases qc with
  | none => exact calm_done h
  | some qc =>
      simp only
      split
      · exact calm_done h
      · refine (decideBlock_calm ?_ qc).send fun s => core_broadcastMessage s _
        exact { h with }

theorem onPreCommit_calm {s : Stream} (h : s.core.Sane) {message : ConsensusMessage}
    {address : Address} (hv : Votable support s message address) :
    Calm (onPreCommit support oracle s message address) := by
  refine withVote_calm h hv fun s h hproposed => ?_
  obtain ⟨qc, hqc⟩ := ConsensusMessageCollector.getQc_ok (oracle.order .preCommit)
    (h.votes .preCommit) s.authorities s.address
  have hqc : ConsensusMessageCollector.getQc (oracle.order .preCommit)
    s.leader.preCommitCollector s.authorities s.address = .ok qc := hqc
  simp only [hqc]
  cases qc with
  | none => exact calm_done h
  | some qc =>
      simp only
      split
      · exact calm_done h
      · refine Calm.send (onCommit_calm ?_ (votable_of_isSome hproposed _ _))
          fun s => core_broadcastMessage s _
        exact { h with }

theorem onPrepare_calm {s : Stream} (h : s.core.Sane) {message : ConsensusMessage}
    {address : Address} (hv : Votable support s message address) :
    Calm (onPrepare support oracle s message address) := by
  refine withVote_calm h hv fun s h hproposed => ?_
  obtain ⟨qc, hqc⟩ := ConsensusMessageCollector.getQc_ok (oracle.order .prepare)
    (h.votes .prepare) s.authorities s.address
  have hqc : ConsensusMessageCollector.getQc (oracle.order .prepare)
    s.leader.prepareCollector s.authorities s.address = .ok qc := hqc
  simp only [hqc]
  cases qc with
  | none => exact calm_done h
  | some qc =>
      simp only
      split
      · exact calm_done h
      · refine Calm.send (onPreCommit_calm ?_ (votable_of_isSome hproposed _ _))
          fun s => core_broadcastMessage s _
        exact { h with }

/-! ## Proposals of the leader -/

theorem onProposal_calm {s : Stream} (h : s.core.Sane)
    (hsignal : s.leader.workNewViewSignal.isSome) (proposal : Proposal) :
    Calm (onProposal support oracle s proposal) := by
  unfold onProposal
  obtain ⟨highQc, hhigh⟩ := Option.isSome_iff_exists.1 hsignal
  rw [hhigh]
  simp only
  refine Calm.send (onPrepare_calm ?_ (votable_of_isSome rfl _ _))
    fun s => core_sendProposal s _ _
  refine { h with prepareMessage := ?_ }
  rintro m ⟨⟩
  rfl

theorem createProposal_calm {s : Stream} (h : s.core.Sane)
    (hsignal : s.leader.workNewViewSignal.isSome) (timestamp : Nat) :
    Calm (createProposal support oracle s timestamp) := by
  unfold createProposal
  split
  · exact calm_err h _
  · split
    · exact calm_err h _
    · simp only
      refine onProposal_calm ?_ ?_ _
      · exact { h with }
      · exact hsignal

theorem onLocalProposal_calm {s : Stream} (h : s.core.Sane)
    (hsignal : s.leader.workNewViewSignal.isSome) (proposal : Proposal) :
    Calm (onLocalProposal support oracle s proposal) := by
  unfold onLocalProposal
  split
  · exact onProposal_calm h hsignal proposal
  · split
    · exact calm_err h _
    · refine onProposal_calm ?_ ?_ proposal
      · exact { h with }
      · exact hsignal

/-- When the leader is to work on a certificate whose block stands on the base
block, it has the proposal, or another node has sent the certificate. -/
def Workable (s : Stream) (highQc : QC) : Prop :=
  s.leader.workScheduleSignal.isSome → s.leader.prepareMessage = none →
  s.leader.pendingRemoteProposal = none →
  highQc.node.blockHash ≠ s.storage.baseCommitQc.node.blockHash →
  highQc.node.parentHash = s.storage.baseCommitQc.node.blockHash →
  s.storage.getProposal highQc.node.blockHash = none →
    ∃ p ∈ s.leader.newViewCollector, AssocMap.get? s.leader.newViewCollector p.1 = some p.2 ∧
      p.2.justify = some highQc ∧ p.1 ≠ s.address

theorem mem_iterate_of_get? {α : Type} (order : IterOrder) {m : List (Address × α)}
    {p : Address × α} (h : AssocMap.get? m p.1 = some p.2) : p ∈ order.iterate m := by
  have hkey : p.1 ∈ m.map Prod.fst :=
    List.mem_map.2 ⟨_, AssocMap.mem_of_get?_eq_some h, rfl⟩
  exact List.mem_filterMap.2 ⟨p.1, (order.perm _).mem_iff.2 hkey, by rw [h]; rfl⟩

theorem reuseProposal_calm {s : Stream} (h : s.core.Sane)
    (hsignal : s.leader.workNewViewSignal.isSome) {highQc : QC}
    (hholder : s.storage.getProposal highQc.node.blockHash = none →
      ∃ p ∈ s.leader.newViewCollector,
        AssocMap.get? s.leader.newViewCollector p.1 = some p.2 ∧
          p.2.justify = some highQc ∧ p.1 ≠ s.address) :
    Calm (reuseProposal support oracle s highQc) := by
  unfold reuseProposal
  cases hproposal : s.storage.getProposal highQc.node.blockHash with
  | some proposal => exact onLocalProposal_calm h hsignal proposal
  | none =>
      obtain ⟨p, -, hget, hjustify, hother⟩ := hholder hproposal
      have hmem : p.1 ∈ (ConsensusMessageCollector.getHighQcAddresses (oracle.order .newView)
          s.leader.newViewCollector highQc).filter fun address => address ≠ s.address := by
        refine List.mem_filter.2 ⟨List.mem_map.2 ⟨p, List.mem_filter.2 ⟨?_, ?_⟩, rfl⟩, ?_⟩
        · exact mem_iterate_of_get? _ hget
        · simpa using hjustify
        · simpa using hother
      simp only
      split
      · next hnil =>
        rw [hnil] at hmem
        cases hmem
      · next first rest _ =>
        generalize (first :: rest).get (oracle.genRange rest.length) = target
        have hcore : (s.requestProposal target
            { requestId := 0, blockHash := highQc.node.blockHash }).core = s.core :=
          Stream.core_requestTo s target _
        generalize s.requestProposal target
          { requestId := 0, blockHash := highQc.node.blockHash } = s' at hcore
        have h' : s'.core.Sane := by
          rw [hcore]
          exact h
        have hleader : s'.leader = s.leader := congrArg Core.leader hcore
        refine calm_done { h' with pending := fun _ => ?_ }
        rw [← hleader] at hsignal
        exact hsignal

/-- The stream with the signals that work waits for. -/
def signalled (s : Stream) (workScheduleSignal : Option Nat) (workNewViewSignal : Option QC) :
    Stream :=
  { s with
    leader :=
      { s.leader with
        workScheduleSignal := workScheduleSignal.or s.leader.workScheduleSignal
        workNewViewSignal := workNewViewSignal.or s.leader.workNewViewSignal } }

theorem sane_signalled {s : Stream} (h : s.core.Sane) (workScheduleSignal : Option Nat)
    (workNewViewSignal : Option QC) :
    (signalled s workScheduleSignal workNewViewSignal).core.Sane := by
  refine { h with pending := fun hpending => ?_ }
  have hold := h.pending hpending
  have hold : s.leader.workNewViewSignal.isSome := hold
  cases workNewViewSignal with
  | none => exact hold
  | some highQc => rfl

theorem tryWork_calm {s : Stream} (h : s.core.Sane) {schedule : Option Nat}
    {newView : Option QC}
    (hw : ∀ highQc ∈ (signalled s schedule newView).leader.workNewViewSignal,
      Workable (signalled s schedule newView) highQc) :
    Calm (tryWork support oracle s schedule newView) := by
  have h' := sane_signalled h schedule newView
  unfold tryWork
  extract_lets leader s'
  have hs' : signalled s schedule newView = s' := rfl
  rw [hs'] at h' hw
  clear_value s'
  cases hsignal : s'.leader.workNewViewSignal with
  | none => exact calm_done h'
  | some highQc =>
      cases hschedule : s'.leader.workScheduleSignal with
      | none => exact calm_done h'
      | some timestamp =>
          have hsome : s'.leader.workNewViewSignal.isSome := by
            rw [hsignal]
            rfl
          simp only
          split
          · next hidle =>
            have hwork := hw highQc hsignal (by rw [hschedule]; rfl)
              (Option.isNone_iff_eq_none.1 hidle.1) (Option.isNone_iff_eq_none.1 hidle.2)
            unfold work
            simp only
            split
            · exact createProposal_calm h' hsome timestamp
            · next hbase =>
              split
              · next hparent => exact reuseProposal_calm h' hsome (hwork hbase hparent)
              · exact calm_done h'
          · exact calm_done h'

theorem onRemoteProposal_calm {s : Stream} (h : s.core.Sane) (proposal : Proposal) :
    Calm (onRemoteProposal support oracle s proposal) := by
  unfold onRemoteProposal
  cases hpending : s.leader.pendingRemoteProposal with
  | none => exact calm_done h
  | some pending =>
      simp only
      split
      · exact calm_done h
      · have hsignal : s.leader.workNewViewSignal.isSome :=
          h.pending (Option.isSome_iff_exists.2 ⟨pending, hpending⟩)
        refine onLocalProposal_calm ?_ ?_ proposal
        · exact { h with pending := nofun }
        · exact hsignal

/-! ## New view messages -/

/-- The collector with one more new view message. -/
def collectNewView (s : Stream) (message : ConsensusMessage) (address : Address) : Stream :=
  { s with
    leader.newViewCollector := AssocMap.insert s.leader.newViewCollector address message }

/-- The certificate that a new view message completes can be worked on. -/
def NewViewReady (support : Support) (oracle : Oracle) (s : Stream)
    (message : ConsensusMessage) (address : Address) : Prop :=
  ∀ justify ∈ message.justify,
    verifyQc support.basic justify none (s.justifyAuthorities justify) = .ok () →
    ∀ highQc ∈ (ConsensusMessageCollector.getHighQc (oracle.order .newView)
        (collectNewView s message address).leader.newViewCollector
        s.authorities).toOption.join,
      s.leader.workNewViewSignal = none →
        Workable (signalled (collectNewView s message address) none (some highQc)) highQc

theorem onNewView_calm {s : Stream} (h : s.core.Sane) {message : ConsensusMessage}
    {address : Address} (hready : NewViewReady support oracle s message address) :
    Calm (onNewView support oracle s message address) := by
  unfold onNewView
  have hnote : (s.note (.phase message address)).core.Sane := { h with }
  cases hjustify : message.justify with
  | none => exact calm_done hnote
  | some justify =>
      have hauthorities : (s.note (.phase message address)).justifyAuthorities justify =
          s.justifyAuthorities justify := rfl
      simp only [hauthorities]
      cases hverify : verifyQc support.basic justify none (s.justifyAuthorities justify) with
      | error e => exact calm_done hnote
      | ok u =>
          have hcollected :
              (collectNewView (s.note (.phase message address)) message address).core.Sane := by
            refine { h with newView := ?_ }
            intro p hp
            rcases AssocMap.mem_insert hp with rfl | hp
            · rw [hjustify]
              rfl
            · exact h.newView p hp
          obtain ⟨qc, hqc⟩ := ConsensusMessageCollector.getHighQc_ok (oracle.order .newView)
            hcollected.newView s.authorities
          have hqc : ConsensusMessageCollector.getHighQc (oracle.order .newView)
              (AssocMap.insert s.leader.newViewCollector address message) s.authorities =
                .ok qc := hqc
          have hfields : (s.note (.phase message address)).leader = s.leader ∧
            (s.note (.phase message address)).authorities = s.authorities := ⟨rfl, rfl⟩
          simp only [hfields.1, hfields.2, hqc]
          cases qc with
          | none => exact calm_done hcollected
          | some highQc =>
              simp only
              split
              · exact calm_done hcollected
              · next hsignal =>
                refine tryWork_calm hcollected ?_
                rintro _ ⟨⟩
                have hnone : s.leader.workNewViewSignal = none := by
                  simpa using hsignal
                have hmem : highQc ∈ (ConsensusMessageCollector.getHighQc
                    (oracle.order .newView)
                    (collectNewView s message address).leader.newViewCollector
                    s.authorities).toOption.join := by
                  simp only [collectNewView, hqc]
                  rfl
                exact hready justify hjustify hverify highQc hmem hnone

/-- A message that the leader can be given. -/
def Careful (support : Support) (oracle : Oracle) (s : Stream) (message : ConsensusMessage)
    (address : Address) : Prop :=
  message.view = s.storage.view →
    match message.messageType with
    | .newView => NewViewReady support oracle s message address
    | .decide => True
    | _ => Votable support s message address

theorem onValidatorConsensusMessage_calm {s : Stream} (h : s.core.Sane)
    {message : ConsensusMessage} {address : Address}
    (hcareful : Careful support oracle s message address) :
    Calm (onValidatorConsensusMessage support oracle s message address) := by
  unfold onValidatorConsensusMessage
  split
  · exact calm_done h
  · next hview =>
    have hcareful := hcareful (not_not.1 hview)
    have hnote : (s.note (.phase message address)).core.Sane := { h with }
    cases htype : message.messageType with
    | newView =>
        rw [htype] at hcareful
        exact onNewView_calm h hcareful
    | prepare =>
        rw [htype] at hcareful
        exact onPrepare_calm hnote hcareful
    | preCommit =>
        rw [htype] at hcareful
        exact onPreCommit_calm hnote hcareful
    | commit =>
        rw [htype] at hcareful
        exact onCommit_calm hnote hcareful
    | decide => exact calm_done h

/-! ## The start of the leader -/

theorem newViewReady_of_idle {s : Stream} (h : s.leader.workScheduleSignal = none)
    (message : ConsensusMessage) (address : Address) :
    NewViewReady support oracle s message address := by
  intro justify _ _ highQc _ _ hschedule
  have hnone : (signalled (collectNewView s message address) none
      (some highQc)).leader.workScheduleSignal = none := h
  rw [hnone] at hschedule
  cases hschedule

/-- Without the signal of the schedule a new view message starts no work. -/
theorem workScheduleSignal_onNewView {s : Stream}
    (h : s.leader.workScheduleSignal = none) (message : ConsensusMessage)
    (address : Address) :
    (onNewView support oracle s message address).1.leader.workScheduleSignal = none := by
  have hnote : (s.note (.phase message address)).leader.workScheduleSignal = none := h
  unfold onNewView
  generalize s.note (.phase message address) = s' at hnote
  simp only
  split
  · exact hnote
  · split
    · exact hnote
    · split
      · exact hnote
      · exact hnote
      · split
        · exact hnote
        · unfold tryWork
          simp only [hnote, Option.or_none]
          split
          · next hschedule => cases hschedule
          · rfl

theorem processPendingNewView_calm {messages : List (ConsensusMessage × Address)}
    {s : Stream} (h : s.core.Sane) (hidle : s.leader.workScheduleSignal = none) :
    Calm (processPendingNewView support oracle messages s) ∧
      (processPendingNewView support oracle messages s).1.leader.workScheduleSignal =
        none := by
  induction messages generalizing s with
  | nil => exact ⟨calm_done h, hidle⟩
  | cons p messages ih =>
      obtain ⟨message, address⟩ := p
      have hfirst : Calm (onNewView support oracle s message address) :=
        onNewView_calm h (newViewReady_of_idle hidle message address)
      have hidle' : (onNewView support oracle s message address).1.leader.workScheduleSignal =
          none := workScheduleSignal_onNewView hidle message address
      rw [processPendingNewView]
      refine ⟨hfirst.andThen fun h' => (ih h' hidle').1, ?_⟩
      unfold andThen
      split
      · exact (ih hfirst.1 hidle').2
      · exact hidle'

theorem start_calm {s : Stream} (h : s.core.Sane)
    (hidle : s.leader.workScheduleSignal = none) : Calm (start support oracle s) := by
  have hsane : { s with pendingNewViewMessages := [] }.core.Sane := { h with }
  obtain ⟨hcalm, hidle'⟩ : Calm (processPendingNewView support oracle
      s.pendingNewViewMessages { s with pendingNewViewMessages := [] }) ∧ _ :=
    processPendingNewView_calm hsane hidle
  exact hcalm.andThen fun h' => onNewView_calm h' (newViewReady_of_idle hidle' _ _)

end LeaderState

/-! ## The replica -/

namespace ReplicaState

variable {support : Support}

theorem vote_calm {s : Stream} (h : s.core.Sane) (messageType : MessageType) (view : Nat)
    (node : Node) : Calm (vote support s messageType view node) := by
  obtain ⟨leaderAddress, hleader⟩ := Option.isSome_iff_exists.1 h.currentLeader
  have hleader : s.currentLeader = some leaderAddress := hleader
  constructor
  · rw [core_vote hleader]
    exact { h with }
  · intro msg
    unfold vote Stream.signMessage
    simp only [hleader, Stream.sign]
    rintro ⟨⟩

theorem sendNewView_calm {s : Stream} (h : s.core.Sane) : Calm (sendNewView s) := by
  obtain ⟨leaderAddress, hleader⟩ := Option.isSome_iff_exists.1 h.currentLeader
  have hleader : s.currentLeader = some leaderAddress := hleader
  constructor
  · rw [core_sendNewView]
    exact h
  · intro msg
    unfold sendNewView
    simp only [hleader]
    exact nofun

theorem onPrepare_calm {s : Stream} (h : s.core.Sane) (message : ConsensusMessage) :
    Calm (onPrepare support s message) := by
  unfold onPrepare
  split
  · exact calm_done h
  · split
    · exact calm_done h
    · split
      · exact calm_done h
      · split
        · exact calm_done h
        · split
          · exact calm_done h
          · split
            · exact vote_calm h _ _ _
            · exact calm_done h

theorem onPreCommit_calm {s : Stream} (h : s.core.Sane) (message : ConsensusMessage) :
    Calm (onPreCommit support s message) := by
  unfold onPreCommit
  split
  · exact calm_done h
  · split
    · exact calm_done h
    · refine vote_calm ?_ _ _ _
      exact { h with }

theorem onCommit_calm {s : Stream} (h : s.core.Sane) (message : ConsensusMessage) :
    Calm (onCommit support s message) := by
  unfold onCommit
  split
  · exact calm_done h
  · split
    · exact calm_done h
    · refine vote_calm ?_ _ _ _
      exact { h with }

theorem onDecide_calm {s : Stream} (h : s.core.Sane) (message : ConsensusMessage) :
    Calm (onDecide support s message) := by
  unfold onDecide
  split
  · exact calm_done h
  · split
    · exact calm_done h
    · exact LeaderState.decideBlock_calm h _

theorem onValidatorConsensusMessage_calm {s : Stream} (h : s.core.Sane)
    (message : ConsensusMessage) (address : Address) :
    Calm (onValidatorConsensusMessage support s message address) := by
  have hnewView : (if message.messageType = .newView then onNewView s message address
      else s).core.Sane := by
    split
    · exact { h with }
    · exact h
  unfold onValidatorConsensusMessage
  generalize (if message.messageType = .newView then onNewView s message address
    else s) = s' at hnewView
  have hnote : (s'.note (.phase message address)).core.Sane := { hnewView with }
  simp only
  split
  · exact calm_done hnewView
  · split
    · exact calm_done hnewView
    · exact onPrepare_calm hnote message
    · exact onPreCommit_calm hnote message
    · exact onCommit_calm hnote message
    · exact onDecide_calm hnote message

end ReplicaState

theorem ObserverState.onValidatorConsensusMessage_calm {s : Stream} (h : s.core.Sane)
    (message : ConsensusMessage) (address : Address) :
    Calm (ObserverState.onValidatorConsensusMessage s message address) := by
  unfold ObserverState.onValidatorConsensusMessage
  split
  · exact calm_done { h with }
  · exact calm_done h

/-! ## Timeouts and the network -/

namespace Stream

variable {support : Support} {oracle : Oracle}

theorem sane_advanceView {s : Stream} (h : s.core.Sane) (view : Nat) :
    (s.advanceView view).core.Sane :=
  { h with timeouts := TimeoutMessageCollector.AllSigned.cleanup h.timeouts view }

theorem sane_processTc {s s' : Stream} (h : s.core.Sane) {message : TimeoutMessage}
    (hprocess : s.processTc support message = some s') : s'.core.Sane := by
  unfold processTc at hprocess
  split at hprocess
  · cases hprocess
    exact h
  · split at hprocess
    · split at hprocess
      · cases hprocess
      · cases hprocess
        exact sane_advanceView h _
    · cases hprocess
      exact h

theorem core_sendTimeouts (addresses : List Address) (message : TimeoutMessage)
    (s : Stream) :
    (addresses.foldl (fun s address => s.timeoutMessage address message) s).core = s.core :=
  core_foldl (fun s a => core_timeoutMessage s a message) addresses s

theorem collectTimeout_calm {s : Stream} (h : s.core.Sane) {message : TimeoutMessage}
    (hsig : message.sig.isSome) (address : Address) :
    Calm (s.collectTimeout oracle message address) := by
  have htimeouts := TimeoutMessageCollector.AllSigned.add h.timeouts address hsig
  have hsane : { s with
      timeoutMessageCollector := TimeoutMessageCollector.add s.timeoutMessageCollector address
        message }.core.Sane := { h with timeouts := htimeouts }
  obtain ⟨tc, htc⟩ := htimeouts.getTc_ok oracle.timeoutOrder s.authorities message.view
  have htc : TimeoutMessageCollector.getTc oracle.timeoutOrder
      (TimeoutMessageCollector.add s.timeoutMessageCollector address message)
      s.authorities message.view = .ok tc := htc
  unfold collectTimeout
  simp only [htc]
  cases tc with
  | none => exact calm_done hsane
  | some tc =>
      refine calm_done ?_
      rw [core_sendTimeouts]
      exact sane_advanceView { hsane with } tc.view

theorem onTimeoutMessage_calm {s : Stream} (h : s.core.Sane) (message : TimeoutMessage)
    (address : Address) : Calm (s.onTimeoutMessage support oracle message address) := by
  unfold onTimeoutMessage
  have hnote : (s.note (.timeout message address)).core.Sane := { h with }
  split
  · exact calm_done h
  · simp only
    split
    · unfold onTimeoutNewTimeout
      cases hsig : message.sig with
      | none => exact calm_done hnote
      | some sig =>
          simp only
          split
          · exact calm_done hnote
          · split
            · exact calm_done hnote
            · split
              · exact calm_done hnote
              · next s' hprocess =>
                exact collectTimeout_calm (sane_processTc hnote hprocess)
                  (by rw [hsig]; rfl) address
    · unfold onTimeoutDecide
      split
      · exact calm_done hnote
      · split
        · exact calm_done hnote
        · exact calm_done (sane_advanceView hnote _)

theorem onTimeout_calm {s : Stream} (h : s.core.Sane) :
    Calm (s.onTimeout support oracle) := by
  unfold onTimeout
  simp only
  refine (onTimeoutMessage_calm ?_ _ _).send fun s => core_sendTimeouts _ _ s
  exact { h with }

theorem onProposal_calm {s : Stream} (h : s.core.Sane) (proposal : Proposal) :
    Calm (s.onProposal support oracle proposal) := by
  unfold onProposal
  split
  · exact calm_done { h with }
  · exact calm_done h
  · exact calm_err h _

theorem sane_registerValidator {s : Stream} (h : s.core.Sane) (peerId : PeerId) :
    (s.registerValidator support peerId).core.Sane := by
  unfold registerValidator
  split
  · exact h
  · exact { h with }

theorem onNetworkMessage_calm {s : Stream} (h : s.core.Sane) (peerId : PeerId)
    (message : HotStuffMessage) : Calm (s.onNetworkMessage support oracle peerId message) := by
  cases message with
  | registerValidatorReq req =>
      simp only [onNetworkMessage]
      refine calm_done ?_
      rw [core_response]
      unfold onReqRegisterValidator
      split
      · exact h
      · split
        · exact h
        · exact { h with }
  | registerValidatorRes res => exact calm_done h
  | requestProposalReq req =>
      simp only [onNetworkMessage]
      split
      · unfold onReqRequestProposal
        split
        · exact calm_err h _
        · refine calm_done ?_
          rw [core_response]
          exact h
      · exact calm_done h
  | requestProposalRes res =>
      simp only [onNetworkMessage]
      split
      · unfold onResRequestProposal
        split
        · exact calm_done h
        · exact (onProposal_calm h _).andThen fun h => calm_done { h with }
      · exact calm_done h
  | consensusMessage message => exact calm_done { h with }
  | timeoutMessage message =>
      simp only [onNetworkMessage]
      split
      · exact onTimeoutMessage_calm h message _
      · exact calm_done h

/-! ## Messages of the task itself -/

/-- Pending messages that the leader can be given one after the other. -/
def ReplayCareful (support : Support) (oracle : Oracle) (address : Address) :
    Stream → List ConsensusMessage → Prop
  | _, [] => True
  | s, message :: messages =>
      LeaderState.Careful support oracle s message address ∧
        ReplayCareful support oracle address
          (LeaderState.onValidatorConsensusMessage support oracle s message address).1
          messages

theorem replay_calm {handler : Stream → ConsensusMessage → Stream × Outcome}
    (hcalm : ∀ {s message}, s.core.Sane → Calm (handler s message))
    {messages : List ConsensusMessage} {s : Stream} (h : s.core.Sane) :
    Calm (replay handler messages s) := by
  induction messages generalizing s with
  | nil => exact calm_done h
  | cons message messages ih => exact (hcalm h).andThen ih

theorem replayPending_calm {handler : Stream → ConsensusMessage → Stream × Outcome}
    (hcalm : ∀ {s message}, s.core.Sane → Calm (handler s message)) {s : Stream}
    (h : s.core.Sane) (peerId : PeerId) : Calm (s.replayPending peerId handler) := by
  unfold replayPending
  split
  · exact calm_done h
  · refine replay_calm hcalm ?_
    exact { h with }

theorem replay_leader_calm {address : Address} {messages : List ConsensusMessage}
    {s : Stream} (h : s.core.Sane) (hcareful : ReplayCareful support oracle address s messages) :
    Calm (replay (fun s message =>
      LeaderState.onValidatorConsensusMessage support oracle s message address) messages s) := by
  induction messages generalizing s with
  | nil => exact calm_done h
  | cons message messages ih =>
      exact (LeaderState.onValidatorConsensusMessage_calm h hcareful.1).andThen
        fun h' => ih h' hcareful.2

/-- A message of the task that the node can be given. -/
def InternalCareful (support : Support) (oracle : Oracle) (s : Stream) :
    InternalMessage → Prop
  | .validatorRegistered address peerId =>
      s.state = .leader →
        ReplayCareful support oracle address
          { s with
            pendingConsensusMessages := AssocMap.erase s.pendingConsensusMessages peerId }
          ((AssocMap.get? s.pendingConsensusMessages peerId).getD [])
  | .consensusMessage message peerId =>
      s.state = .leader → ∀ address ∈ s.getPeerAddress peerId,
        s.authorities.IsMember address → LeaderState.Careful support oracle s message address
  | .proposal _ _ => True

theorem onValidatorRegistered_calm {s : Stream} (h : s.core.Sane) {address : Address}
    {peerId : PeerId}
    (hcareful : s.InternalCareful support oracle (.validatorRegistered address peerId)) :
    Calm (s.onValidatorRegistered support oracle address peerId) := by
  unfold onValidatorRegistered
  split
  · next hstate =>
    have hcareful := hcareful hstate
    unfold replayPending
    cases hget : AssocMap.get? s.pendingConsensusMessages peerId with
    | none => exact calm_done h
    | some messages =>
        rw [hget] at hcareful
        refine replay_leader_calm ?_ hcareful
        exact { h with }
  · refine Calm.andThen ?_ fun h' => replayPending_calm
      (fun h => ReplicaState.onValidatorConsensusMessage_calm h _ _) h' peerId
    split
    · exact ReplicaState.sendNewView_calm h
    · exact calm_done h
  · exact replayPending_calm
      (fun h => ObserverState.onValidatorConsensusMessage_calm h _ _) h peerId

theorem onConsensusMessage_calm {s : Stream} (h : s.core.Sane) {message : ConsensusMessage}
    {peerId : PeerId}
    (hcareful : s.InternalCareful support oracle (.consensusMessage message peerId)) :
    Calm (s.onConsensusMessage support oracle message peerId) := by
  unfold onConsensusMessage
  cases hpeer : s.getPeerAddress peerId with
  | none => exact calm_done { h with }
  | some address =>
      simp only
      split
      · next hmember =>
        have hmember : s.authorities.IsMember address := by
          simpa [Authorities.IsMember] using hmember
        unfold onValidatorConsensusMessage
        cases hstate : s.state with
        | leader =>
            exact LeaderState.onValidatorConsensusMessage_calm h
              (hcareful hstate address hpeer hmember)
        | replica => exact ReplicaState.onValidatorConsensusMessage_calm h _ _
        | observer => exact ObserverState.onValidatorConsensusMessage_calm h _ _
      · exact calm_done h

theorem onInternalMessage_calm {s : Stream} (h : s.core.Sane) {message : InternalMessage}
    (hcareful : s.InternalCareful support oracle message) :
    Calm (s.onInternalMessage support oracle message) := by
  cases message with
  | validatorRegistered address peerId => exact onValidatorRegistered_calm h hcareful
  | consensusMessage message peerId => exact onConsensusMessage_calm h hcareful
  | proposal address proposal =>
      unfold onInternalMessage
      simp only
      split
      · exact LeaderState.onRemoteProposal_calm h proposal
      · exact calm_done h

/-! ## The loop -/

/-- `handle` with the outcome of the handler. -/
def dispatch (support : Support) (oracle : Oracle) (s : Stream) : Event → Stream × Outcome
  | .timeout =>
      match s.state with
      | .observer => done s
      | _ => s.onTimeout support oracle
  | .schedule timestamp =>
      match s.state with
      | .leader => LeaderState.tryWork support oracle s (some timestamp) none
      | _ => done s
  | .internal =>
      match s.internal with
      | [] => done s
      | internalMessage :: rest =>
          { s with internal := rest }.onInternalMessage support oracle internalMessage
  | .open peerId localNonce remoteNonce =>
      done (s.onNetworkProtocolOpen support peerId localNonce remoteNonce)
  | .close peerId => done (s.onNetworkProtocolClose peerId)
  | .message _ none => done s
  | .message peerId (some message) => s.onNetworkMessage support oracle peerId message
  | .blockCommitted =>
      if s.notices = 0 then done s
      else { s with notices := s.notices - 1 }.onBlockCommitted support
  | .restart => done s
  | .sync _ => done s

theorem handle_eq_dispatch (s : Stream) (event : Event) :
    s.handle support oracle event =
      if event = .timeout then fatal (s.dispatch support oracle event)
      else logged (s.dispatch support oracle event) := by
  cases event with
  | timeout =>
      rw [if_pos rfl]
      unfold handle dispatch
      simp only
      cases s.state <;> rfl
  | schedule timestamp =>
      rw [if_neg (by rintro ⟨⟩)]
      unfold handle dispatch
      simp only
      cases s.state <;> rfl
  | internal =>
      rw [if_neg (by rintro ⟨⟩)]
      unfold handle dispatch
      simp only
      cases s.internal <;> rfl
  | message peerId message =>
      rw [if_neg (by rintro ⟨⟩)]
      cases message <;> rfl
  | blockCommitted =>
      rw [if_neg (by rintro ⟨⟩)]
      unfold handle dispatch
      simp only
      split <;> rfl
  | _ =>
      rw [if_neg (by rintro ⟨⟩)]
      rfl

theorem core_handle (s : Stream) (event : Event) :
    (s.handle support oracle event).core = (s.dispatch support oracle event).1.core := by
  rw [handle_eq_dispatch]
  split
  · exact core_fatal _
  · exact core_logged _

/-- An event that the node can be given. -/
def EventCareful (support : Support) (oracle : Oracle) (s : Stream) : Event → Prop
  | .schedule timestamp =>
      s.state = .leader →
        ∀ highQc ∈ (LeaderState.signalled s (some timestamp) none).leader.workNewViewSignal,
          LeaderState.Workable (LeaderState.signalled s (some timestamp) none) highQc
  | .internal =>
      ∀ internalMessage ∈ s.internal.head?,
        { s with internal := s.internal.tail }.InternalCareful support oracle internalMessage
  | _ => True

theorem dispatch_calm (hgenesis : getGenesisQc support [] = some genesisQc) {s : Stream}
    (h : s.core.Sane) {event : Event} (hcareful : s.EventCareful support oracle event) :
    Calm (s.dispatch support oracle event) := by
  cases event with
  | timeout =>
      unfold dispatch
      simp only
      split
      · exact calm_done h
      · exact onTimeout_calm h
  | schedule timestamp =>
      unfold dispatch
      simp only
      split
      · next hstate => exact LeaderState.tryWork_calm h (hcareful hstate)
      · exact calm_done h
  | internal =>
      unfold EventCareful at hcareful
      unfold dispatch
      cases hinternal : s.internal with
      | nil => exact calm_done h
      | cons internalMessage rest =>
          rw [hinternal] at hcareful
          refine onInternalMessage_calm ?_ (hcareful internalMessage rfl)
          exact { h with }
  | «open» peerId localNonce remoteNonce =>
      refine calm_done (sane_registerValidator ?_ peerId)
      exact { h with }
  | close peerId => exact calm_done { h with }
  | message peerId message =>
      cases message with
      | none => exact calm_done h
      | some message => exact onNetworkMessage_calm h peerId message
  | blockCommitted =>
      unfold dispatch
      simp only
      split
      · exact calm_done h
      · obtain ⟨storage, hrefresh, -⟩ := refresh_eq_some hgenesis s.storage.chain s.storage.db
        unfold onBlockCommitted
        simp only [hrefresh]
        exact calm_done { h with }
  | restart => exact calm_done h
  | sync block => exact calm_done h

/-! ## Views -/

/-- The leader of the next view can be counted from the base certificate. -/
structure LeaderFound (s : Stream) : Prop where
  above : s.storage.baseCommitQc.view ≤ s.storage.view
  member : s.lastAuthorities = s.authorities →
    s.authorities.IsMember s.storage.baseCommitQc.leaderAddress

theorem LeaderFound.computeLeader_ok {s : Stream} (h : s.LeaderFound)
    (hmembers : s.authorities.members ≠ []) : ∃ leader, s.computeLeader = .ok leader := by
  have hpos : 0 < s.authorities.members.length := List.length_pos_iff.2 hmembers
  have hindex : ∃ i, (if s.lastAuthorities = s.authorities then
      (s.authorities.members.map Prod.fst).findIdx? fun address =>
        address = s.storage.baseCommitQc.leaderAddress
      else some (wrapSub 64 s.authorities.members.length 1)) = some i := by
    by_cases hsame : s.lastAuthorities = s.authorities
    · obtain ⟨member, hmem, haddress⟩ := h.member hsame
      rw [if_pos hsame, ← Option.isSome_iff_exists, List.findIdx?_isSome, List.any_eq_true]
      exact ⟨member.1, List.mem_map_of_mem hmem, decide_eq_true haddress⟩
    · rw [if_neg hsame]
      exact ⟨_, rfl⟩
  obtain ⟨i, hi⟩ := hindex
  unfold computeLeader
  simp only [hi]
  rw [List.getElem?_eq_getElem (Nat.mod_lt _ hpos)]
  exact ⟨_, rfl⟩

theorem runView_calm {s : Stream} (h : s.LeaderFound)
    (hmembers : s.authorities.members ≠ [])
    (htimeouts : TimeoutMessageCollector.AllSigned s.timeoutMessageCollector) :
    Calm (s.runView support oracle) := by
  obtain ⟨leader, hleader⟩ := h.computeLeader_ok hmembers
  have hsane (state : State) : { s with
      state
      currentLeader := some leader
      currentView := s.storage.view
      leader := LeaderState.new }.core.Sane := by
    refine ⟨rfl, nofun, fun t p hp => ?_, nofun, nofun, htimeouts⟩
    simp [core] at hp
  unfold runView
  simp only [hleader]
  split
  · exact LeaderState.start_calm (hsane _) rfl
  · exact ReplicaState.sendNewView_calm (hsane _)
  · exact calm_done (hsane _)

/-- The stream with which the next view is entered, if it is. -/
def nextView (support : Support) (oracle : Oracle) (s : Stream) : Event → Option Stream
  | .restart => s.restarted? support
  | event => s.entersView support oracle event

/-- An event and, when it leads to another view, a leader to be found there. -/
structure CarefulStep (support : Support) (oracle : Oracle) (s : Stream) (event : Event) :
    Prop where
  handled : s.halted = false → s.EventCareful support oracle event
  found : ∀ s' ∈ s.nextView support oracle event, s'.LeaderFound

end Stream

/-! ## Weights -/

namespace Authorities

/-- A subtraction on the total weight goes below zero. -/
def Underflows (authorities : Authorities) : Prop :=
  authorities.n < 1 ∨ authorities.n < authorities.f

end Authorities

/-- Every list of authorities that the node can read has a member, the weights
are positive, and their sum fits into `u32`. -/
structure Support.Staffed (support : Support) : Prop where
  nonempty : ∀ chain, (support.getAuthorities chain).members ≠ []
  positive : ∀ chain, ∀ member ∈ (support.getAuthorities chain).members, 0 < member.2
  bound : ∀ chain, Weights.total (support.getAuthorities chain).members < 2 ^ 32

namespace Support.Staffed

variable {support : Support} (hstaffed : support.Staffed)

include hstaffed

theorem total_authoritiesOf (chain : Chain) :
    0 < Weights.total (support.authoritiesOf chain).members ∧
      Weights.total (support.authoritiesOf chain).members < 2 ^ 32 := by
  have hbound := hstaffed.bound chain
  rw [Support.authoritiesOf, Authorities.total_aggregate _ hbound]
  refine ⟨?_, hbound⟩
  obtain ⟨member, hmem⟩ := List.exists_mem_of_ne_nil _ (hstaffed.nonempty chain)
  have hpos := hstaffed.positive chain member hmem
  have hle : member.2 ≤ Weights.total (support.getAuthorities chain).members :=
    List.le_sum_of_mem (List.mem_map_of_mem hmem)
  omega

theorem not_underflows (chain : Chain) : ¬ (support.authoritiesOf chain).Underflows := by
  obtain ⟨hpos, hlt⟩ := hstaffed.total_authoritiesOf chain
  have hn : (support.authoritiesOf chain).n =
      Weights.total (support.authoritiesOf chain).members := by
    rw [Authorities.n, Authorities.foldl_wrapAdd _ 0 (by omega), Nat.zero_add]
  rw [Authorities.Underflows, Authorities.f, hn, wrapSub_of_le hlt hpos]
  omega

theorem members_ne_nil (chain : Chain) : (support.authoritiesOf chain).members ≠ [] := by
  obtain ⟨hpos, -⟩ := hstaffed.total_authoritiesOf chain
  intro hnil
  rw [hnil] at hpos
  cases hpos

theorem exists_genesisQc : ∃ genesisQc, getGenesisQc support [] = some genesisQc := by
  have hmembers := hstaffed.members_ne_nil []
  unfold getGenesisQc
  split
  · next hnil => exact absurd hnil hmembers
  · exact ⟨_, rfl⟩

end Support.Staffed

/-! ## Runs -/

namespace Stream

variable {support : Support} {oracle : Oracle}

/-- The next `run_view` panics, or subtracts below zero. -/
def ViewPanics (support : Support) (oracle : Oracle) (s : Stream) : Prop :=
  s.storage.view < s.storage.baseCommitQc.view ∨ s.authorities.members.length < 1 ∨
    ∃ msg, (s.runView support oracle).2 = .error (.panic msg)

/-- A step panics, or subtracts below zero: in a collector or another handler,
in reading the genesis certificate, or in the next `run_view`. -/
def Panics (support : Support) (oracle : Oracle) (s : Stream) (event : Event) : Prop :=
  (s.halted = false ∧
    (s.authorities.Underflows ∨ s.lastAuthorities.Underflows ∨
      ∃ msg, (s.dispatch support oracle event).2 = .error (.panic msg))) ∨
  (event = .restart ∧ s.restarted? support = none) ∨
  ∃ s' ∈ s.nextView support oracle event, s'.ViewPanics support oracle

/-- What a node keeps as long as it takes careful steps. -/
structure Steady (support : Support) (s : Stream) : Prop where
  sane : s.core.Sane
  authorities : ∃ chain, s.authorities = support.authoritiesOf chain
  lastAuthorities : ∃ chain, s.lastAuthorities = support.authoritiesOf chain

theorem LeaderFound.not_viewPanics {s : Stream} (h : s.LeaderFound)
    (hmembers : s.authorities.members ≠ [])
    (htimeouts : TimeoutMessageCollector.AllSigned s.timeoutMessageCollector) :
    ¬ s.ViewPanics support oracle := by
  rintro (hbelow | hempty | ⟨msg, hpanic⟩)
  · exact absurd h.above (Nat.not_le.2 hbelow)
  · have hpos := List.length_pos_iff.2 hmembers
    omega
  · exact (runView_calm h hmembers htimeouts).2 msg hpanic

theorem timeouts_restarted? {s s' : Stream} (h : s.restarted? support = some s') :
    s'.timeoutMessageCollector = [] := by
  obtain ⟨storage, -, rfl⟩ := Option.map_eq_some_iff.1 h
  rfl

/-- The first leader can always be found. -/
theorem leaderFound_blank (hgenesis : getGenesisQc support [] = some genesisQc)
    (secretKey : SecretKey) {s : Stream}
    (h : (blank support secretKey).restarted? support = some s) : s.LeaderFound := by
  obtain ⟨s', hs', hroot⟩ := restarted?_eq_some hgenesis (blank support secretKey)
  rw [h] at hs'
  cases hs'
  have hbase : s.storage.baseCommitQc = genesisQc := congrArg Root.baseCommitQc hroot
  have hauthorities : s.authorities = support.authoritiesOf [] :=
    congrArg Root.authorities hroot
  refine ⟨?_, fun _ => ?_⟩
  · have hview : genesisQc.view = 0 := by
      unfold getGenesisQc at hgenesis
      split at hgenesis
      · cases hgenesis
      · cases hgenesis
        rfl
    rw [hbase, hview]
    exact Nat.zero_le _
  · have hmem := List.mem_of_head? (head?_of_getGenesisQc hgenesis)
    obtain ⟨member, hmem, haddress⟩ := List.mem_map.1 hmem
    rw [hauthorities, hbase]
    exact ⟨member, hmem, haddress⟩

theorem authorities_restarted? (hgenesis : getGenesisQc support [] = some genesisQc)
    {s s' : Stream} (h : s.restarted? support = some s') :
    s'.authorities = support.authoritiesOf s.storage.chain := by
  obtain ⟨s'', hs'', hroot⟩ := restarted?_eq_some hgenesis s
  rw [h] at hs''
  cases hs''
  exact congrArg Root.authorities hroot

/-- A restart with a leader to be found. -/
theorem sane_spawn (hstaffed : support.Staffed) {s : Stream}
    (hfound : ∀ s' ∈ s.restarted? support, s'.LeaderFound) :
    (s.spawn support oracle).core.Sane := by
  obtain ⟨genesisQc, hgenesis⟩ := hstaffed.exists_genesisQc
  obtain ⟨s', hs', -⟩ := restarted?_eq_some hgenesis s
  have hmembers : s'.authorities.members ≠ [] := by
    rw [authorities_restarted? hgenesis hs']
    exact hstaffed.members_ne_nil _
  rw [spawn_eq, hs']
  simp only [core_fatal]
  refine (runView_calm (hfound s' hs') hmembers ?_).1
  rw [timeouts_restarted? hs']
  exact nofun

theorem authorities_step (hgenesis : getGenesisQc support [] = some genesisQc) {s : Stream}
    (h : s.Steady support) (event : Event) :
    (∃ chain, (s.step support oracle event).authorities = support.authoritiesOf chain) ∧
      ∃ chain, (s.step support oracle event).lastAuthorities =
        support.authoritiesOf chain := by
  rcases root_step hgenesis oracle s event with hroot | ⟨-, -, hroot⟩ | ⟨-, hroot⟩
  · have hnow : (s.step support oracle event).authorities = s.authorities :=
      congrArg Root.authorities hroot
    have hlast : (s.step support oracle event).lastAuthorities = s.lastAuthorities :=
      congrArg Root.lastAuthorities hroot
    rw [hnow, hlast]
    exact ⟨h.authorities, h.lastAuthorities⟩
  · have hnow : (s.step support oracle event).authorities = _ :=
      congrArg Root.authorities hroot
    have hlast : (s.step support oracle event).lastAuthorities = s.authorities :=
      congrArg Root.lastAuthorities hroot
    rw [hlast]
    exact ⟨⟨_, hnow⟩, h.authorities⟩
  · exact ⟨⟨_, congrArg Root.authorities hroot⟩, ⟨_, congrArg Root.lastAuthorities hroot⟩⟩

/-- The authorities with which the next view is entered are those after the
step. -/
theorem entersView_spec {s s' : Stream} {event : Event}
    (h : s.entersView support oracle event = some s') :
    s.halted = false ∧ s' = s.handle support oracle event ∧
      s'.authorities = (s.step support oracle event).authorities := by
  rcases step_cases support oracle s event with
    ⟨rfl, -⟩ | ⟨block, rfl, -⟩ | ⟨henters, -⟩ | ⟨-, henters, -⟩ | ⟨hrunning, henters, hstep⟩
  · cases h
  · cases h
  · rw [henters] at h
    cases h
  · rw [henters] at h
    cases h
  · rw [henters] at h
    cases h
    refine ⟨hrunning, rfl, ?_⟩
    rw [hstep]
    have hroot : (fatal ((s.handle support oracle event).runView support oracle)).root =
        (s.handle support oracle event).root := by
      rw [root_fatal, root_runView]
    exact (congrArg Root.authorities hroot).symm

theorem CarefulStep.sane_handle (hgenesis : getGenesisQc support [] = some genesisQc)
    {s : Stream} (h : s.Steady support) {event : Event}
    (hcareful : s.CarefulStep support oracle event) (hrunning : s.halted = false) :
    (s.handle support oracle event).core.Sane := by
  rw [core_handle]
  exact (dispatch_calm hgenesis h.sane (hcareful.handled hrunning)).1

/-- What the next view is entered with. -/
theorem CarefulStep.entered (hstaffed : support.Staffed) {s s' : Stream}
    (h : s.Steady support) {event : Event} (hcareful : s.CarefulStep support oracle event)
    (henters : s.entersView support oracle event = some s') :
    s'.LeaderFound ∧ s'.authorities.members ≠ [] ∧
      TimeoutMessageCollector.AllSigned s'.timeoutMessageCollector := by
  obtain ⟨genesisQc, hgenesis⟩ := hstaffed.exists_genesisQc
  obtain ⟨hrunning, rfl, hauthorities⟩ := entersView_spec henters
  obtain ⟨⟨chain, hchain⟩, -⟩ := authorities_step hgenesis h event
  refine ⟨hcareful.found _ ?_, ?_, (hcareful.sane_handle hgenesis h hrunning).timeouts⟩
  · cases event with
    | restart => cases henters
    | _ => exact henters
  · rw [hauthorities, hchain]
    exact hstaffed.members_ne_nil chain

theorem Steady.step (hstaffed : support.Staffed) {s : Stream} (h : s.Steady support)
    {event : Event} (hcareful : s.CarefulStep support oracle event) :
    (s.step support oracle event).Steady support := by
  obtain ⟨genesisQc, hgenesis⟩ := hstaffed.exists_genesisQc
  obtain ⟨hauthorities, hlast⟩ := authorities_step hgenesis h event
  refine ⟨?_, hauthorities, hlast⟩
  rcases step_cases support oracle s event with
    ⟨rfl, hstep⟩ | ⟨block, rfl, hstep⟩ | ⟨-, hstep⟩ | ⟨hrunning, -, hstep⟩ |
      ⟨-, henters, hstep⟩
  · rw [hstep]
    exact sane_spawn hstaffed hcareful.found
  · rw [hstep]
    unfold syncBlock
    split
    · exact { h.sane with }
    · exact h.sane
  · rw [hstep]
    exact h.sane
  · rw [hstep]
    exact hcareful.sane_handle hgenesis h hrunning
  · obtain ⟨hfound, hmembers, htimeouts⟩ := hcareful.entered hstaffed h henters
    rw [hstep, core_fatal]
    exact (runView_calm hfound hmembers htimeouts).1

theorem Steady.not_panics (hstaffed : support.Staffed) {s : Stream} (h : s.Steady support)
    {event : Event} (hcareful : s.CarefulStep support oracle event) :
    ¬ s.Panics support oracle event := by
  obtain ⟨genesisQc, hgenesis⟩ := hstaffed.exists_genesisQc
  rintro (⟨hrunning, hunder | hunder | ⟨msg, hpanic⟩⟩ | ⟨-, hnone⟩ | ⟨s', hs', hview⟩)
  · obtain ⟨chain, hchain⟩ := h.authorities
    rw [hchain] at hunder
    exact hstaffed.not_underflows chain hunder
  · obtain ⟨chain, hchain⟩ := h.lastAuthorities
    rw [hchain] at hunder
    exact hstaffed.not_underflows chain hunder
  · exact (dispatch_calm hgenesis h.sane (hcareful.handled hrunning)).2 msg hpanic
  · obtain ⟨s', hs', -⟩ := restarted?_eq_some hgenesis s
    rw [hnone] at hs'
    cases hs'
  · by_cases hrestart : event = .restart
    · subst hrestart
      have hmembers : s'.authorities.members ≠ [] := by
        rw [authorities_restarted? hgenesis hs']
        exact hstaffed.members_ne_nil _
      refine (hcareful.found s' hs').not_viewPanics hmembers ?_ hview
      rw [timeouts_restarted? hs']
      exact nofun
    · have henters : s.entersView support oracle event = some s' := by
        cases event with
        | restart => exact absurd rfl hrestart
        | _ => exact hs'
      obtain ⟨hfound, hmembers, htimeouts⟩ := hcareful.entered hstaffed h henters
      exact hfound.not_viewPanics hmembers htimeouts hview

end Stream

theorem RunWith.steady {support : Support} (hstaffed : support.Staffed)
    {secretKey : SecretKey} {s : Stream}
    (h : RunWith support secretKey (Stream.CarefulStep support) s) : s.Steady support := by
  induction h with
  | start oracle =>
      obtain ⟨genesisQc, hgenesis⟩ := hstaffed.exists_genesisQc
      obtain ⟨s', hs', hroot⟩ :=
        Stream.restarted?_eq_some hgenesis (Stream.blank support secretKey)
      have hspawn : ((Stream.blank support secretKey).spawn support oracle).root = s'.root := by
        rw [Stream.spawn_eq, hs']
        simp only [Stream.root_fatal, Stream.root_runView]
      rw [hroot] at hspawn
      refine ⟨?_, ⟨_, congrArg Root.authorities hspawn⟩,
        ⟨_, congrArg Root.lastAuthorities hspawn⟩⟩
      exact Stream.sane_spawn hstaffed fun s' hs' =>
        Stream.leaderFound_blank hgenesis secretKey hs'
  | step h oracle event hp ih => exact ih.step hstaffed hp

/-- A node that is only given what fits what its handlers rely on does not
panic: not at its start, and not at any of its steps. -/
theorem never_panics {support : Support} (hstaffed : support.Staffed)
    {secretKey : SecretKey} :
    (∀ oracle, ¬ (Stream.blank support secretKey).Panics support oracle .restart) ∧
      ∀ {s : Stream}, RunWith support secretKey (Stream.CarefulStep support) s →
        ∀ oracle event, s.CarefulStep support oracle event →
          ¬ s.Panics support oracle event := by
  obtain ⟨genesisQc, hgenesis⟩ := hstaffed.exists_genesisQc
  constructor
  · rintro oracle (⟨hrunning, -⟩ | ⟨-, hnone⟩ | ⟨s', hs', hview⟩)
    · cases hrunning
    · obtain ⟨s', hs', -⟩ :=
        Stream.restarted?_eq_some hgenesis (Stream.blank support secretKey)
      rw [hnone] at hs'
      cases hs'
    · have hmembers : s'.authorities.members ≠ [] := by
        rw [Stream.authorities_restarted? hgenesis hs']
        exact hstaffed.members_ne_nil _
      refine (Stream.leaderFound_blank hgenesis secretKey hs').not_viewPanics hmembers ?_ hview
      rw [Stream.timeouts_restarted? hs']
      exact nofun
  · intro s hrun oracle event hcareful
    exact (hrun.steady hstaffed).not_panics hstaffed hcareful

/-! ## Samples -/

namespace Stream

variable (support : Support) (oracle : Oracle)

instance (s : Stream) (message : ConsensusMessage) (address : Address) :
    Decidable (LeaderState.Votable support s message address) :=
  inferInstanceAs (Decidable (_ → _ ∧ ∀ sig ∈ message.sig, _))

instance (s : Stream) (highQc : QC) : Decidable (LeaderState.Workable s highQc) :=
  inferInstanceAs (Decidable (_ → _ → _ → _ → _ → _ → _))

instance (s : Stream) (message : ConsensusMessage) (address : Address) :
    Decidable (LeaderState.NewViewReady support oracle s message address) :=
  inferInstanceAs (Decidable (∀ justify ∈ message.justify, _ → ∀ highQc ∈ _, _ → _))

instance (s : Stream) (message : ConsensusMessage) (address : Address) :
    Decidable (LeaderState.Careful support oracle s message address) :=
  match htype : message.messageType with
  | .newView =>
      decidable_of_iff (message.view = s.storage.view →
        LeaderState.NewViewReady support oracle s message address)
        (by rw [LeaderState.Careful, htype])
  | .prepare | .preCommit | .commit =>
      decidable_of_iff (message.view = s.storage.view →
        LeaderState.Votable support s message address)
        (by rw [LeaderState.Careful, htype])
  | .decide => isTrue (by simp [LeaderState.Careful, htype])

instance decidableReplayCareful (address : Address) :
    (s : Stream) → (messages : List ConsensusMessage) →
      Decidable (ReplayCareful support oracle address s messages)
  | _, [] => inferInstanceAs (Decidable True)
  | s, message :: messages =>
      have := decidableReplayCareful address
        (LeaderState.onValidatorConsensusMessage support oracle s message address).1 messages
      inferInstanceAs (Decidable (_ ∧ _))

instance (s : Stream) : (message : InternalMessage) →
    Decidable (s.InternalCareful support oracle message)
  | .validatorRegistered _ _ => inferInstanceAs (Decidable (_ → _))
  | .consensusMessage _ peerId =>
      inferInstanceAs (Decidable (_ → ∀ address ∈ s.getPeerAddress peerId, _ → _))
  | .proposal _ _ => inferInstanceAs (Decidable True)

instance (s : Stream) : (event : Event) → Decidable (s.EventCareful support oracle event)
  | .schedule timestamp =>
      inferInstanceAs (Decidable (_ → ∀ highQc ∈
        (LeaderState.signalled s (some timestamp) none).leader.workNewViewSignal, _))
  | .internal => inferInstanceAs (Decidable (∀ internalMessage ∈ s.internal.head?, _))
  | .timeout => inferInstanceAs (Decidable True)
  | .open _ _ _ => inferInstanceAs (Decidable True)
  | .close _ => inferInstanceAs (Decidable True)
  | .message _ _ => inferInstanceAs (Decidable True)
  | .blockCommitted => inferInstanceAs (Decidable True)
  | .restart => inferInstanceAs (Decidable True)
  | .sync _ => inferInstanceAs (Decidable True)

instance (s : Stream) : Decidable s.LeaderFound :=
  decidable_of_iff
    (s.storage.baseCommitQc.view ≤ s.storage.view ∧
      (s.lastAuthorities = s.authorities →
        s.authorities.IsMember s.storage.baseCommitQc.leaderAddress))
    ⟨fun h => ⟨h.1, h.2⟩, fun h => ⟨h.above, h.member⟩⟩

instance (s : Stream) (event : Event) : Decidable (s.CarefulStep support oracle event) :=
  decidable_of_iff
    ((s.halted = false → s.EventCareful support oracle event) ∧
      ∀ s' ∈ s.nextView support oracle event, s'.LeaderFound)
    ⟨fun h => ⟨h.1, h.2⟩, fun h => ⟨h.handled, h.found⟩⟩

end Stream

namespace Sample

theorem staffed_support (n : Nat) (hpos : 0 < n) (hlt : n < 2 ^ 32) :
    (support n).Staffed := by
  have htotal : Weights.total ((List.range n).map fun i =>
      ((⟨[UInt8.ofNat i]⟩, 1) : Address × Nat)) = n := by
    rw [Weights.total, List.map_map]
    simp [Function.comp_def]
  refine ⟨fun chain => ?_, fun chain => ?_, fun chain => ?_⟩
  · simp [support, hpos.ne']
  · simp [support]
  · exact htotal.trans_lt hlt

/-- A new view message for view `1` with the genesis certificate. -/
def newView : ConsensusMessage where
  requestId := 0
  messageType := .newView
  view := 1
  node := none
  justify := getGenesisQc (support 4) []
  sig := none

/-- A vote of validator `key` for the first block of view `1`. -/
def prepareVote (key : UInt8) : ConsensusMessage :=
  let node : Node := { parentHash := (support 4).genesisHash, blockHash := block1.blockHash }
  { requestId := 0
    messageType := .prepare
    view := 1
    node := some node
    justify := none
    sig := (signatures [key] (.vote .prepare 1 (some node) ⟨[1]⟩)).head? }

/-- Validator `1` leads view `1`: it is given two new view messages and its
schedule, and so proposes. -/
def proposing : List Event :=
  register 0 ++ register 2 ++ deliver 0 newView ++ deliver 2 newView ++ [.schedule 1]

end Sample

/-- A leader that has proposed is given a vote, and then times out. -/
theorem never_panics_proposing :
    ¬ (Sample.validator 4 1 (Sample.proposing ++ Sample.deliver 0 (Sample.prepareVote 0))).Panics
      (Sample.support 4) Sample.oracle .timeout := by
  have hrun : RunWith (Sample.support 4) ⟨[1]⟩ (Stream.CarefulStep (Sample.support 4))
      (Sample.validator 4 1 (Sample.proposing ++ Sample.deliver 0 (Sample.prepareVote 0))) :=
    (RunWith.start Sample.oracle).steps (by decide +kernel)
  exact (never_panics (Sample.staffed_support 4 (by decide) (by decide))).2 hrun _ _
    (by decide +kernel)

/-- A vote of a registered validator that comes before the proposal. -/
theorem panics_earlyVote :
    ∃ s : Stream, Run (Sample.support 4) ⟨[1]⟩ s ∧ (Sample.support 4).Staffed ∧
      s.Panics (Sample.support 4) Sample.oracle .internal := by
  refine ⟨Sample.validator 4 1 (Sample.register 0 ++
    [.message [0] (some (.consensusMessage (Sample.prepareVote 0)))]),
    (Run.start Sample.oracle).steps Sample.oracle _,
    Sample.staffed_support 4 (by decide) (by decide), ?_⟩
  exact Or.inl ⟨by decide +kernel, Or.inr (Or.inr ⟨"qed", by decide +kernel⟩)⟩

end Finastate.Hotstuff
