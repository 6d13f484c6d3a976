import Finastate.Hotstuff.Refinement

/-!
# Runs of one node

A node is started on the genesis chain with an empty database and then handles
any events in any order. `Run.core_induction` is how an invariant of all runs
is proved: it holds before the start, and every act keeps it.
-/

namespace Finastate.Hotstuff

/-- A node before its first start. -/
def Stream.blank (support : Support) (secretKey : SecretKey) : Stream :=
  let genesisQc : QC :=
    { messageType := .decide
      view := 0
      node := { parentHash := ⟨[]⟩, blockHash := support.genesisHash }
      leaderAddress := ⟨[]⟩
      sig := [] }
  { secretKey
    publicKey := support.basic.publicKey secretKey
    address := support.basic.address (support.basic.publicKey secretKey)
    out := []
    peers := []
    knownValidators := []
    nextRequestId := 0
    storage :=
      { chain := []
        db := Db.empty
        baseCommitQc := genesisQc
        baseBlockHash := ⟨[]⟩
        view := 0
        prepareQc := genesisQc
        lockedQc := genesisQc
        nodes := []
        proposals := [] }
    currentLeader := none
    state := .observer
    leader := LeaderState.new
    currentView := 0
    authorities := ⟨[]⟩
    lastAuthorities := ⟨[]⟩
    internal := []
    notices := 0
    unread := 0
    commitBlockParams := none
    pendingConsensusMessages := []
    pendingNewViewMessages := []
    timeoutMessageCollector := []
    timeoutTc := none
    halted := true
    signed := []
    received := []
    history := []
    trace := [] }

/-- The states that a node can reach. -/
inductive Run (support : Support) (secretKey : SecretKey) : Stream → Prop
  | start (oracle : Oracle) :
      Run support secretKey ((Stream.blank support secretKey).spawn support oracle)
  | step {s : Stream} (h : Run support secretKey s) (oracle : Oracle) (event : Event) :
      Run support secretKey (s.step support oracle event)

/-- The states that a node can reach when every event meets a condition on the
state it finds. -/
inductive RunWith (support : Support) (secretKey : SecretKey)
    (P : Oracle → Stream → Event → Prop) : Stream → Prop
  | start (oracle : Oracle) :
      RunWith support secretKey P ((Stream.blank support secretKey).spawn support oracle)
  | step {s : Stream} (h : RunWith support secretKey P s) (oracle : Oracle) (event : Event)
      (hp : P oracle s event) : RunWith support secretKey P (s.step support oracle event)

theorem RunWith.run {support : Support} {secretKey : SecretKey}
    {P : Oracle → Stream → Event → Prop} {s : Stream}
    (h : RunWith support secretKey P s) : Run support secretKey s := by
  induction h with
  | start oracle => exact .start oracle
  | step h oracle event hp ih => exact ih.step oracle event

/-- The stream with which an event enters the next `run_view`, if it does. -/
def Stream.entersView (support : Support) (oracle : Oracle) (s : Stream) :
    Event → Option Stream
  | .restart => none
  | .sync _ => none
  | event =>
      if s.halted then none
      else
        let s := s.handle support oracle event
        if s.halted ∨ s.storage.view = s.currentView then none else some s

/-- A step is a restart, a synced block, or an event of the loop with the next
`run_view` after it. -/
theorem Stream.step_cases (support : Support) (oracle : Oracle) (s : Stream)
    (event : Event) :
    (event = .restart ∧ s.step support oracle event = s.spawn support oracle) ∨
    (∃ block, event = .sync block ∧
      s.step support oracle event = s.syncBlock support block) ∨
    (s.entersView support oracle event = none ∧ s.step support oracle event = s) ∨
    (s.halted = false ∧ s.entersView support oracle event = none ∧
      s.step support oracle event = s.handle support oracle event) ∨
    (s.halted = false ∧
      s.entersView support oracle event = some (s.handle support oracle event) ∧
      s.step support oracle event =
        fatal ((s.handle support oracle event).runView support oracle)) := by
  have hloop (hrestart : event ≠ .restart) (hsync : ∀ block, event ≠ .sync block)
      (hstep : s.step support oracle event =
        if s.halted then s
        else if (s.handle support oracle event).halted ∨
            (s.handle support oracle event).storage.view =
              (s.handle support oracle event).currentView then
          s.handle support oracle event
        else fatal ((s.handle support oracle event).runView support oracle))
      (henters : s.entersView support oracle event =
        if s.halted then none
        else if (s.handle support oracle event).halted ∨
            (s.handle support oracle event).storage.view =
              (s.handle support oracle event).currentView then none
        else some (s.handle support oracle event)) :
      (s.entersView support oracle event = none ∧ s.step support oracle event = s) ∨
      (s.halted = false ∧ s.entersView support oracle event = none ∧
        s.step support oracle event = s.handle support oracle event) ∨
      (s.halted = false ∧
        s.entersView support oracle event = some (s.handle support oracle event) ∧
        s.step support oracle event =
          fatal ((s.handle support oracle event).runView support oracle)) := by
    rw [hstep, henters]
    split
    · exact Or.inl ⟨rfl, rfl⟩
    · next hhalted =>
      have hrunning : s.halted = false := by simpa using hhalted
      split
      · exact Or.inr (Or.inl ⟨hrunning, rfl, rfl⟩)
      · exact Or.inr (Or.inr ⟨hrunning, rfl, rfl⟩)
  cases event with
  | restart => exact Or.inl ⟨rfl, rfl⟩
  | sync block => exact Or.inr (Or.inl ⟨block, rfl, rfl⟩)
  | _ => exact Or.inr (Or.inr (hloop nofun nofun rfl rfl))

/-- Several events in their order. -/
def Stream.steps (support : Support) (oracle : Oracle) (s : Stream) (events : List Event) :
    Stream :=
  events.foldl (fun s event => s.step support oracle event) s

theorem Run.steps {support : Support} {secretKey : SecretKey} {s : Stream}
    (h : Run support secretKey s) (oracle : Oracle) (events : List Event) :
    Run support secretKey (s.steps support oracle events) := by
  induction events generalizing s with
  | nil => exact h
  | cons event events ih => exact ih (h.step oracle event)

/-- Events that meet a condition on the states they find. -/
def Stream.StepsWith (support : Support) (oracle : Oracle)
    (P : Oracle → Stream → Event → Prop) : Stream → List Event → Prop
  | _, [] => True
  | s, event :: events =>
      P oracle s event ∧ StepsWith support oracle P (s.step support oracle event) events

instance Stream.decidableStepsWith (support : Support) (oracle : Oracle)
    (P : Oracle → Stream → Event → Prop) [∀ oracle s event, Decidable (P oracle s event)] :
    (s : Stream) → (events : List Event) → Decidable (s.StepsWith support oracle P events)
  | _, [] => inferInstanceAs (Decidable True)
  | s, event :: events =>
      have := decidableStepsWith support oracle P (s.step support oracle event) events
      inferInstanceAs (Decidable (_ ∧ _))

theorem RunWith.steps {support : Support} {secretKey : SecretKey}
    {P : Oracle → Stream → Event → Prop} {s : Stream} (h : RunWith support secretKey P s)
    {oracle : Oracle} {events : List Event} (hp : s.StepsWith support oracle P events) :
    RunWith support secretKey P (s.steps support oracle events) := by
  induction events generalizing s with
  | nil => exact h
  | cons event events ih => exact ih (h.step oracle event hp.1) hp.2

theorem Stream.wf_blank (support : Support) (secretKey : SecretKey) :
    (blank support secretKey).core.Wf := by
  refine ⟨fun h => ?_, fun h => ?_, fun h => rfl, fun m hm => ?_, fun p hp => ?_⟩
  · cases h
  · cases h
  · cases hm
  · cases hp

theorem Acts.induction {support : Support} {event : Event} {P : Core → Prop}
    (hact : ∀ {c c' : Core}, Act support event c c' → c.Wf → P c → P c') {c c' : Core}
    (h : Acts support event c c') (hwf : c.Wf) (hc : P c) : P c' := by
  induction h with
  | refl => exact hc
  | tail hfirst hlast ih => exact hact hlast (Acts.wf hfirst hwf) ih

theorem Run.wf_running {support : Support} {secretKey : SecretKey} {s : Stream}
    (h : Run support secretKey s) : s.core.Wf ∧ s.Running := by
  induction h with
  | start oracle =>
      have hwf := Stream.wf_blank support secretKey
      obtain ⟨hmove, hrun⟩ := Stream.spawn_acts support oracle .restart hwf
      exact ⟨Acts.wf hmove hwf, hrun⟩
  | step h oracle event ih =>
      obtain ⟨hmove, hrun⟩ := Stream.step_acts support oracle ih.1 ih.2 event
      exact ⟨Acts.wf hmove ih.1, hrun⟩

/-- What holds of a node before its start and is kept by every act holds in
every run. -/
theorem Run.core_induction {support : Support} {secretKey : SecretKey} {P : Core → Prop}
    (hblank : P (Stream.blank support secretKey).core)
    (hact : ∀ {event : Event} {c c' : Core}, Act support event c c' → c.Wf → P c → P c')
    {s : Stream} (h : Run support secretKey s) : P s.core := by
  induction h with
  | start oracle =>
      have hwf := Stream.wf_blank support secretKey
      exact Acts.induction hact (Stream.spawn_acts support oracle .restart hwf).1 hwf hblank
  | step h oracle event ih =>
      obtain ⟨hwf, hrun⟩ := h.wf_running
      exact Acts.induction hact (Stream.step_acts support oracle hwf hrun event).1 hwf ih

/-! ## The trace only grows -/

theorem CommonAct.trace_suffix {support : Support} {c c' : Core}
    (h : CommonAct support c c') : c.trace <:+ c'.trace := by
  cases h with
  | note action h => exact List.suffix_cons _ _
  | queue queued h => exact List.suffix_rfl
  | params params built => exact List.suffix_rfl
  | putProposal proposal x p built number parent hash => exact List.suffix_rfl

theorem Act.trace_suffix {support : Support} {event : Event} {c c' : Core}
    (h : Act support event c c') : c.trace <:+ c'.trace := by
  cases h with
  | common c' h => exact h.trace_suffix
  | leader c' state view h =>
      cases h with
      | common c' h => exact h.trace_suffix
      | work l h => exact List.suffix_rfl
      | propose node highQc pm signal acting fresh pmNode idle => exact List.suffix_rfl
      | ownVote t message pm leaderAddress phase leader type view proposed node own =>
          exact List.suffix_rfl
      | remoteVote t message pm address s phase other received type view sig signer valid
          proposed node => exact List.suffix_rfl
      | prepareQc order qc message collected fresh => exact List.suffix_rfl
      | preCommitQc order qc message collected fresh => exact List.suffix_rfl
      | decide order qc chain collected decides => exact List.suffix_rfl
  | replica c' state h =>
      cases h with
      | common c' h => exact h.trace_suffix
      | vote message address leaderAddress t view node justify acting received current casts
          leader => cases t <;> exact List.suffix_rfl
      | decide message address qc chain acting received type justify valid decides =>
          exact List.suffix_rfl
  | receive peerId message h => exact List.suffix_rfl
  | sign message h => exact List.suffix_rfl
  | timeouts timeouts byView => exact List.suffix_rfl
  | newTimeout message address first second acting type signed view attached alone =>
      cases first <;> cases second <;> exact List.suffix_rfl
  | decideTimeout message address tc acting type attached valid => exact List.suffix_rfl
  | refresh storage h => exact List.suffix_rfl
  | restart storage h => exact List.suffix_rfl
  | runView state leader own other => exact List.suffix_rfl
  | sync block params chain h hash header commits => exact List.suffix_cons _ _

theorem Acts.trace_suffix {support : Support} {event : Event} {c c' : Core}
    (h : Acts support event c c') : c.trace <:+ c'.trace := by
  induction h with
  | refl => exact List.suffix_rfl
  | tail _ hlast ih => exact ih.trans (hlast.trace_suffix)

/-! ## What refreshing the storage leaves -/

namespace Storage

/-- What a refreshed storage holds: the values on disk, repaired by the commit
certificate of the confirmed block. -/
structure Refreshed (support : Support) (blocks : Chain) (db : Db) (storage : Storage)
    (genesisQc : QC) : Prop where
  genesis : getGenesisQc support blocks = some genesisQc
  chain : storage.chain = blocks
  baseCommitQc : storage.baseCommitQc = confirmedQc genesisQc blocks
  baseBlockHash : storage.baseBlockHash = support.confirmedBlockHash blocks
  view : storage.view =
    if db.view.getD 0 < wrapAdd 64 storage.baseCommitQc.view 1 then
      wrapAdd 64 storage.baseCommitQc.view 1
    else db.view.getD 0
  dbView : storage.db.view.getD 0 = storage.view
  prepareQc : storage.prepareQc =
    if (db.prepareQc.getD genesisQc).view ≤ storage.baseCommitQc.view then
      storage.baseCommitQc
    else db.prepareQc.getD genesisQc
  dbPrepareQc : storage.db.prepareQc.getD genesisQc = storage.prepareQc
  lockedQc : storage.lockedQc =
    if (db.lockedQc.getD genesisQc).view ≤ storage.baseCommitQc.view then
      storage.baseCommitQc
    else db.lockedQc.getD genesisQc
  dbLockedQc : storage.db.lockedQc.getD genesisQc = storage.lockedQc
  /-- A body that is left was there before, and is not one of a proposal that the
  index places beside the base block. -/
  proposal : ∀ p ∈ storage.db.proposal, p ∈ db.proposal ∧
    ∀ q ∈ collectMap (db.proposals.getD []), q.1 = p.1 →
      q.2.parentHash = storage.baseBlockHash
  proposals : storage.proposals =
    (collectMap (db.proposals.getD [])).filter fun p => p.2.parentHash = storage.baseBlockHash
  dbProposals : storage.db.proposals = db.proposals

theorem nodup_collectMap (entries : List (Hash × Node)) :
    ((collectMap entries).map Prod.fst).Nodup :=
  AssocMap.nodup_keys_foldl_insert (m := []) List.nodup_nil entries

/-- A vector without repeated keys is not changed by collecting it. -/
theorem mem_collectMap {entries : List (Hash × Node)} (h : (entries.map Prod.fst).Nodup)
    {p : Hash × Node} : p ∈ collectMap entries ↔ p ∈ entries := by
  rw [collectMap, AssocMap.mem_foldl_insert h]
  simp

/-! Every fix writes its own fields of the database, and returns what is there
afterwards. -/

theorem fixView_spec (db : Db) (baseCommitQc : QC) :
    (∃ view, (fixView db baseCommitQc).1 = { db with view }) ∧
      (fixView db baseCommitQc).1.view.getD 0 = (fixView db baseCommitQc).2 ∧
      (fixView db baseCommitQc).2 =
        if db.view.getD 0 < wrapAdd 64 baseCommitQc.view 1 then
          wrapAdd 64 baseCommitQc.view 1
        else db.view.getD 0 := by
  unfold fixView
  simp only
  split
  · exact ⟨⟨_, rfl⟩, rfl, rfl⟩
  · exact ⟨⟨_, rfl⟩, rfl, rfl⟩

theorem fixPrepareQc_spec (db : Db) (genesisQc baseCommitQc : QC) :
    (∃ prepareQc, (fixPrepareQc db genesisQc baseCommitQc).1 = { db with prepareQc }) ∧
      (fixPrepareQc db genesisQc baseCommitQc).1.prepareQc.getD genesisQc =
        (fixPrepareQc db genesisQc baseCommitQc).2 ∧
      (fixPrepareQc db genesisQc baseCommitQc).2 =
        if (db.prepareQc.getD genesisQc).view ≤ baseCommitQc.view then baseCommitQc
        else db.prepareQc.getD genesisQc := by
  unfold fixPrepareQc
  simp only
  split
  · exact ⟨⟨_, rfl⟩, rfl, rfl⟩
  · exact ⟨⟨_, rfl⟩, rfl, rfl⟩

theorem fixLockedQc_spec (db : Db) (genesisQc baseCommitQc : QC) :
    (∃ lockedQc, (fixLockedQc db genesisQc baseCommitQc).1 = { db with lockedQc }) ∧
      (fixLockedQc db genesisQc baseCommitQc).1.lockedQc.getD genesisQc =
        (fixLockedQc db genesisQc baseCommitQc).2 ∧
      (fixLockedQc db genesisQc baseCommitQc).2 =
        if (db.lockedQc.getD genesisQc).view ≤ baseCommitQc.view then baseCommitQc
        else db.lockedQc.getD genesisQc := by
  unfold fixLockedQc
  simp only
  split
  · exact ⟨⟨_, rfl⟩, rfl, rfl⟩
  · exact ⟨⟨_, rfl⟩, rfl, rfl⟩

theorem fixNodes_spec (db : Db) (baseBlockHash : Hash) :
    ∃ nodes, (fixNodes db baseBlockHash).1 = { db with nodes } := by
  unfold fixNodes
  simp only
  split
  · exact ⟨_, rfl⟩
  · exact ⟨_, rfl⟩

theorem mem_foldl_erase {keys : List Hash} {m : List (Hash × Proposal)}
    {p : Hash × Proposal} (h : p ∈ keys.foldl AssocMap.erase m) : p ∈ m ∧ p.1 ∉ keys := by
  induction keys generalizing m with
  | nil => exact ⟨h, List.not_mem_nil⟩
  | cons k keys ih =>
      obtain ⟨hmem, hnot⟩ := ih h
      obtain ⟨hm, hk⟩ := List.mem_filter.1 hmem
      have hne : p.1 ≠ k := by simpa using hk
      exact ⟨hm, fun hp => (List.mem_cons.1 hp).elim hne hnot⟩

theorem fixProposals_spec (db : Db) (nodes : List (Hash × Node)) (baseBlockHash : Hash) :
    (∃ nodes' proposal, (fixProposals db nodes baseBlockHash).1 =
        { db with nodes := nodes', proposal }) ∧
      (∀ p ∈ (fixProposals db nodes baseBlockHash).1.proposal, p ∈ db.proposal ∧
        ∀ q ∈ collectMap (db.proposals.getD []), q.1 = p.1 →
          q.2.parentHash = baseBlockHash) ∧
      (fixProposals db nodes baseBlockHash).2 =
        (collectMap (db.proposals.getD [])).filter
          fun p => p.2.parentHash = baseBlockHash := by
  have hbody : ∀ p ∈ ((((collectMap (db.proposals.getD [])).filter
      fun p => p.2.parentHash ≠ baseBlockHash).map Prod.fst).foldl AssocMap.erase
        db.proposal), p ∈ db.proposal ∧
      ∀ q ∈ collectMap (db.proposals.getD []), q.1 = p.1 →
        q.2.parentHash = baseBlockHash := by
    intro p hp
    obtain ⟨hmem, hnot⟩ := mem_foldl_erase hp
    refine ⟨hmem, fun q hq hkey => ?_⟩
    by_contra hne
    exact hnot (List.mem_map.2 ⟨q, List.mem_filter.2 ⟨hq, by simpa using hne⟩, hkey⟩)
  unfold fixProposals
  simp only
  split
  · exact ⟨⟨_, _, rfl⟩, hbody, rfl⟩
  · exact ⟨⟨_, _, rfl⟩, hbody, rfl⟩

theorem refreshed_of_refresh {support : Support} {chain : Chain} {db : Db}
    {storage : Storage} (h : refresh support chain db = some storage) :
    ∃ genesisQc, Refreshed support chain db storage genesisQc := by
  unfold refresh at h
  cases hgenesis : getGenesisQc support chain with
  | none =>
      rw [hgenesis] at h
      cases h
  | some genesisQc =>
      rw [hgenesis] at h
      simp only [Option.some.injEq] at h
      obtain ⟨⟨view, hv⟩, hview, hview'⟩ := fixView_spec db (confirmedQc genesisQc chain)
      rw [hv] at h hview
      obtain ⟨⟨prepareQc, hp⟩, hprepare, hprepare'⟩ :=
        fixPrepareQc_spec { db with view } genesisQc (confirmedQc genesisQc chain)
      rw [hp] at h hprepare
      obtain ⟨⟨lockedQc, hl⟩, hlocked, hlocked'⟩ :=
        fixLockedQc_spec { db with view, prepareQc } genesisQc (confirmedQc genesisQc chain)
      rw [hl] at h hlocked
      obtain ⟨nodes, hn⟩ := fixNodes_spec { db with view, prepareQc, lockedQc }
        (support.confirmedBlockHash chain)
      rw [hn] at h
      obtain ⟨⟨nodes', proposal, hb⟩, hbody, hproposals⟩ :=
        fixProposals_spec { db with view, prepareQc, lockedQc, nodes }
          (fixNodes { db with view, prepareQc, lockedQc }
            (support.confirmedBlockHash chain)).2 (support.confirmedBlockHash chain)
      rw [hb] at h hbody
      subst h
      exact ⟨genesisQc, hgenesis, rfl, rfl, rfl, hview', hview, hprepare', hprepare, hlocked',
        hlocked, hbody, hproposals, rfl⟩

end Storage

/-! ## What the collectors hold -/

@[simp] theorem LeaderState.votes_new (t : MessageType) : LeaderState.new.votes t = [] := by
  cases t <;> rfl

theorem LeaderState.mem_votes_addVote {l : LeaderState} {t t' : MessageType}
    {address : Address} {message : ConsensusMessage} {p : Address × ConsensusMessage}
    (h : p ∈ (l.addVote t address message).votes t') :
    (t' = t ∧ p = (address, message)) ∨ p ∈ l.votes t' := by
  cases t <;> cases t' <;> first
    | exact Or.inr h
    | exact (AssocMap.mem_insert h).imp_left fun hp => ⟨rfl, hp⟩

/-- Every collected vote is of the phase of its collector, of the view of the
leader and for the proposed node. -/
def Core.Collected (c : Core) : Prop :=
  ∀ t, ∀ p ∈ c.leader.votes t, p.2.messageType = t ∧ p.2.view = c.currentView ∧
    ∃ pm, c.leader.prepareMessage = some pm ∧ p.2.node = pm.node

theorem CommonAct.collected {support : Support} {c c' : Core} (h : CommonAct support c c')
    (hc : c.Collected) : c'.Collected := by
  cases h with
  | note action h => exact hc
  | queue queued h => exact hc
  | params params built => exact hc
  | putProposal proposal x p built number parent hash => exact hc

theorem LeaderAct.collected {support : Support} {c c' : Core} (h : LeaderAct support c c')
    (hview : c.storage.view = c.currentView) (hc : c.Collected) : c'.Collected := by
  cases h with
  | common c' h => exact h.collected hc
  | work l h =>
      intro t p hp
      rw [h.votes] at hp
      obtain ⟨htype, hv, pm, hpm, hnode⟩ := hc t p hp
      exact ⟨htype, hv, pm, h.prepareMessage.trans hpm, hnode⟩
  | propose node highQc pm signal acting fresh pmNode idle =>
      -- before the proposal there are no votes
      intro t p hp
      obtain ⟨-, -, pm', hpm, -⟩ := hc t p (by cases t <;> exact hp)
      rw [fresh] at hpm
      cases hpm
  | ownVote t message pm leaderAddress phase leader type view proposed node own =>
      intro t' p hp
      rw [LeaderState.addVote_prepareMessage]
      rcases LeaderState.mem_votes_addVote hp with ⟨rfl, rfl⟩ | hp
      · exact ⟨type, view.trans hview, pm, proposed, node⟩
      · exact hc t' p hp
  | remoteVote t message pm address s phase other received type view sig signer valid
      proposed node =>
      intro t' p hp
      rw [LeaderState.addVote_prepareMessage]
      rcases LeaderState.mem_votes_addVote hp with ⟨rfl, rfl⟩ | hp
      · exact ⟨type, view.trans hview, pm, proposed, node⟩
      · exact hc t' p hp
  | prepareQc order qc message collected fresh =>
      intro t p hp
      exact hc t p (by cases t <;> exact hp)
  | preCommitQc order qc message collected fresh =>
      intro t p hp
      exact hc t p (by cases t <;> exact hp)
  | decide order qc chain collected decides => exact hc

theorem Act.collected {support : Support} {event : Event} {c c' : Core}
    (h : Act support event c c') (hc : c.Collected) : c'.Collected := by
  cases h with
  | common c' h => exact h.collected hc
  | leader c' state view h => exact h.collected view hc
  | replica c' state h =>
      cases h with
      | common c' h => exact h.collected hc
      | vote message address leaderAddress t view node justify acting received current casts
          leader =>
          cases t <;> exact hc
      | decide message address qc chain acting received type justify valid decides => exact hc
  | receive peerId message h => exact hc
  | sign message h => exact hc
  | timeouts timeouts byView => exact hc
  | newTimeout message address first second acting type signed view attached alone =>
      cases first <;> cases second <;> exact hc
  | decideTimeout message address tc acting type attached valid => exact hc
  | refresh storage h => exact hc
  | restart storage h => exact fun t p hp => by simp [Core.restarted] at hp
  | runView state leader own other => exact fun t p hp => by simp at hp
  | sync block params chain h hash header commits => exact hc

/-- A certificate carries the phase, the view and the node of a collected vote. -/
theorem ConsensusMessageCollector.exists_of_collectQc {authorities : Authorities}
    {leaderAddress : Address} {messages : List (Address × ConsensusMessage)}
    {totalWeight : Nat} {sig : List (PublicKey × Signature)} {qc : QC}
    (h : collectQc authorities leaderAddress messages totalWeight sig = .ok (some qc)) :
    ∃ p ∈ messages, p.2.messageType = qc.messageType ∧ p.2.view = qc.view ∧
      p.2.node = some qc.node := by
  have hqc : ∀ {message : ConsensusMessage} {sig : List (PublicKey × Signature)},
      qcOf message leaderAddress sig = .ok (some qc) →
      message.messageType = qc.messageType ∧ message.view = qc.view ∧
        message.node = some qc.node := by
    intro message sig h
    unfold qcOf at h
    split at h
    · cases h
    · next node hnode =>
      cases h
      exact ⟨rfl, rfl, hnode⟩
  induction messages generalizing totalWeight sig with
  | nil => cases h
  | cons p messages ih =>
      obtain ⟨address, message⟩ := p
      have htail {x : Nat} {y : List (PublicKey × Signature)}
          (h : collectQc authorities leaderAddress messages x y = .ok (some qc)) :
          ∃ p ∈ (address, message) :: messages, p.2.messageType = qc.messageType ∧
            p.2.view = qc.view ∧ p.2.node = some qc.node := by
        obtain ⟨p, hp, hp'⟩ := ih h
        exact ⟨p, List.mem_cons_of_mem _ hp, hp'⟩
      unfold collectQc at h
      split at h
      · cases h
      · simp only at h
        split at h
        · exact ⟨_, List.mem_cons_self, hqc h⟩
        · exact htail h
      · split at h
        · exact ⟨_, List.mem_cons_self, hqc h⟩
        · exact htail h

/-- A certificate that the leader makes of the votes of a phase. -/
theorem Core.Collected.of_getQc {c : Core} (hc : c.Collected) {t : MessageType}
    {order : IterOrder} {qc : QC}
    (h : ConsensusMessageCollector.getQc order (c.leader.votes t) c.authorities c.address =
      .ok (some qc)) :
    qc.messageType = t ∧ qc.view = c.currentView ∧
      ∃ pm, c.leader.prepareMessage = some pm ∧ pm.node = some qc.node := by
  obtain ⟨p, hp, htype, hview, hnode⟩ := ConsensusMessageCollector.exists_of_collectQc h
  obtain ⟨htype', hview', pm, hpm, hnode'⟩ := hc t p (IterOrder.mem_iterate hp)
  exact ⟨htype.symm.trans htype', hview.symm.trans hview', pm, hpm, hnode'.symm.trans hnode⟩

/-! ## A sample network

Validators with one-byte keys whose address is the key; a signature is the key
followed by the encoding of what is signed, and the hash of a header is its
encoding. -/

namespace Sample

def encodeNat (n : Nat) : Bytes := List.replicate n 1 ++ [0]

def encodeBytes (bytes : Bytes) : Bytes := bytes.flatMap (fun b => [1, b]) ++ [0]

def encodeInt : Int → Bytes
  | .ofNat n => 0 :: encodeNat n
  | .negSucc n => 1 :: encodeNat n

def encodeHeader (header : Header) : Bytes :=
  encodeNat header.number ++ encodeNat header.timestamp ++
    encodeBytes header.parentHash.bytes ++ encodeBytes header.metaTxsRoot.bytes ++
    encodeBytes header.metaStateRoot.bytes ++ encodeBytes header.metaReceiptsRoot.bytes ++
    encodeBytes header.payloadTxsRoot.bytes ++ encodeInt header.payloadExecutionGap ++
    encodeBytes header.payloadExecutionStateRoot.bytes ++
    encodeBytes header.payloadExecutionReceiptsRoot.bytes

def encodeMessageType : MessageType → UInt8
  | .newView => 0
  | .prepare => 1
  | .preCommit => 2
  | .commit => 3
  | .decide => 4

def encodeSigMessage : SigMessage → Bytes
  | .nonce n => 0 :: encodeNat n
  | .timeout .newTimeout view => 1 :: encodeNat view
  | .timeout .decide view => 2 :: encodeNat view
  | .vote t view none leader =>
      3 :: encodeMessageType t :: (encodeNat view ++ encodeBytes leader.bytes)
  | .vote t view (some node) leader =>
      4 :: encodeMessageType t :: (encodeNat view ++ encodeBytes node.parentHash.bytes ++
        encodeBytes node.blockHash.bytes ++ encodeBytes leader.bytes)

def basic : Basic SigMessage where
  hash header := ⟨encodeHeader header⟩
  address publicKey := ⟨publicKey.bytes⟩
  publicKey secretKey := ⟨secretKey.bytes⟩
  sign message secretKey := ⟨secretKey.bytes ++ encodeSigMessage message⟩
  verify message publicKey signature :=
    if signature.bytes = publicKey.bytes ++ encodeSigMessage message then .ok ()
    else .error "invalid signature"

def genesisHeader : Header where
  number := 0
  timestamp := 0
  parentHash := ⟨[]⟩
  metaTxsRoot := ⟨[]⟩
  metaStateRoot := ⟨[]⟩
  metaReceiptsRoot := ⟨[]⟩
  payloadTxsRoot := ⟨[]⟩
  payloadExecutionGap := 0
  payloadExecutionStateRoot := ⟨[]⟩
  payloadExecutionReceiptsRoot := ⟨[]⟩

/-- The validators `0, .., n - 1`, each of weight `1`, and an executor that
takes every block. -/
def support (n : Nat) : Support where
  basic
  genesisHeader
  getAuthorities _ := ⟨(List.range n).map fun i => (⟨[UInt8.ofNat i]⟩, 1)⟩
  maxExecutionGap _ := 10
  hashTransaction _ := ⟨[]⟩
  validateTransaction _ _ _ := .ok ()
  execute _ params :=
    .ok
      { metaTxs := params.metaTxs.map FullTransaction.txHash
        metaTxsRoot := ⟨[]⟩
        metaStateRoot := ⟨[]⟩
        metaReceiptsRoot := ⟨[]⟩
        payloadTxsRoot := ⟨[]⟩
        payloadExecutionStateRoot := ⟨[]⟩
        payloadExecutionReceiptsRoot := ⟨[]⟩ }

def oracle : Oracle where
  executedNumber := 0
  metaTxs := []
  payloadTxs := []
  genRange _ := 0
  order _ := ⟨id, fun _ => .rfl⟩
  timeoutOrder := ⟨id, fun _ => .rfl⟩

/-- The keys of the validators in the list with their signatures. -/
def signatures (keys : List UInt8) (message : SigMessage) : List (PublicKey × Signature) :=
  keys.map fun key => (⟨[key]⟩, basic.sign message ⟨[key]⟩)

/-- Validator `key` connects as the peer of that name and registers. -/
def register (key : UInt8) : List Event :=
  [.open [key] 7 7,
    .message [key] (some (.registerValidatorReq
      { requestId := 0, publicKey := ⟨[key]⟩, signature := basic.sign (.nonce 7) ⟨[key]⟩ })),
    .internal]

/-- A consensus message from validator `key`, and its handling. -/
def deliver (key : UInt8) (message : ConsensusMessage) : List Event :=
  [.message [key] (some (.consensusMessage message)), .internal]

/-- A proposal of block `1` that every node accepts. -/
def header (timestamp : Nat) : Header :=
  { genesisHeader with
    number := 1
    timestamp
    parentHash := ⟨encodeHeader genesisHeader⟩
    payloadExecutionGap := 1 }

def proposal (timestamp : Nat) : Proposal where
  parentHash := ⟨encodeHeader genesisHeader⟩
  blockHash := ⟨encodeHeader (header timestamp)⟩
  number := 1
  timestamp
  metaTxs := []
  payloadTxs := []
  executionNumber := 0

/-- A validator of `n`, started and run through the events. -/
def validator (n : Nat) (key : UInt8) (events : List Event) : Stream :=
  ((Stream.blank (support n) ⟨[key]⟩).spawn (support n) oracle).steps (support n) oracle events

/-- Validator `0`. -/
def node (n : Nat) (events : List Event) : Stream := validator n 0 events

theorem run_node (n : Nat) (events : List Event) :
    Run (support n) ⟨[0]⟩ (node n events) :=
  (Run.start oracle).steps oracle events

end Sample

end Finastate.Hotstuff
