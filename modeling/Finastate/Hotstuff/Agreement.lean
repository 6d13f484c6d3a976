import Finastate.Hotstuff.NodeInvariant

/-!
# Agreement

The honest nodes of a proper run share one legal log of ballots, so all their
chains are chains of this log and agree. A forged decide message, which no node
rejects, is enough to break agreement in other runs.
-/

namespace Finastate.Hotstuff

open VoteLog (Phase Ballot Ref Cast)

namespace Network

variable {net : Network} {log : List (Ballot Address Hash)} {a : Address} {c c' : Core}

/-- A node that has just been started. -/
theorem nodeInv_restarted (ha : a ∈ net.honest) (hfresh : ∀ b ∈ log, b.voter ≠ a)
    {storage : Storage}
    (hrefresh : Storage.refresh net.support [] Db.empty = some storage) :
    net.NodeInv log a
      ((Stream.blank net.support (net.secretKey a)).core.restarted net.support storage) := by
  have hblank : net.StorageInv log (Stream.blank net.support (net.secretKey a)).storage :=
    { dbView := rfl
      confirmed := .nil
      base := ⟨[], List.suffix_rfl, rfl⟩
      prepareQc := .of_sig_nil rfl
      dbPrepareQc := by rintro _ ⟨⟩
      lockedQc := Or.inl rfl
      dbLockedQc := by rintro _ ⟨⟩
      dbLockedView := fun qc hqc => hqc
      proposal := by rintro _ ⟨⟩
      proposals := by rintro _ ⟨⟩
      nodup := List.nodup_nil }
  obtain ⟨hstorage, -⟩ := hblank.refresh hrefresh
  obtain ⟨genesisQc, hr⟩ := Storage.refreshed_of_refresh hrefresh
  have hview : storage.view = 1 := by
    have hview := hr.view
    rw [hr.baseCommitQc, Storage.confirmedQc, Storage.view_of_getGenesisQc hr.genesis] at hview
    exact hview
  exact
    { address := net.own a ha
      authorities := getHotstuffAuthorities_eq _ _
      storage := hstorage
      view_pos := hview ▸ Nat.one_pos
      currentView := Nat.zero_le _
      collected := fun t p hp => by simp [Core.restarted] at hp
      leader := .new _ _
      params := by rintro _ ⟨⟩
      signed := by rintro _ _ _ _ ⟨⟩
      received := by rintro _ ⟨⟩
      ballots := fun b hb hvoter => absurd hvoter (hfresh b hb) }

/-- A fixed authority set has members, so a start does not panic. -/
theorem exists_refresh (net : Network) :
    ∃ storage, Storage.refresh net.support [] Db.empty = some storage := by
  cases hmembers : net.authorities.members with
  | nil =>
      have hpos := net.total_pos
      rw [hmembers] at hpos
      exact absurd hpos (lt_irrefl 0)
  | cons member members =>
      have hgenesis : ∃ qc, getGenesisQc net.support [] = some qc := by
        rw [getGenesisQc, getHotstuffAuthorities_eq, hmembers]
        exact ⟨_, rfl⟩
      obtain ⟨qc, hqc⟩ := hgenesis
      rw [Storage.refresh, hqc]
      exact ⟨_, rfl⟩

/-- What the other honest nodes have signed of a certificate in an event. -/
theorem sound_of_unforged {nodes : Address → Stream}
    (hinv : ∀ a ∈ net.honest, net.NodeInv log a (nodes a).core) {event : Event}
    (hunforged : net.Unforged nodes event) {qc : QC}
    (hsig : ∀ s ∈ qc.sig, s ∈ event.signatures) : net.Sound log qc := by
  rintro ⟨s, hsigned, hquorum⟩
  have hvoted : ∀ a ∈ s, a ∈ net.honest → Voted log a qc.messageType qc.view (some qc.node) := by
    intro a ha hhonest
    obtain ⟨x, hx, rfl, hverify⟩ := hsigned a ha
    exact (hinv _ hhonest).signed _ _ _ _
      (hunforged x (hsig x hx) qc.sigMessage hverify hhonest)
  obtain ⟨a, hhonest, ha, -⟩ := net.exists_honest hquorum hquorum
  obtain ⟨n, phase, -, hphase, -⟩ := hvoted a ha hhonest
  refine ⟨phase, hphase, s, hquorum, fun b hb hb' => ?_⟩
  obtain ⟨n', phase', hn', hphase', hcast⟩ := hvoted b hb hb'
  rw [hphase] at hphase'
  cases hphase'
  cases hn'
  exact hcast

theorem soundEvent_of_unforged {nodes : Address → Stream}
    (hinv : ∀ a ∈ net.honest, net.NodeInv log a (nodes a).core) {event : Event}
    (hunforged : net.Unforged nodes event) : net.SoundEvent log event where
  message := by
    rintro peerId message rfl
    refine ⟨fun qc hqc => sound_of_unforged hinv hunforged fun s hs => ?_, ?_⟩
    · have hqc' : message.justify = some qc := hqc
      simp [Event.signatures, HotStuffMessage.signatures, hqc', hs]
    · intro s hs hhonest t view node leader hverify
      have hs' : message.sig = some s := hs
      refine (hinv _ hhonest).signed _ _ _ leader (hunforged s ?_ _ hverify hhonest)
      simp [Event.signatures, HotStuffMessage.signatures, hs']
  block := by
    rintro block rfl
    exact sound_of_unforged hinv hunforged fun s hs => hs

/-- The honest nodes of a proper run share one legal log. -/
theorem Reach.exists_log {nodes : Address → Stream} (h : net.Reach nodes)
    (hproper : ∀ a ∈ net.honest, net.Proper a (nodes a).trace) :
    ∃ log, net.system.Legal log ∧ ∀ a ∈ net.honest, net.NodeInv log a (nodes a).core := by
  induction h with
  | start oracle =>
      -- the nodes are started one after the other
      suffices hstart : ∀ started ⊆ net.honest, ∃ log, net.system.Legal log ∧
          (∀ b ∈ log, b.voter ∈ started) ∧ ∀ a ∈ started, net.NodeInv log a
            ((Stream.blank net.support (net.secretKey a)).spawn net.support (oracle a)).core by
        obtain ⟨log, hlegal, -, hinv⟩ := hstart net.honest (Finset.Subset.refl _)
        exact ⟨log, hlegal, hinv⟩
      intro started
      induction started using Finset.induction_on with
      | empty => exact fun _ => ⟨[], .nil, by simp, by simp⟩
      | insert a started hnot ih =>
          intro hsub
          have ha : a ∈ net.honest := hsub (Finset.mem_insert_self a started)
          obtain ⟨log, hlegal, hvoters, hinv⟩ :=
            ih ((Finset.subset_insert a started).trans hsub)
          obtain ⟨storage, hrefresh⟩ := net.exists_refresh
          have hfresh : ∀ b ∈ log, b.voter ≠ a :=
            fun b hb heq => hnot (heq ▸ hvoters b hb)
          have hevent : net.SoundEvent log .restart := ⟨nofun, nofun⟩
          obtain ⟨new, hlegal', hnew, hinv'⟩ := (nodeInv_restarted ha hfresh hrefresh).acts
            hlegal hevent
            (Stream.spawn_restarted (oracle a) (Stream.wf_blank _ _) hrefresh).1
            (hproper a ha)
          refine ⟨new ++ log, hlegal', ?_, ?_⟩
          · intro b hb
            rcases List.mem_append.1 hb with hb | hb
            · exact hnew b hb ▸ Finset.mem_insert_self _ _
            · exact Finset.mem_insert_of_mem (hvoters b hb)
          · intro b hb
            rcases Finset.mem_insert.1 hb with rfl | hb
            · exact hinv'
            · refine (hinv b hb).append fun x hx heq => ?_
              rw [hnew x hx] at heq
              exact hnot (heq ▸ hb)
  | @step nodes h a ha oracle event unforged ih =>
      obtain ⟨hwf, hrun⟩ := (h.run a).wf_running
      obtain ⟨hacts, -⟩ := Stream.step_acts net.support oracle hwf hrun event
      have hproper' := hproper a ha
      rw [Function.update_self] at hproper'
      have hbefore : ∀ b ∈ net.honest, net.Proper b (nodes b).trace := by
        intro b hb
        by_cases hba : b = a
        · subst hba
          exact hproper'.suffix hacts.trace_suffix
        · have hsame := hproper b hb
          rw [Function.update_of_ne hba] at hsame
          exact hsame
      obtain ⟨log, hlegal, hinv⟩ := ih hbefore
      obtain ⟨new, hlegal', hnew, hinv'⟩ := (hinv a ha).acts hlegal
        (soundEvent_of_unforged hinv unforged) hacts hproper'
      refine ⟨new ++ log, hlegal', fun b hb => ?_⟩
      by_cases hba : b = a
      · subst hba
        rw [Function.update_self]
        exact hinv'
      · rw [Function.update_of_ne hba]
        exact (hinv b hb).append fun x hx heq => hba ((hnew x hx).symm.trans heq).symm

end Network

/-- The block of a number, read off the hashes of the chain. -/
theorem Support.getBlockHash_succ (support : Support) (chain : Chain) (number : Nat) :
    support.getBlockHash chain (number + 1) =
      (chain.map ConfirmedBlock.blockHash).reverse[number]? := by
  rw [Consensus.Support.getBlockHash, ← List.map_reverse, List.getElem?_map]
  rfl

/-- Honest nodes agree on the block of every number in every proper run. -/
theorem agreement {net : Network} {nodes : Address → Stream} (hreach : net.Reach nodes)
    (hproper : ∀ a ∈ net.honest, net.Proper a (nodes a).trace) : net.Agrees nodes := by
  obtain ⟨log, hlegal, hinv⟩ := hreach.exists_log hproper
  -- the shorter chain is the lower part of the longer one
  have hle : ∀ a ∈ net.honest, ∀ b ∈ net.honest,
      (nodes a).storage.chain.length ≤ (nodes b).storage.chain.length →
      ∀ number hash, net.support.getBlockHash (nodes a).storage.chain number = some hash →
        net.support.getBlockHash (nodes b).storage.chain number = some hash := by
    intro a ha b hb hlength number hash hget
    cases number with
    | zero => exact hget
    | succ number =>
        rw [Support.getBlockHash_succ] at hget ⊢
        have hsuffix := (hinv a ha).storage.confirmed.chain.suffix_of_length_le hlegal
          (hinv b hb).storage.confirmed.chain (by
            rw [List.length_map, List.length_map]
            exact hlength)
        have hprefix := List.reverse_prefix.2 hsuffix
        obtain ⟨hlt, rfl⟩ := List.getElem?_eq_some_iff.1 hget
        exact List.prefix_iff_getElem?.1 hprefix number hlt
  intro a ha b hb number hash hash' hget hget'
  rcases le_total (nodes a).storage.chain.length (nodes b).storage.chain.length with h | h
  · exact Option.some.inj ((hle a ha b hb h number hash hget).symm.trans hget')
  · exact Option.some.inj (hget.symm.trans (hle b hb a ha h number hash' hget'))

/-! ## A proper run -/

namespace Sample

theorem encodeMessageType_injective : Function.Injective encodeMessageType := by
  intro t t' h
  cases t <;> cases t' <;> first
    | rfl
    | cases h

theorem encodeSigMessage_vote_inj {message : SigMessage} {t : MessageType} {view : Nat}
    {node : Node} {leader : Address}
    (h : encodeSigMessage message = encodeSigMessage (.vote t view (some node) leader)) :
    message = .vote t view (some node) leader := by
  cases message with
  | nonce n => cases (List.cons.inj h).1
  | timeout t view => cases t <;> cases (List.cons.inj h).1
  | vote t' view' node' leader' =>
      cases node' with
      | none => cases (List.cons.inj h).1
      | some node' =>
          obtain ⟨⟨parentHash⟩, ⟨blockHash⟩⟩ := node
          obtain ⟨⟨parentHash'⟩, ⟨blockHash'⟩⟩ := node'
          obtain ⟨leader⟩ := leader
          obtain ⟨leader'⟩ := leader'
          obtain ⟨htype, h⟩ := List.cons.inj (List.cons.inj h).2
          simp only [List.append_assoc] at h
          obtain ⟨hview, h⟩ := encodeNat_append_inj h
          obtain ⟨hparent, h⟩ := encodeBytes_append_inj h
          obtain ⟨hblock, h⟩ := encodeBytes_append_inj h
          rw [← List.append_nil (encodeBytes leader), ← List.append_nil (encodeBytes leader')]
            at h
          rw [encodeMessageType_injective htype, hview, hparent, hblock,
            (encodeBytes_append_inj h).1]

theorem eq_of_verify_sign {message : SigMessage} {t : MessageType} {view : Nat} {node : Node}
    {leader : Address} {key : UInt8}
    (h : basic.verify message ⟨[key]⟩
      (basic.sign (.vote t view (some node) leader) ⟨[key]⟩) = .ok ()) :
    message = .vote t view (some node) leader := by
  unfold basic at h
  simp only at h
  split at h
  · next heq => exact (encodeSigMessage_vote_inj (List.append_cancel_left heq).symm)
  · cases h

/-- The only validator `0` and a node `5` that follows it are honest. -/
def followed : Network :=
  network 1 {⟨[0]⟩, ⟨[5]⟩} (by decide) (by decide) (by decide)

/-- The block that the validator commits by itself. -/
def committed : ConfirmedBlock where
  blockHash := ⟨encodeHeader (header 5)⟩
  header := header 5
  commitQc :=
    { messageType := .commit
      view := 1
      node :=
        { parentHash := ⟨encodeHeader genesisHeader⟩
          blockHash := ⟨encodeHeader (header 5)⟩ }
      leaderAddress := ⟨[0]⟩
      sig := signatures [0] (.vote .commit 1
        (some
          { parentHash := ⟨encodeHeader genesisHeader⟩
            blockHash := ⟨encodeHeader (header 5)⟩ }) ⟨[0]⟩) }

/-- The validator commits a block. -/
def committedNodes : Address → Stream :=
  Function.update
    (fun a => (Stream.blank followed.support (followed.secretKey a)).spawn followed.support
      oracle)
    ⟨[0]⟩ (validator 1 0 [.schedule 5])

/-- The other node learns the block. -/
def followedNodes : Address → Stream :=
  Function.update committedNodes ⟨[5]⟩ (validator 1 5 [.sync committed])

end Sample

theorem agreement_followedNodes :
    Sample.followed.Agrees Sample.followedNodes ∧
      (Sample.followedNodes ⟨[0]⟩).storage.chain = [Sample.committed] ∧
      (Sample.followedNodes ⟨[5]⟩).storage.chain = [Sample.committed] := by
  have hstart : Sample.followed.Reach _ := .start fun _ => Sample.oracle
  have hfirst : Sample.followed.Reach Sample.committedNodes :=
    hstart.steps ⟨[0]⟩ (by decide) Sample.oracle [.schedule 5] (by decide)
  have hunforged : Sample.followed.Unforged Sample.committedNodes
      (.sync Sample.committed) := by
    intro s hs message hverify hhonest
    rw [List.mem_singleton.1 hs] at hverify ⊢
    rw [Sample.eq_of_verify_sign hverify]
    decide +kernel
  have hreach := hfirst.step ⟨[5]⟩ (by decide) Sample.oracle (.sync Sample.committed) hunforged
  refine ⟨agreement hreach ?_, by decide +kernel, by decide +kernel⟩
  intro a ha
  rcases Finset.mem_insert.1 ha with rfl | ha
  · exact ⟨by decide +kernel, by decide +kernel⟩
  · rw [Finset.mem_singleton.1 ha]
    exact ⟨by decide +kernel, by decide +kernel⟩

/-! ## A forged certificate -/

namespace Sample

/-- The validators `0`, `1` and `2` of four are honest. -/
def four : Network :=
  network 4 {⟨[0]⟩, ⟨[1]⟩, ⟨[2]⟩} (by decide) (by decide) (by decide)

/-- Validator `3` sends a proposal, and a decide message for it whose certificate
is of view `0` and without any signature. -/
def forgedDecide (timestamp : Nat) : List Event :=
  register 3 ++
    [.message [3] (some (.requestProposalRes
      { requestId := 0, proposal := some (proposal timestamp) })), .internal] ++
    deliver 3
      { requestId := 0
        messageType := .decide
        view := 1
        node := none
        justify := some
          { messageType := .commit
            view := 0
            node :=
              { parentHash := ⟨encodeHeader genesisHeader⟩
                blockHash := ⟨encodeHeader (header timestamp)⟩ }
            leaderAddress := ⟨[1]⟩
            sig := [] }
        sig := none }

/-- Two of the honest validators are sent different blocks. -/
def splitNodes : Address → Stream :=
  Function.update
    (Function.update
      (fun a => (Stream.blank four.support (four.secretKey a)).spawn four.support oracle)
      ⟨[0]⟩ (validator 4 0 (forgedDecide 1)))
    ⟨[2]⟩ (validator 4 2 (forgedDecide 2))

end Sample

/-- Validators `0` and `2` decide on different blocks of number `1`; no block was
learnt in another way. -/
theorem not_agrees_splitNodes :
    Sample.four.Reach Sample.splitNodes ∧ ¬ Sample.four.Agrees Sample.splitNodes ∧
      ∀ a ∈ Sample.four.honest, ∀ e ∈ (Sample.splitNodes a).trace, e.action.block? = none := by
  have hstart : Sample.four.Reach _ := .start fun _ => Sample.oracle
  have hfirst := hstart.steps ⟨[0]⟩ (by decide) Sample.oracle (Sample.forgedDecide 1)
    (by decide)
  have hsecond := hfirst.steps ⟨[2]⟩ (by decide) Sample.oracle (Sample.forgedDecide 2)
    (by decide)
  refine ⟨hsecond, fun hagrees => ?_, by decide +kernel⟩
  have hsame := hagrees ⟨[0]⟩ (by decide) ⟨[2]⟩ (by decide) 1
    ⟨Sample.encodeHeader (Sample.header 1)⟩ ⟨Sample.encodeHeader (Sample.header 2)⟩
    (by decide +kernel) (by decide +kernel)
  exact absurd hsame (by decide)

end Finastate.Hotstuff
