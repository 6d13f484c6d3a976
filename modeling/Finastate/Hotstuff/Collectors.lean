import Finastate.Hotstuff.Panics
import Finastate.Hotstuff.Soundness

/-!
# Certificates that a node builds

A leader makes a quorum certificate of the votes it has collected, a node a
timeout certificate of collected timeout messages. The signed tuple is encoded
once when a vote is signed, once when it is admitted and once when the
certificate is verified, and the weights are added up on both sides. Every
collected message is signed for the tuple that the certificate will name, so
what is built verifies.
-/

namespace Finastate.Hotstuff

/-! ## The loops of the collectors -/

section Loops

variable {basic : Basic SigMessage} {authorities : Authorities} {message : SigMessage}

/-- What a loop has gathered: valid signatures and their weight in `u32`. -/
structure Gathered (basic : Basic SigMessage) (authorities : Authorities)
    (message : SigMessage) (totalWeight : Nat) (sig : List (PublicKey × Signature)) : Prop where
  valid : ∀ s ∈ sig, basic.Valid message s.1 s.2
  weight : totalWeight = authorities.listedWeight (signers basic sig) % 2 ^ 32

/-- The message carries a signature of its sender over the tuple. -/
def SigOf (basic : Basic SigMessage) (message : SigMessage) (address : Address)
    (sig : Option (PublicKey × Signature)) : Prop :=
  ∃ s ∈ sig, basic.address s.1 = address ∧ basic.Valid message s.1 s.2

theorem gathered_nil : Gathered basic authorities message 0 [] where
  valid := nofun
  weight := rfl

theorem Gathered.add {totalWeight weight : Nat} {sig : List (PublicKey × Signature)}
    (h : Gathered basic authorities message totalWeight sig)
    {s : PublicKey × Signature} (hvalid : basic.Valid message s.1 s.2)
    (hweight : Weights.weight? authorities.members (basic.address s.1) = some weight) :
    Gathered basic authorities message (wrapAdd 32 totalWeight weight) (sig ++ [s]) := by
  constructor
  case valid =>
    intro s' hs'
    rcases List.mem_append.1 hs' with hs' | hs'
    · exact h.valid s' hs'
    · rw [List.mem_singleton.1 hs']
      exact hvalid
  case weight =>
    have hlisted : authorities.listedWeight (signers basic (sig ++ [s])) =
        authorities.listedWeight (signers basic sig) + weight := by
      simp [Authorities.listedWeight, signers, hweight]
    rw [hlisted, wrapAdd, h.weight, Nat.mod_add_mod]

theorem Gathered.verified {totalWeight : Nat} {sig : List (PublicKey × Signature)}
    (h : Gathered basic authorities message totalWeight sig)
    (hquorum : authorities.quorum ≤ totalWeight) :
    verifySigs basic authorities message sig = .ok () := by
  rw [h.weight] at hquorum
  exact verifySigs_eq_ok_iff.2 ⟨h.valid, hquorum⟩

theorem ConsensusMessageCollector.verified_of_collectQc {leaderAddress : Address}
    {messages : List (Address × ConsensusMessage)} {totalWeight : Nat}
    {sig : List (PublicKey × Signature)} {qc : QC}
    (hmessages : ∀ p ∈ messages, SigOf basic message p.1 p.2.sig)
    (hgathered : Gathered basic authorities message totalWeight sig)
    (h : collectQc authorities leaderAddress messages totalWeight sig = .ok (some qc)) :
    qc.leaderAddress = leaderAddress ∧
      verifySigs basic authorities message qc.sig = .ok () := by
  have hqc {vote : ConsensusMessage} {totalWeight : Nat}
      {sig : List (PublicKey × Signature)}
      (hgathered : Gathered basic authorities message totalWeight sig)
      (hquorum : authorities.quorum ≤ totalWeight)
      (h : qcOf vote leaderAddress sig = .ok (some qc)) :
      qc.leaderAddress = leaderAddress ∧
        verifySigs basic authorities message qc.sig = .ok () := by
    unfold qcOf at h
    split at h
    · cases h
    · cases h
      exact ⟨rfl, hgathered.verified hquorum⟩
  induction messages generalizing totalWeight sig with
  | nil => cases h
  | cons p messages ih =>
      obtain ⟨address, vote⟩ := p
      obtain ⟨s, hs, haddress, hvalid⟩ := hmessages _ List.mem_cons_self
      have hrest : ∀ p ∈ messages, SigOf basic message p.1 p.2.sig :=
        fun p hp => hmessages p (List.mem_cons_of_mem _ hp)
      have hsig : vote.sig = some s := hs
      rw [collectQc, hsig] at h
      cases hweight : Weights.weight? authorities.members address with
      | some weight =>
          have hadd := hgathered.add hvalid ((congrArg _ haddress).trans hweight)
          rw [hweight] at h
          simp only at h
          split at h
          · next hquorum => exact hqc hadd hquorum h
          · exact ih hrest hadd h
      | none =>
          rw [hweight] at h
          simp only at h
          split at h
          · next hquorum => exact hqc hgathered hquorum h
          · exact ih hrest hgathered h

theorem TimeoutMessageCollector.verified_of_collect
    {messages : List (Address × TimeoutMessage)} {totalWeight : Nat}
    {sig : List (PublicKey × Signature)} {tc : TC}
    (hmessages : ∀ p ∈ messages, SigOf basic message p.1 p.2.sig)
    (hgathered : Gathered basic authorities message totalWeight sig)
    (h : collect authorities messages totalWeight sig = .ok (some tc)) :
    verifySigs basic authorities message tc.sig = .ok () := by
  induction messages generalizing totalWeight sig with
  | nil => cases h
  | cons p messages ih =>
      obtain ⟨address, timeout⟩ := p
      obtain ⟨s, hs, haddress, hvalid⟩ := hmessages _ List.mem_cons_self
      have hrest : ∀ p ∈ messages, SigOf basic message p.1 p.2.sig :=
        fun p hp => hmessages p (List.mem_cons_of_mem _ hp)
      have hsig : timeout.sig = some s := hs
      rw [collect, hsig] at h
      cases hweight : Weights.weight? authorities.members address with
      | some weight =>
          have hadd := hgathered.add hvalid ((congrArg _ haddress).trans hweight)
          rw [hweight] at h
          simp only at h
          split at h
          · next hquorum =>
            cases h
            exact hadd.verified hquorum
          · exact ih hrest hadd h
      | none =>
          rw [hweight] at h
          simp only at h
          split at h
          · next hquorum =>
            cases h
            exact hgathered.verified hquorum
          · exact ih hrest hgathered h

end Loops

/-! ## What the collectors hold -/

/-- The tuple that a vote for the leader `leaderAddress` is over. -/
def ConsensusMessage.sigMessage (message : ConsensusMessage) (leaderAddress : Address) :
    SigMessage :=
  .vote message.messageType message.view message.node leaderAddress

/-- The keys of the node are its own, and every collected message is signed by its
sender. -/
structure Core.Signed (support : Support) (key : SecretKey) (c : Core) : Prop where
  secretKey : c.secretKey = key
  publicKey : c.publicKey = support.basic.publicKey key
  address : c.address = support.basic.address (support.basic.publicKey key)
  votes : ∀ t, ∀ p ∈ c.leader.votes t,
    SigOf support.basic (p.2.sigMessage c.address) p.1 p.2.sig
  timeouts : ∀ p ∈ c.timeouts, ∀ q ∈ p.2,
    q.2.messageType = .newTimeout ∧ q.2.SignedBy support q.1

variable {support : Support} {secretKey : SecretKey} {event : Event} {c c' : Core}

/-- An act that writes neither a key nor a collector. -/
theorem Core.Signed.of_eq (h : c.Signed support secretKey)
    (hsecret : c'.secretKey = c.secretKey) (hpublic : c'.publicKey = c.publicKey)
    (haddress : c'.address = c.address) (hvotes : c'.leader.votes = c.leader.votes)
    (htimeouts : c'.timeouts = c.timeouts) : c'.Signed support secretKey where
  secretKey := hsecret.trans h.secretKey
  publicKey := hpublic.trans h.publicKey
  address := haddress.trans h.address
  votes := by
    rw [hvotes, haddress]
    exact h.votes
  timeouts := by
    rw [htimeouts]
    exact h.timeouts

theorem CommonAct.signed (h : CommonAct support c c') (hc : c.Signed support secretKey) :
    c'.Signed support secretKey := by
  cases h with
  | note action h => exact hc.of_eq rfl rfl rfl rfl rfl
  | queue queued h => exact hc.of_eq rfl rfl rfl rfl rfl
  | params params built => exact hc.of_eq rfl rfl rfl rfl rfl
  | putProposal proposal x p built number parent hash => exact hc.of_eq rfl rfl rfl rfl rfl

/-- A vote that is signed by its sender enters a collector. -/
theorem Core.Signed.addVote (hc : c.Signed support secretKey) {t : MessageType}
    {address : Address} {message : ConsensusMessage}
    (hmessage : SigOf support.basic (message.sigMessage c.address) address message.sig) :
    ({ c with leader := c.leader.addVote t address message } : Core).Signed support
      secretKey := by
  refine { hc with votes := ?_ }
  intro t' p hp
  rcases LeaderState.mem_votes_addVote hp with ⟨-, rfl⟩ | hp
  · exact hmessage
  · exact hc.votes t' p hp

theorem LeaderAct.signed
    (hsign : ∀ message, support.basic.Valid message (support.basic.publicKey secretKey)
      (support.basic.sign message secretKey))
    (h : LeaderAct support c c') (hleader : c.currentLeader = some c.address)
    (hc : c.Signed support secretKey) : c'.Signed support secretKey := by
  cases h with
  | common c' h => exact h.signed hc
  | work l h => exact hc.of_eq rfl rfl rfl h.votes rfl
  | propose node highQc pm signal acting fresh pmNode idle =>
      have hvotes : ({ c.leader with prepareMessage := some pm } : LeaderState).votes =
          c.leader.votes := by
        funext t
        cases t <;> rfl
      exact hc.of_eq rfl rfl rfl hvotes rfl
  | ownVote t message pm leaderAddress phase leader type view proposed node own sig =>
      obtain rfl : leaderAddress = c.address := Option.some.inj (leader.symm.trans hleader)
      have hmessage :
          SigOf support.basic (message.sigMessage c.address) c.address message.sig := by
        rw [sig, hc.secretKey, hc.publicKey]
        exact ⟨_, rfl, hc.address.symm, hsign _⟩
      have hadd := hc.addVote (t := t) hmessage
      exact { hadd with }
  | remoteVote t message pm address s phase other received type view sig signer valid
      proposed node => exact hc.addVote ⟨s, sig, signer, valid⟩
  | prepareQc order qc message collected fresh =>
      have hvotes : ({ c.leader with preCommitMessage := some message } : LeaderState).votes =
          c.leader.votes := by
        funext t
        cases t <;> rfl
      exact hc.of_eq rfl rfl rfl hvotes rfl
  | preCommitQc order qc message collected fresh =>
      have hvotes : ({ c.leader with commitMessage := some message } : LeaderState).votes =
          c.leader.votes := by
        funext t
        cases t <;> rfl
      exact hc.of_eq rfl rfl rfl hvotes rfl
  | decide order qc chain collected decides => exact hc.of_eq rfl rfl rfl rfl rfl

theorem Act.signed
    (hsign : ∀ message, support.basic.Valid message (support.basic.publicKey secretKey)
      (support.basic.sign message secretKey))
    (h : Act support event c c') (hwf : c.Wf) (hc : c.Signed support secretKey) :
    c'.Signed support secretKey := by
  cases h with
  | common c' h => exact h.signed hc
  | leader c' state view h => exact h.signed hsign (hwf.leader state) hc
  | replica c' state h =>
      cases h with
      | common c' h => exact h.signed hc
      | vote message address leaderAddress t view node justify acting received current casts
          leader =>
          cases t <;> exact hc.of_eq rfl rfl rfl rfl rfl
      | decide message address qc chain acting received type justify valid decides =>
          exact hc.of_eq rfl rfl rfl rfl rfl
  | receive peerId message h => exact hc.of_eq rfl rfl rfl rfl rfl
  | sign message h => exact hc.of_eq rfl rfl rfl rfl rfl
  | timeouts timeouts byView admits =>
      refine { hc with timeouts := fun p hp q hq => ?_ }
      rcases admits p hp q hq with ⟨p', hp', -, hq'⟩ | hsigned
      · exact hc.timeouts p' hp' q hq'
      · exact hsigned
  | newTimeout message address first second acting type signed view attached alone =>
      cases first <;> cases second <;> exact hc.of_eq rfl rfl rfl rfl rfl
  | decideTimeout message address tc acting type attached valid =>
      exact hc.of_eq rfl rfl rfl rfl rfl
  | refresh storage h => exact hc.of_eq rfl rfl rfl rfl rfl
  | restart storage h =>
      refine { hc with votes := fun t p hp => ?_, timeouts := nofun }
      simp [Core.restarted] at hp
  | runView state leader own other =>
      refine { hc with votes := fun t p hp => ?_ }
      simp at hp
  | sync block params chain h hash header commits => exact hc.of_eq rfl rfl rfl rfl rfl

theorem Stream.signed_blank (support : Support) (secretKey : SecretKey) :
    (blank support secretKey).core.Signed support secretKey where
  secretKey := rfl
  publicKey := rfl
  address := rfl
  votes := fun t p hp => by cases t <;> cases hp
  timeouts := nofun

theorem Stream.collected_blank (support : Support) (secretKey : SecretKey) :
    (blank support secretKey).core.Collected :=
  fun t p hp => by cases t <;> cases hp

/-! ## What is built verifies -/

/-- Every certificate that the collectors can be made into passes the checks of the
other nodes, for the phase that its votes were collected for. -/
structure Core.BuildsVerified (support : Support) (c : Core) (authorities : Authorities) :
    Prop where
  qc : ∀ (t : MessageType) (order : IterOrder) (qc : QC),
    ConsensusMessageCollector.getQc order (c.leader.votes t) authorities c.address =
      .ok (some qc) → verifyQc support.basic qc (some t) authorities = .ok ()
  tc : ∀ (view : Nat) (order : IterOrder) (tc : TC),
    TimeoutMessageCollector.getTc order c.timeouts authorities view = .ok (some tc) →
      verifyTc support.basic tc authorities = .ok ()

theorem Core.Signed.buildsVerified (h : c.Signed support secretKey) (hcollected : c.Collected)
    (hbyView : TimeoutMessageCollector.ByView c.timeouts) (authorities : Authorities) :
    c.BuildsVerified support authorities := by
  constructor
  case qc =>
    intro t order qc hqc
    obtain ⟨p, hp, htype, hview, hnode⟩ :=
      ConsensusMessageCollector.exists_of_collectQc hqc
    obtain ⟨htype', hview', pm, hpm, hnode'⟩ := hcollected t p (IterOrder.mem_iterate hp)
    -- All votes are for the tuple of the one whose fields the certificate has.
    have hmessages : ∀ q ∈ order.iterate (c.leader.votes t),
        SigOf support.basic (.vote t c.currentView pm.node c.address) q.1 q.2.sig := by
      intro q hq
      have hq := IterOrder.mem_iterate hq
      obtain ⟨htypeq, hviewq, pmq, hpmq, hnodeq⟩ := hcollected t q hq
      obtain rfl : pmq = pm := Option.some.inj (hpmq.symm.trans hpm)
      have hsig := h.votes t q hq
      rw [ConsensusMessage.sigMessage, htypeq, hviewq, hnodeq] at hsig
      exact hsig
    obtain ⟨hleader, hverified⟩ :=
      ConsensusMessageCollector.verified_of_collectQc hmessages gathered_nil hqc
    have hqcType : qc.messageType = t := htype.symm.trans htype'
    have hmessage : qc.sigMessage = .vote t c.currentView pm.node c.address := by
      rw [QC.sigMessage, hleader, hqcType, ← hview, hview', ← hnode, hnode']
    refine verifyQc_eq_ok_iff.2 (.inr ⟨?_, ?_⟩)
    · intro t' ht'
      cases ht'
      exact hqcType
    · rw [hmessage]
      exact hverified
  case tc =>
    intro view order tc htc
    have hview := TimeoutMessageCollector.getTc_view hbyView htc
    unfold TimeoutMessageCollector.getTc at htc
    cases hget : AssocMap.get? c.timeouts view with
    | none =>
        rw [hget] at htc
        cases htc
    | some messages =>
        rw [hget] at htc
        have hmem := AssocMap.mem_of_get?_eq_some hget
        have hmessages : ∀ q ∈ order.iterate messages,
            SigOf support.basic tc.sigMessage q.1 q.2.sig := by
          intro q hq
          have hq := IterOrder.mem_iterate hq
          obtain ⟨htype, hsigned⟩ := h.timeouts _ hmem q hq
          have hviewq : q.2.view = view := hbyView _ hmem q hq
          rw [TimeoutMessage.SignedBy, htype, hviewq] at hsigned
          rw [TC.sigMessage, hview]
          exact hsigned
        exact TimeoutMessageCollector.verified_of_collect hmessages gathered_nil htc

/-- Whatever a node has handled, and wherever it is in handling the next event: a
certificate made of what it has collected verifies under the authorities that it is
made for. -/
theorem built_certificates_verify
    (hsign : ∀ message, support.basic.Valid message (support.basic.publicKey secretKey)
      (support.basic.sign message secretKey))
    {s : Stream} (h : Run support secretKey s) (hc : Acts support event s.core c)
    (authorities : Authorities) : c.BuildsVerified support authorities := by
  have hwf := h.wf_running.1
  have hsigned : s.core.Signed support secretKey :=
    h.core_induction (Stream.signed_blank support secretKey)
      fun hact hwf hc => hact.signed hsign hwf hc
  have hcollected : s.core.Collected :=
    h.core_induction (Stream.collected_blank support secretKey)
      fun hact _ hc => hact.collected hc
  have hsigned' : c.Signed support secretKey :=
    Acts.induction (fun hact hwf hc => hact.signed hsign hwf hc) hc hwf hsigned
  have hcollected' : c.Collected :=
    Acts.induction (fun hact _ hc => hact.collected hc) hc hwf hcollected
  exact hsigned'.buildsVerified hcollected' (Acts.wf hc hwf).timeouts authorities

/-! ## A leader with a quorum of votes -/

namespace Sample

theorem valid_sign (message : SigMessage) (secretKey : SecretKey) :
    basic.Valid message (basic.publicKey secretKey) (basic.sign message secretKey) := by
  simp [Basic.Valid, basic]

/-- Validator `1` has proposed. -/
def proposer : Stream := validator 4 1 proposing

/-- The prepare vote of validator `key` for this proposal. -/
def voteFor (key : UInt8) : ConsensusMessage :=
  let node := proposer.leader.prepareMessage.bind ConsensusMessage.node
  { requestId := 0
    messageType := .prepare
    view := 1
    node
    justify := none
    sig := (signatures [key] (.vote .prepare 1 node ⟨[1]⟩)).head? }

/-- The leader has collected two votes beside its own. -/
def prepared : Stream :=
  proposer.steps (Sample.support 4) oracle (deliver 0 (voteFor 0) ++ deliver 2 (voteFor 2))

theorem run_prepared : Run (Sample.support 4) ⟨[1]⟩ prepared :=
  ((Run.start oracle).steps oracle proposing).steps oracle _

end Sample

open Sample in
/-- The prepare certificate of this leader. -/
theorem built_certificates_verify_prepared :
    ConsensusMessageCollector.getQc (oracle.order .prepare) prepared.leader.prepareCollector
        fourValidators ⟨[1]⟩ = .ok (some prepared.storage.prepareQc) ∧
      prepared.storage.prepareQc.view = 1 ∧
      verifyQc basic prepared.storage.prepareQc (some .prepare) fourValidators = .ok () := by
  have hqc : ConsensusMessageCollector.getQc (oracle.order .prepare)
      prepared.leader.prepareCollector fourValidators ⟨[1]⟩ =
        .ok (some prepared.storage.prepareQc) := by
    decide +kernel
  have hacts : Acts (Sample.support 4) .timeout prepared.core prepared.core := .refl
  exact ⟨hqc, by decide +kernel,
    (built_certificates_verify (fun message => valid_sign message ⟨[1]⟩) run_prepared hacts
      fourValidators).qc .prepare _ _ hqc⟩

end Finastate.Hotstuff
