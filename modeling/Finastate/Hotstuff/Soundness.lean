import Finastate.Hotstuff.Ballots

/-!
# What an accepted certificate proves

`verifyQc` and `verifyTc` are to accept a certificate only when members of
quorum weight have signed it. They add the weight of the signer for every
listed signature, so a signer that is listed again counts again, and they add
in `u32`. `SignersCounted` says for which certificates this makes no difference.
-/

namespace Finastate.Hotstuff

/-! ## The loop over the signatures -/

/-- The weights of the listed addresses, with repetitions. -/
def Authorities.listedWeight (authorities : Authorities) (addresses : List Address) : Nat :=
  (addresses.map fun a => (Weights.weight? authorities.members a).getD 0).sum

/-- The addresses behind the keys of a list of signatures. -/
def signers (basic : Basic SigMessage) (sig : List (PublicKey × Signature)) : List Address :=
  sig.map fun s => basic.address s.1

section Loop

variable {basic : Basic SigMessage} {authorities : Authorities} {message : SigMessage}
  {sig : List (PublicKey × Signature)}

/-- What one signature adds, where an address that is no member weighs nothing. -/
theorem sigWeight_cons {totalWeight : Nat} (htotal : totalWeight < 2 ^ 32)
    (publicKey : PublicKey) (signature : Signature) :
    sigWeight basic authorities message ((publicKey, signature) :: sig) totalWeight =
      match basic.verify message publicKey signature with
      | .error e => .error (.qcError e)
      | .ok () =>
          sigWeight basic authorities message sig
            ((totalWeight +
              (Weights.weight? authorities.members (basic.address publicKey)).getD 0) %
                2 ^ 32) := by
  rw [sigWeight]
  cases Weights.weight? authorities.members (basic.address publicKey) with
  | none =>
      have hsame : (totalWeight + (none : Option Nat).getD 0) % 2 ^ 32 = totalWeight :=
        Nat.mod_eq_of_lt htotal
      cases basic.verify message publicKey signature with
      | error e => rfl
      | ok u => exact congrArg (sigWeight basic authorities message sig) hsame.symm
  | some weight => rfl

/-- The loop comes to its end if every signature is valid, with the listed weight
in `u32`. -/
theorem sigWeight_eq_ok_iff {totalWeight totalWeight' : Nat} (htotal : totalWeight < 2 ^ 32) :
    sigWeight basic authorities message sig totalWeight = .ok totalWeight' ↔
      (∀ s ∈ sig, basic.Valid message s.1 s.2) ∧
        totalWeight' = (totalWeight + authorities.listedWeight (signers basic sig)) % 2 ^ 32 := by
  induction sig generalizing totalWeight with
  | nil =>
      have hmod : (totalWeight + authorities.listedWeight (signers basic [])) % 2 ^ 32 =
          totalWeight := Nat.mod_eq_of_lt htotal
      rw [hmod, sigWeight, Except.ok.injEq]
      simp [eq_comm]
  | cons s sig ih =>
      obtain ⟨publicKey, signature⟩ := s
      have hlisted : authorities.listedWeight (signers basic ((publicKey, signature) :: sig)) =
          (Weights.weight? authorities.members (basic.address publicKey)).getD 0 +
            authorities.listedWeight (signers basic sig) := rfl
      rw [sigWeight_cons htotal, hlisted]
      cases hverify : basic.verify message publicKey signature with
      | error e =>
          refine iff_of_false nofun fun h => ?_
          have hvalid := h.1 _ List.mem_cons_self
          rw [Basic.Valid, hverify] at hvalid
          cases hvalid
      | ok u =>
          have hvalid : basic.Valid message publicKey signature := hverify
          rw [ih (Nat.mod_lt _ (by decide)), List.forall_mem_cons, Nat.mod_add_mod, Nat.add_assoc]
          exact ⟨fun h => ⟨⟨hvalid, h.1⟩, h.2⟩, fun h => ⟨h.1.2, h.2⟩⟩

theorem verifySigs_eq_ok_iff :
    verifySigs basic authorities message sig = .ok () ↔
      (∀ s ∈ sig, basic.Valid message s.1 s.2) ∧
        authorities.quorum ≤ authorities.listedWeight (signers basic sig) % 2 ^ 32 := by
  have hloop (w : Nat) : sigWeight basic authorities message sig 0 = .ok w ↔
      (∀ s ∈ sig, basic.Valid message s.1 s.2) ∧
        w = authorities.listedWeight (signers basic sig) % 2 ^ 32 := by
    have hzero := Nat.zero_add (authorities.listedWeight (signers basic sig))
    rw [sigWeight_eq_ok_iff (by decide), hzero]
  rw [verifySigs]
  cases hweight : sigWeight basic authorities message sig 0 with
  | error e =>
      refine iff_of_false nofun fun h => ?_
      have hok := (hloop _).2 ⟨h.1, rfl⟩
      rw [hweight] at hok
      cases hok
  | ok totalWeight =>
      obtain ⟨hvalid, rfl⟩ := (hloop totalWeight).1 hweight
      rw [and_iff_right hvalid, ← not_lt]
      change (if _ then _ else _) = _ ↔ _
      split
      · next hlt => exact iff_of_false nofun (not_not.2 hlt)
      · next hlt => exact iff_of_true rfl hlt

theorem verifyQc_eq_ok_iff {qc : QC} {expectedMessageType : Option MessageType} :
    verifyQc basic qc expectedMessageType authorities = .ok () ↔
      qc.view = 0 ∨ (∀ t ∈ expectedMessageType, qc.messageType = t) ∧
        verifySigs basic authorities qc.sigMessage qc.sig = .ok () := by
  have hexpected : (∃ t ∈ expectedMessageType, qc.messageType ≠ t) ↔
      ¬ ∀ t ∈ expectedMessageType, qc.messageType = t := by
    simp
  rw [verifyQc]
  by_cases hview : qc.view = 0
  · simp [hview]
  · by_cases htype : ∀ t ∈ expectedMessageType, qc.messageType = t
    · rw [if_neg hview, if_neg (fun h => hexpected.1 h htype)]
      exact ⟨fun h => .inr ⟨htype, h⟩, fun h => (h.resolve_left hview).2⟩
    · rw [if_neg hview, if_pos (hexpected.2 htype)]
      exact iff_of_false nofun fun h => htype (h.resolve_left hview).1

/-- Where every signature is valid, the signers are a quorum if they weigh that
much when each is counted once. -/
theorem quorumSigned_iff_of_valid (hvalid : ∀ s ∈ sig, basic.Valid message s.1 s.2) :
    QuorumSigned basic authorities message sig ↔
      authorities.exactQuorum ≤
        Weights.weightOf authorities.members (signers basic sig).toFinset := by
  constructor
  · rintro ⟨s, hsigned, hquorum⟩
    apply hquorum.trans
    apply Weights.weightOf_mono
    intro a ha
    obtain ⟨p, hp, rfl, -⟩ := hsigned a ha
    exact List.mem_toFinset.2 (List.mem_map_of_mem hp)
  · intro hquorum
    refine ⟨_, ?_, hquorum⟩
    intro a ha
    obtain ⟨p, hp, rfl⟩ := List.mem_map.1 (List.mem_toFinset.1 ha)
    exact ⟨p, hp, rfl, hvalid p hp⟩

end Loop

/-! ## Soundness -/

/-- If the listed weight reaches the quorum in `u32`, the listed addresses do so
when each is counted once. -/
def Authorities.CountedOnce (authorities : Authorities) (addresses : List Address) : Prop :=
  authorities.quorum ≤ authorities.listedWeight addresses % 2 ^ 32 →
    authorities.exactQuorum ≤ Weights.weightOf authorities.members addresses.toFinset

/-- The message that the signatures of an accepted certificate have to be over. -/
def QC.expectedMessage (qc : QC) (expectedMessageType : Option MessageType) : SigMessage :=
  .vote (expectedMessageType.getD qc.messageType) qc.view (some qc.node) qc.leaderAddress

section Soundness

variable (support : Support) (chain : Chain) (authorities : Authorities)
  (expectedMessageType : Option MessageType) (qc : QC) (tc : TC)

/-- The certificate is the genesis one, or pairwise distinct members of quorum
weight have signed it. -/
def QC.Backed : Prop :=
  getGenesisQc support chain = some qc ∨
    QuorumSigned support.basic authorities (qc.expectedMessage expectedMessageType) qc.sig

/-- What is accepted is backed by a quorum. -/
structure CertificatesSound : Prop where
  qc : verifyQc support.basic qc expectedMessageType authorities = .ok () →
    qc.Backed support chain authorities expectedMessageType
  tc : verifyTc support.basic tc authorities = .ok () →
    QuorumSigned support.basic authorities (.timeout .newTimeout tc.view) tc.sig

/-- View `0` is left to what is backed anyway, and the signers of a certificate
that are all valid are counted as if each signed once. -/
structure SignersCounted : Prop where
  viewZero : qc.view = 0 → qc.Backed support chain authorities expectedMessageType
  qc : qc.view ≠ 0 → (∀ t ∈ expectedMessageType, qc.messageType = t) →
    (∀ s ∈ qc.sig, support.basic.Valid qc.sigMessage s.1 s.2) →
      authorities.CountedOnce (signers support.basic qc.sig)
  tc : (∀ s ∈ tc.sig, support.basic.Valid tc.sigMessage s.1 s.2) →
    authorities.CountedOnce (signers support.basic tc.sig)

variable {support chain authorities expectedMessageType qc tc}

theorem expectedMessage_eq (h : ∀ t ∈ expectedMessageType, qc.messageType = t) :
    qc.expectedMessage expectedMessageType = qc.sigMessage := by
  cases expectedMessageType with
  | none => rfl
  | some t =>
      have ht : qc.messageType = t := h t rfl
      subst ht
      rfl

/-- Any other certificate is backed by a quorum or not at all. -/
theorem backed_iff_of_getGenesisQc_ne (hgenesis : getGenesisQc support chain ≠ some qc) :
    qc.Backed support chain authorities expectedMessageType ↔
      QuorumSigned support.basic authorities (qc.expectedMessage expectedMessageType) qc.sig :=
  or_iff_right hgenesis

/-- The view of the genesis certificate. -/
theorem view_of_getGenesisQc (h : getGenesisQc support chain = some qc) : qc.view = 0 := by
  unfold getGenesisQc at h
  split at h
  · cases h
  · cases h
    rfl

/-- The certificates that are accepted are backed exactly if the signers are
counted once. -/
theorem certificatesSound_iff :
    CertificatesSound support chain authorities expectedMessageType qc tc ↔
      SignersCounted support chain authorities expectedMessageType qc tc := by
  constructor
  · intro h
    constructor
    case viewZero => exact fun hview => h.qc (verifyQc_eq_ok_iff.2 (.inl hview))
    case qc =>
      intro hview htype hvalid hquorum
      have hok := verifyQc_eq_ok_iff.2
        (.inr ⟨htype, verifySigs_eq_ok_iff.2 ⟨hvalid, hquorum⟩⟩)
      have hgenesis : getGenesisQc support chain ≠ some qc :=
        fun hgenesis => hview (view_of_getGenesisQc hgenesis)
      have hsigned := (backed_iff_of_getGenesisQc_ne hgenesis).1 (h.qc hok)
      rw [expectedMessage_eq htype] at hsigned
      exact (quorumSigned_iff_of_valid hvalid).1 hsigned
    case tc =>
      intro hvalid hquorum
      have hsigned := h.tc (verifySigs_eq_ok_iff.2 ⟨hvalid, hquorum⟩)
      exact (quorumSigned_iff_of_valid hvalid).1 hsigned
  · intro h
    constructor
    case qc =>
      intro hok
      by_cases hview : qc.view = 0
      · exact h.viewZero hview
      · obtain ⟨htype, hsigs⟩ := (verifyQc_eq_ok_iff.1 hok).resolve_left hview
        obtain ⟨hvalid, hquorum⟩ := verifySigs_eq_ok_iff.1 hsigs
        rw [QC.Backed, expectedMessage_eq htype]
        exact .inr ((quorumSigned_iff_of_valid hvalid).2 (h.qc hview htype hvalid hquorum))
    case tc =>
      intro hok
      obtain ⟨hvalid, hquorum⟩ := verifySigs_eq_ok_iff.1 hok
      exact (quorumSigned_iff_of_valid hvalid).2 (h.tc hvalid hquorum)

/-- Pairwise distinct addresses are counted once, unless the total weight is `0`
or leaves `u32`. -/
theorem countedOnce_of_nodup (hpos : 0 < Weights.total authorities.members)
    (hlt : Weights.total authorities.members < 2 ^ 32) {addresses : List Address}
    (hnodup : addresses.Nodup) : authorities.CountedOnce addresses := by
  intro hquorum
  have hlisted : Weights.weightOf authorities.members addresses.toFinset =
      authorities.listedWeight addresses := List.sum_toFinset _ hnodup
  rw [hlisted, ← Authorities.quorum_eq hpos hlt]
  exact hquorum.trans (Nat.mod_le _ _)

end Soundness

/-! ## One signer for a quorum -/

namespace Sample

/-- Four validators of weight `1`. -/
def fourValidators : Authorities := (support 4).getHotstuffAuthorities [] 0

/-- A commit certificate that validator `0` has signed alone, listed three times. -/
def repeatedQc : QC :=
  let node : Node := { parentHash := ⟨[1]⟩, blockHash := ⟨[2]⟩ }
  { messageType := .commit
    view := 1
    node
    leaderAddress := ⟨[0]⟩
    sig := signatures [0, 0, 0] (.vote .commit 1 (some node) ⟨[0]⟩) }

def repeatedTc : TC where
  view := 1
  sig := signatures [0, 0, 0] (.timeout .newTimeout 1)

end Sample

open Sample in
theorem not_certificatesSound_repeated :
    ¬ CertificatesSound (support 4) [] fourValidators (some .commit) repeatedQc repeatedTc := by
  intro h
  have hok : verifyQc basic repeatedQc (some .commit) fourValidators = .ok () := by
    decide +kernel
  have hgenesis : getGenesisQc (support 4) [] ≠ some repeatedQc := by
    intro hgenesis
    cases view_of_getGenesisQc hgenesis
  have hsigned := (backed_iff_of_getGenesisQc_ne hgenesis).1 (h.qc hok)
  have hvalid : ∀ s ∈ repeatedQc.sig, basic.Valid repeatedQc.sigMessage s.1 s.2 :=
    (verifySigs_eq_ok_iff.1 ((verifyQc_eq_ok_iff.1 hok).resolve_left nofun).2).1
  -- Validator `0` weighs `1` and the quorum is `3`.
  have hweight : ¬ fourValidators.exactQuorum ≤
      Weights.weightOf fourValidators.members (signers basic repeatedQc.sig).toFinset := by
    decide +kernel
  exact hweight ((quorumSigned_iff_of_valid hvalid).1 hsigned)

end Finastate.Hotstuff
