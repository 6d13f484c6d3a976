import Finastate.Library.Weights
import Finastate.Hotstuff.Protocol

/-!
# Certificates

`verifyQc` and `verifyTc` of `stream.rs`. Both walk over the signatures of a
certificate, add the weight of the signer when it is a member and stop at the
first signature that does not verify; a certificate of view `0` is taken for
the genesis one and accepted as it is. `QuorumSigned` says what a certificate is
for: pairwise distinct members of quorum weight signed it.
-/

namespace Finastate.Hotstuff

/-- `module::hotstuff::Authorities`. -/
structure Authorities where
  members : List (Address × Nat)
  deriving DecidableEq, Repr

/-- `errors::ErrorKind` of the HotStuff crate, without the verify errors of
proposals. -/
inductive ErrorKind where
  | messageError (msg : String)
  | qcError (msg : String)
  deriving DecidableEq, Repr

/-- The text of an error, as it is put into the error of a proof. -/
def ErrorKind.toString : ErrorKind → String
  | .messageError _ => "Message error"
  | .qcError msg => "QC error: " ++ msg

/-- Add a weight to the entry of the address, or a new entry at the end. -/
def addWeight : List (Address × Nat) → Address → Nat → List (Address × Nat)
  | [], address, weight => [(address, weight)]
  | (a, w) :: members, address, weight =>
      if a = address then (a, wrapAdd 32 w weight) :: members
      else (a, w) :: addWeight members address weight

/-- `aggregate_authorities`. -/
def aggregateAuthorities (authorities : Authorities) : Authorities where
  members := authorities.members.foldl
    (fun members x => if 0 < x.2 then addWeight members x.1 x.2 else members) []

/-- The total weight as the code computes it, in `u32`. -/
def Authorities.n (authorities : Authorities) : Nat :=
  authorities.members.foldl (fun sum x => wrapAdd 32 sum x.2) 0

def Authorities.f (authorities : Authorities) : Nat := wrapSub 32 authorities.n 1 / 3

/-- The weight a certificate has to reach. -/
def Authorities.quorum (authorities : Authorities) : Nat :=
  wrapSub 32 authorities.n authorities.f

/-- The loop over the signatures of a certificate. -/
def sigWeight (basic : Basic SigMessage) (authorities : Authorities)
    (message : SigMessage) :
    List (PublicKey × Signature) → Nat → Except ErrorKind Nat
  | [], totalWeight => .ok totalWeight
  | (publicKey, signature) :: sig, totalWeight =>
      let totalWeight :=
        match Weights.weight? authorities.members (basic.address publicKey) with
        | some weight => wrapAdd 32 totalWeight weight
        | none => totalWeight
      match basic.verify message publicKey signature with
      | .error e => .error (.qcError e)
      | .ok () => sigWeight basic authorities message sig totalWeight

/-- The signature loop followed by the comparison with the quorum, the common
end of `verify_qc` and `verify_tc`. -/
def verifySigs (basic : Basic SigMessage) (authorities : Authorities)
    (message : SigMessage) (sig : List (PublicKey × Signature)) :
    Except ErrorKind Unit :=
  match sigWeight basic authorities message sig 0 with
  | .error e => .error e
  | .ok totalWeight =>
      if totalWeight < authorities.quorum then .error (.qcError "No enough weight")
      else .ok ()

/-- `verify_qc`. -/
def verifyQc (basic : Basic SigMessage) (qc : QC)
    (expectedMessageType : Option MessageType) (authorities : Authorities) :
    Except ErrorKind Unit :=
  if qc.view = 0 then .ok ()
  else if ∃ t ∈ expectedMessageType, qc.messageType ≠ t then
    .error (.qcError "Unexpected message type")
  else verifySigs basic authorities qc.sigMessage qc.sig

/-- `verify_tc`. -/
def verifyTc (basic : Basic SigMessage) (tc : TC) (authorities : Authorities) :
    Except ErrorKind Unit :=
  verifySigs basic authorities tc.sigMessage tc.sig

/-! ## Aggregated authorities -/

theorem mem_keys_addWeight (members : List (Address × Nat)) (address : Address)
    (weight : Nat) (a : Address) :
    a ∈ (addWeight members address weight).map Prod.fst ↔
      a = address ∨ a ∈ members.map Prod.fst := by
  induction members with
  | nil => simp [addWeight]
  | cons m members ih =>
      obtain ⟨b, w⟩ := m
      by_cases hb : b = address
      · simp [addWeight, hb]
      · simp only [addWeight, hb, if_false, List.map_cons, List.mem_cons, ih]
        exact or_left_comm

theorem nodup_addWeight {members : List (Address × Nat)} (address : Address)
    (weight : Nat) (h : (members.map Prod.fst).Nodup) :
    ((addWeight members address weight).map Prod.fst).Nodup := by
  induction members with
  | nil => simp [addWeight]
  | cons m members ih =>
      obtain ⟨b, w⟩ := m
      rw [List.map_cons, List.nodup_cons] at h
      by_cases hb : b = address
      · simpa [addWeight, hb] using ⟨by simpa [hb] using h.1, h.2⟩
      · simp only [addWeight, hb, if_false, List.map_cons, List.nodup_cons]
        refine ⟨?_, ih h.2⟩
        rw [mem_keys_addWeight]
        rintro (heq | hmem)
        · exact hb heq
        · exact h.1 hmem

/-- The members of aggregated authorities are pairwise distinct. -/
theorem nodup_aggregateAuthorities (authorities : Authorities) :
    ((aggregateAuthorities authorities).members.map Prod.fst).Nodup := by
  suffices h : ∀ (input members : List (Address × Nat)), (members.map Prod.fst).Nodup →
      ((input.foldl (fun members x =>
        if 0 < x.2 then addWeight members x.1 x.2 else members) members).map
          Prod.fst).Nodup from h authorities.members [] List.nodup_nil
  intro input
  induction input with
  | nil => exact fun members h => h
  | cons x input ih =>
      intro members h
      rw [List.foldl_cons]
      apply ih
      split
      · exact nodup_addWeight x.1 x.2 h
      · exact h

namespace Authorities

theorem foldl_wrapAdd (members : List (Address × Nat)) (sum : Nat)
    (h : sum + Weights.total members < 2 ^ 32) :
    members.foldl (fun sum x => wrapAdd 32 sum x.2) sum = sum + Weights.total members := by
  induction members generalizing sum with
  | nil => rfl
  | cons m members ih =>
      have htotal : Weights.total (m :: members) = m.2 + Weights.total members := rfl
      rw [htotal] at h ⊢
      rw [List.foldl_cons, wrapAdd_of_lt (by omega), ih _ (by omega)]
      omega

theorem total_addWeight (members : List (Address × Nat)) (address : Address) (weight : Nat)
    (h : Weights.total members + weight < 2 ^ 32) :
    Weights.total (addWeight members address weight) = Weights.total members + weight := by
  induction members with
  | nil => simp [addWeight, Weights.total]
  | cons m members ih =>
      obtain ⟨b, w⟩ := m
      have htotal : Weights.total ((b, w) :: members) = w + Weights.total members := rfl
      rw [htotal] at h ⊢
      rw [addWeight]
      split
      · rw [wrapAdd_of_lt (by omega)]
        simp only [Weights.total, List.map_cons, List.sum_cons]
        omega
      · have hrest := ih (by omega)
        simp only [Weights.total, List.map_cons, List.sum_cons] at hrest ⊢
        omega

theorem total_aggregate (authorities : Authorities)
    (hlt : Weights.total authorities.members < 2 ^ 32) :
    Weights.total (aggregateAuthorities authorities).members =
      Weights.total authorities.members := by
  suffices h : ∀ input members : List (Address × Nat),
      Weights.total members + Weights.total input < 2 ^ 32 →
      Weights.total (input.foldl (fun members x =>
        if 0 < x.2 then addWeight members x.1 x.2 else members) members) =
        Weights.total members + Weights.total input by
    have htotal := h authorities.members []
    simp only [Weights.total, List.map_nil, List.sum_nil, Nat.zero_add] at htotal
    exact htotal hlt
  intro input
  induction input with
  | nil => simp [Weights.total]
  | cons x input ih =>
      intro members h
      have htotal : Weights.total (x :: input) = x.2 + Weights.total input := rfl
      rw [htotal] at h ⊢
      rw [List.foldl_cons]
      split
      · have hadd := total_addWeight members x.1 x.2 (by omega)
        rw [ih _ (by omega), hadd]
        omega
      · rw [ih _ (by omega)]
        omega

end Authorities

/-! ## What a certificate is for -/

/-- One of the signatures is valid under a key of this address. -/
def SignedIn (basic : Basic SigMessage) (message : SigMessage)
    (sig : List (PublicKey × Signature)) (a : Address) : Prop :=
  ∃ s ∈ sig, basic.address s.1 = a ∧ basic.verify message s.1 s.2 = .ok ()

instance (basic : Basic SigMessage) (message : SigMessage)
    (sig : List (PublicKey × Signature)) (a : Address) :
    Decidable (SignedIn basic message sig a) :=
  List.decidableBEx _ _

/-- `n - f` for the exact total weight `n`, without the width of the machine. -/
def Authorities.exactQuorum (authorities : Authorities) : Nat :=
  Weights.total authorities.members - (Weights.total authorities.members - 1) / 3

/-- Pairwise distinct members of quorum weight each signed the message. -/
def QuorumSigned (basic : Basic SigMessage) (authorities : Authorities)
    (message : SigMessage) (sig : List (PublicKey × Signature)) : Prop :=
  ∃ s : Finset Address, (∀ a ∈ s, SignedIn basic message sig a) ∧
    authorities.exactQuorum ≤ Weights.weightOf authorities.members s

/-- The weight of the members that have a valid signature in the list, each
counted once. -/
def signedWeight (basic : Basic SigMessage) (authorities : Authorities)
    (message : SigMessage) (sig : List (PublicKey × Signature)) : Nat :=
  ((authorities.members.filter fun m => SignedIn basic message sig m.1).map
    Prod.snd).sum

/-- Counting every member once is what a quorum of distinct members asks for. -/
theorem quorumSigned_iff_le_signedWeight (basic : Basic SigMessage)
    {authorities : Authorities} (hnodup : (authorities.members.map Prod.fst).Nodup)
    (message : SigMessage) (sig : List (PublicKey × Signature)) :
    QuorumSigned basic authorities message sig ↔
      authorities.exactQuorum ≤ signedWeight basic authorities message sig := by
  have hall : Weights.weightOf authorities.members
      ((authorities.members.filter fun m =>
        SignedIn basic message sig m.1).map Prod.fst).toFinset =
      signedWeight basic authorities message sig :=
    Weights.weightOf_sublist hnodup List.filter_sublist
  constructor
  · rintro ⟨s, hsigned, hquorum⟩
    refine hquorum.trans (le_of_le_of_eq ?_ hall)
    apply Weights.weightOf_le_of_keys
    intro a ha hkey
    obtain ⟨m, hm, rfl⟩ := List.mem_map.1 hkey
    rw [List.mem_toFinset]
    exact List.mem_map_of_mem (List.mem_filter.2 ⟨hm, by simpa using hsigned m.1 ha⟩)
  · intro hquorum
    refine ⟨_, ?_, hquorum.trans_eq hall.symm⟩
    intro a ha
    obtain ⟨m, hm, rfl⟩ := List.mem_map.1 (List.mem_toFinset.1 ha)
    simpa using (List.mem_filter.1 hm).2

end Finastate.Hotstuff
