import Finastate.Hotstuff.Run
import Finastate.Library.Registry
import Finastate.Raft.Run

/-!
# Known validators

Both engines find the peer of a validator by its address. Peers prove addresses
when they register. The two maps of an engine are a registry whose members are
the connected peers and whose names are the addresses of validators (`PeerMaps`).
-/

namespace Finastate.Consensus

abbrev PeerId := Bytes

/-- What happens to the peers of an engine. -/
inductive PeerEvent (Req : Type)
  | protocolOpen (peerId : PeerId) (localNonce remoteNonce : Nat)
  | protocolClose (peerId : PeerId)
  | registerValidator (peerId : PeerId) (req : Req)
  deriving DecidableEq, Repr

section

variable {Info : Type} (address : Info → Option Address)

/-- The members of a map of peers. -/
def membersOf (peers : List (PeerId × Info)) (peerId : PeerId) : Option (Option Address) :=
  (AssocMap.get? peers peerId).map address

theorem membersOf_insert (peers : List (PeerId × Info)) (p : PeerId) (info : Info) :
    membersOf address (AssocMap.insert peers p info) =
      Function.update (membersOf address peers) p (some (address info)) := by
  funext q
  rw [membersOf, AssocMap.get?_insert, Function.update_apply]
  split
  case isTrue heq => rfl
  case isFalse hne => rfl

theorem membersOf_erase (peers : List (PeerId × Info)) (p : PeerId) :
    membersOf address (AssocMap.erase peers p) = Function.update (membersOf address peers) p none := by
  funext q
  rw [membersOf, AssocMap.get?_erase, Function.update_apply]
  split
  case isTrue heq => rfl
  case isFalse hne => rfl

theorem get?_insert_eq_update (known : List (Address × PeerId)) (a : Address) (p : PeerId) :
    AssocMap.get? (AssocMap.insert known a p) =
      Function.update (AssocMap.get? known) a (some p) := by
  funext b
  rw [AssocMap.get?_insert, Function.update_apply]

theorem get?_erase_eq_update (known : List (Address × PeerId)) (a : Address) :
    AssocMap.get? (AssocMap.erase known a) = Function.update (AssocMap.get? known) a none := by
  funext b
  rw [AssocMap.get?_erase, Function.update_apply]

/-- The last name of a member. -/
theorem join_membersOf (peers : List (PeerId × Info)) (p : PeerId) :
    (membersOf address peers p).join = (AssocMap.get? peers p).bind address := by
  rw [membersOf]
  cases AssocMap.get? peers p <;> rfl

/-- What the engines rely on: an address leads to a connected peer with that address, and to
some peer as long as a connected one has proved it; the address of a peer is one that it has
proved. -/
structure Registered (peers : List (PeerId × Info)) (known : List (Address × PeerId))
    (proved : PeerId → Set Address) : Prop where
  sound : ∀ a p, AssocMap.get? known a = some p →
    ∃ info, AssocMap.get? peers p = some info ∧ address info = some a
  complete : ∀ p a, a ∈ proved p → AssocMap.get? known a ≠ none
  recorded : ∀ p info a, AssocMap.get? peers p = some info → address info = some a → a ∈ proved p

variable {address}

theorem registered_iff {peers : List (PeerId × Info)} {known : List (Address × PeerId)}
    {proved : PeerId → Set Address} :
    Registered address peers known proved ↔
      Registry.Consistent ⟨membersOf address peers, AssocMap.get? known, proved⟩ ∧
        Registry.Recorded ⟨membersOf address peers, AssocMap.get? known, proved⟩ := by
  have hmember : ∀ p a, membersOf address peers p = some (some a) ↔
      ∃ info, AssocMap.get? peers p = some info ∧ address info = some a := by
    intro p a
    rw [membersOf, Option.map_eq_some_iff]
  constructor
  · intro h
    refine ⟨⟨fun a p ha => (hmember p a).2 (h.sound a p ha), h.complete⟩, fun p a hp => ?_⟩
    obtain ⟨info, hinfo, haddress⟩ := (hmember p a).1 hp
    exact h.recorded p info a hinfo haddress
  · rintro ⟨hconsistent, hrecorded⟩
    refine ⟨fun a p ha => (hmember p a).1 (hconsistent.sound a p ha), hconsistent.complete, ?_⟩
    exact fun p info a hinfo haddress => hrecorded p a ((hmember p a).2 ⟨info, hinfo, haddress⟩)

end

/-- What the engines have in common: their two maps, and what the events do to them. -/
structure PeerMaps (σ Info Req : Type) where
  peers : σ → List (PeerId × Info)
  knownValidators : σ → List (Address × PeerId)
  address : Info → Option Address
  onPeerEvent : σ → PeerEvent Req → σ
  provedAddress : σ → PeerId → Req → Option Address
  protocolOpen : ∀ s p localNonce remoteNonce, ∃ info, address info = none ∧
    peers (onPeerEvent s (.protocolOpen p localNonce remoteNonce)) =
      AssocMap.insert (peers s) p info ∧
    knownValidators (onPeerEvent s (.protocolOpen p localNonce remoteNonce)) = knownValidators s
  protocolClose : ∀ s p, peers (onPeerEvent s (.protocolClose p)) = AssocMap.erase (peers s) p ∧
    knownValidators (onPeerEvent s (.protocolClose p)) =
      match (AssocMap.get? (peers s) p).bind address with
      | some a => AssocMap.erase (knownValidators s) a
      | none => knownValidators s
  registerValidator : ∀ s p req,
    provedAddress s p req = none ∧ onPeerEvent s (.registerValidator p req) = s ∨
      ∃ a info, provedAddress s p req = some a ∧ address info = some a ∧
        peers (onPeerEvent s (.registerValidator p req)) = AssocMap.insert (peers s) p info ∧
        knownValidators (onPeerEvent s (.registerValidator p req)) =
          AssocMap.insert (knownValidators s) a p

namespace PeerMaps

variable {σ Info Req : Type} (M : PeerMaps σ Info Req)

def change (s : σ) : PeerEvent Req → Registry.Change PeerId Address
  | .protocolOpen peerId _ _ => .connect peerId
  | .protocolClose peerId => .disconnect peerId
  | .registerValidator peerId req =>
      match M.provedAddress s peerId req with
      | some address => .register peerId address
      | none => .nothing

/-- The registry that an engine keeps. -/
def keeper : Registry.Keeper σ (PeerEvent Req) PeerId Address where
  members s := membersOf M.address (M.peers s)
  known s := AssocMap.get? (M.knownValidators s)
  step := M.onPeerEvent
  change := M.change
  members_step s e := by
    cases e with
    | protocolOpen p localNonce remoteNonce =>
        obtain ⟨info, haddress, hpeers, -⟩ := M.protocolOpen s p localNonce remoteNonce
        rw [hpeers, membersOf_insert, haddress]
        rfl
    | protocolClose p =>
        rw [(M.protocolClose s p).1]
        exact membersOf_erase M.address (M.peers s) p
    | registerValidator p req =>
        rcases M.registerValidator s p req with
          ⟨hnone, hsame⟩ | ⟨a, info, hsome, haddress, hpeers, -⟩
        · simp only [hsame, change, hnone, Registry.apply]
        · simp only [hpeers, change, hsome, Registry.apply, membersOf_insert, haddress]
  known_step s e := by
    cases e with
    | protocolOpen p localNonce remoteNonce =>
        obtain ⟨info, -, -, hknown⟩ := M.protocolOpen s p localNonce remoteNonce
        rw [hknown]
        rfl
    | protocolClose p =>
        simp only [(M.protocolClose s p).2, change, Registry.apply, join_membersOf]
        cases (AssocMap.get? (M.peers s) p).bind M.address with
        | none => rfl
        | some a => exact get?_erase_eq_update (M.knownValidators s) a
    | registerValidator p req =>
        rcases M.registerValidator s p req with
          ⟨hnone, hsame⟩ | ⟨a, info, hsome, -, -, hknown⟩
        · simp only [hsame, change, hnone, Registry.apply]
        · simp only [hknown, change, hsome, Registry.apply, get?_insert_eq_update]

variable {M} {s : σ} {proved : PeerId → Set Address}

/-- As long as the changes are safe, the engine knows the validators that are connected. -/
theorem registered (hrun : M.keeper.Run Registry.Safe s proved) :
    Registered M.address (M.peers s) (M.knownValidators s) proved :=
  registered_iff.2 ⟨hrun.consistent, hrun.recorded⟩

variable (M)

/-- The event is safe, given who has proved what. -/
def safe (s : σ) (proofs : List (PeerId × Address)) : PeerEvent Req → Bool
  | .protocolOpen peerId _ _ => (M.knownValidators s).all fun x => x.2 ≠ peerId
  | .protocolClose peerId =>
      match (AssocMap.get? (M.peers s) peerId).bind M.address with
      | some address => proofs.all fun x => x.1 = peerId ∨ x.2 ≠ address
      | none => true
  | .registerValidator peerId req =>
      match M.provedAddress s peerId req with
      | some address => (M.knownValidators s).all fun x => x.2 ≠ peerId ∨ x.1 = address
      | none => true

/-- All events of the list are safe, each where the ones before it have led. -/
def allSafe : σ → List (PeerId × Address) → List (PeerEvent Req) → Bool
  | _, _, [] => true
  | s, proofs, e :: es =>
      M.safe s proofs e && allSafe (M.onPeerEvent s e) ((M.change s e).log proofs) es

variable {M} {proofs : List (PeerId × Address)} {e : PeerEvent Req}

theorem safe_change (h : M.safe s proofs e = true) :
    Registry.Safe (M.keeper.view s (Registry.provedIn proofs)) (M.change s e) := by
  cases e with
  | protocolOpen p localNonce remoteNonce =>
      intro a ha
      simp only [safe, List.all_eq_true, decide_eq_true_eq] at h
      exact h (a, p) (AssocMap.mem_of_get?_eq_some ha) rfl
  | protocolClose p =>
      intro a ha q hne hq
      have hlast : (AssocMap.get? (M.peers s) p).bind M.address = some a := by
        rw [← join_membersOf]
        exact Option.join_eq_some_iff.2 ha
      simp only [safe, hlast, List.all_eq_true, decide_eq_true_eq] at h
      rcases h (q, a) hq with heq | hother
      · exact hne heq
      · exact hother rfl
  | registerValidator p req =>
      rw [change]
      cases hproved : M.provedAddress s p req with
      | none => trivial
      | some a =>
          intro b hb
          simp only [safe, hproved, List.all_eq_true, decide_eq_true_eq] at h
          exact (h (b, p) (AssocMap.mem_of_get?_eq_some hb)).resolve_left (absurd rfl)

theorem run_of_allSafe {es : List (PeerEvent Req)} (h : M.allSafe s proofs es = true)
    (hrun : M.keeper.Run Registry.Safe s (Registry.provedIn proofs)) :
    ∃ proofs', M.keeper.Run Registry.Safe (es.foldl M.onPeerEvent s)
      (Registry.provedIn proofs') := by
  induction es generalizing s proofs with
  | nil => exact ⟨proofs, hrun⟩
  | cons e es ih =>
      rw [allSafe, Bool.and_eq_true] at h
      refine ih h.2 ?_
      have hproved := @Registry.proved_apply_provedIn _ _ _ _ (M.keeper.members s)
        (M.keeper.known s) proofs (M.change s e)
      exact hproved ▸ hrun.step (safe_change h.1)

end PeerMaps

end Finastate.Consensus

namespace Finastate.Hotstuff

open Consensus

namespace Stream

variable (support : Support)

def onPeerEvent (s : Stream) : PeerEvent RegisterValidatorReq → Stream
  | .protocolOpen peerId localNonce remoteNonce =>
      s.onNetworkProtocolOpen support peerId localNonce remoteNonce
  | .protocolClose peerId => s.onNetworkProtocolClose peerId
  | .registerValidator peerId req => (s.onReqRegisterValidator support peerId req).1

/-- The address that a request proves, if it is accepted. -/
def provedAddress (s : Stream) (peerId : PeerId) (req : RegisterValidatorReq) : Option Address :=
  match AssocMap.get? s.peers peerId with
  | none => none
  | some peerInfo =>
      match support.basic.verify (.nonce peerInfo.localNonce) req.publicKey req.signature with
      | .error _ => none
      | .ok () => some (support.basic.address req.publicKey)

theorem registerValidator_maps (s : Stream) (peerId : PeerId) :
    (s.registerValidator support peerId).peers = s.peers ∧
      (s.registerValidator support peerId).knownValidators = s.knownValidators := by
  unfold registerValidator
  split
  case h_1 => exact ⟨rfl, rfl⟩
  case h_2 => exact ⟨rfl, rfl⟩

end Stream

def peerMaps (support : Support) : PeerMaps Stream PeerInfo RegisterValidatorReq where
  peers := Stream.peers
  knownValidators := Stream.knownValidators
  address := PeerInfo.address
  onPeerEvent := Stream.onPeerEvent support
  provedAddress := Stream.provedAddress support
  protocolOpen s p localNonce remoteNonce :=
    ⟨⟨localNonce, remoteNonce, none⟩, rfl, Stream.registerValidator_maps support _ p⟩
  protocolClose s p := ⟨rfl, rfl⟩
  registerValidator s p req := by
    cases hinfo : AssocMap.get? s.peers p with
    | none =>
        left
        simp [Stream.provedAddress, Stream.onPeerEvent, Stream.onReqRegisterValidator, hinfo]
    | some peerInfo =>
        cases hverify : support.basic.verify (.nonce peerInfo.localNonce) req.publicKey
            req.signature with
        | error e =>
            left
            simp [Stream.provedAddress, Stream.onPeerEvent, Stream.onReqRegisterValidator, hinfo,
              hverify]
        | ok u =>
            right
            refine ⟨support.basic.address req.publicKey,
              { peerInfo with address := some (support.basic.address req.publicKey) }, ?_⟩
            simp [Stream.provedAddress, Stream.onPeerEvent, Stream.onReqRegisterValidator, hinfo,
              hverify]

/-- The registry that a stream keeps. -/
def keeper (support : Support) :
    Registry.Keeper Stream (PeerEvent RegisterValidatorReq) PeerId Address :=
  (peerMaps support).keeper

end Finastate.Hotstuff

namespace Finastate.Raft

open Consensus

namespace Stream

variable (support : Support)

def onPeerEvent (s : Stream) : PeerEvent RegisterValidatorReq → Stream
  | .protocolOpen peerId localNonce remoteNonce =>
      s.onNetworkProtocolOpen support peerId localNonce remoteNonce
  | .protocolClose peerId => s.onNetworkProtocolClose peerId
  | .registerValidator peerId req => (s.onReqRegisterValidator support peerId req).1

/-- The address that a request proves, if it is accepted. -/
def provedAddress (s : Stream) (peerId : PeerId) (req : RegisterValidatorReq) : Option Address :=
  match AssocMap.get? s.peers peerId with
  | none => none
  | some peerInfo =>
      match support.verifierFromPublicKey req.publicKey,
          support.basic.verify (.nonce peerInfo.localNonce) req.publicKey req.signature with
      | .ok (), .ok () => some (support.basic.address req.publicKey)
      | _, _ => none

theorem registerValidator_maps (s : Stream) (peerId : PeerId) :
    (s.registerValidator support peerId).peers = s.peers ∧
      (s.registerValidator support peerId).knownValidators = s.knownValidators := by
  unfold registerValidator
  split
  case h_1 => exact ⟨rfl, rfl⟩
  case h_2 => exact ⟨rfl, rfl⟩

end Stream

def peerMaps (support : Support) : PeerMaps Stream PeerInfo RegisterValidatorReq where
  peers := Stream.peers
  knownValidators := Stream.knownValidators
  address := PeerInfo.address
  onPeerEvent := Stream.onPeerEvent support
  provedAddress := Stream.provedAddress support
  protocolOpen s p localNonce remoteNonce :=
    ⟨⟨localNonce, remoteNonce, none⟩, rfl, Stream.registerValidator_maps support _ p⟩
  protocolClose s p := ⟨rfl, rfl⟩
  registerValidator s p req := by
    cases hinfo : AssocMap.get? s.peers p with
    | none =>
        left
        simp [Stream.provedAddress, Stream.onPeerEvent, Stream.onReqRegisterValidator, hinfo]
    | some peerInfo =>
        cases hverifier : support.verifierFromPublicKey req.publicKey with
        | error e =>
            left
            simp [Stream.provedAddress, Stream.onPeerEvent, Stream.onReqRegisterValidator, hinfo,
              hverifier]
        | ok u =>
            cases hverify : support.basic.verify (.nonce peerInfo.localNonce) req.publicKey
                req.signature with
            | error e =>
                left
                simp [Stream.provedAddress, Stream.onPeerEvent, Stream.onReqRegisterValidator,
                  hinfo, hverifier, hverify]
            | ok u =>
                right
                refine ⟨support.basic.address req.publicKey,
                  { peerInfo with address := some (support.basic.address req.publicKey) }, ?_⟩
                simp [Stream.provedAddress, Stream.onPeerEvent, Stream.onReqRegisterValidator,
                  hinfo, hverifier, hverify]

/-- The registry that a stream keeps. -/
def keeper (support : Support) :
    Registry.Keeper Stream (PeerEvent RegisterValidatorReq) PeerId Address :=
  (peerMaps support).keeper

end Finastate.Raft

namespace Finastate.Consensus

/-- As long as the changes are safe, both engines know the validators that are connected. -/
theorem validators_registered (hotstuff : Hotstuff.Support) (raft : Raft.Support) :
    (∀ s proved, (Hotstuff.keeper hotstuff).Run Registry.Safe s proved →
        Registered Hotstuff.PeerInfo.address s.peers s.knownValidators proved) ∧
      ∀ s proved, (Raft.keeper raft).Run Registry.Safe s proved →
        Registered Raft.PeerInfo.address s.peers s.knownValidators proved :=
  ⟨fun _ _ hrun => PeerMaps.registered (M := Hotstuff.peerMaps hotstuff) hrun,
    fun _ _ hrun => PeerMaps.registered (M := Raft.peerMaps raft) hrun⟩

/-- The peer `[1]` registers twice, `[2]` takes its address over, and `[1]` closes with another
one that it has registered by then. -/
def takeover {Req : Type} (req req' : Req) : List (PeerEvent Req) :=
  [.protocolOpen [1] 7 7, .protocolOpen [2] 7 7, .registerValidator [1] req,
    .registerValidator [1] req, .registerValidator [2] req, .registerValidator [1] req',
    .protocolClose [1]]

def hotstuffReq (key : UInt8) : Hotstuff.RegisterValidatorReq :=
  ⟨0, ⟨[key]⟩, Hotstuff.Sample.basic.sign (.nonce 7) ⟨[key]⟩⟩

def raftReq (key : UInt8) : Raft.RegisterValidatorReq :=
  ⟨0, ⟨[key]⟩, Raft.Sample.basic.sign (.nonce 7) ⟨[key]⟩⟩

def hotstuffTakeover : Hotstuff.Stream :=
  (takeover (hotstuffReq 9) (hotstuffReq 8)).foldl
    (Hotstuff.Stream.onPeerEvent (Hotstuff.Sample.support 3))
    (.blank (Hotstuff.Sample.support 3) ⟨[0]⟩)

def raftTakeover : Raft.Stream :=
  (takeover (raftReq 9) (raftReq 8)).foldl (Raft.Stream.onPeerEvent (Raft.Sample.support 3))
    (.blank (Raft.Sample.support 3) ⟨[0]⟩)

/-- The address leads to `[2]` in the end. -/
theorem validators_registered_takeover :
    (hotstuffTakeover.knownValidators = [(⟨[9]⟩, [2])] ∧
        ∃ proved, Registered Hotstuff.PeerInfo.address hotstuffTakeover.peers
          hotstuffTakeover.knownValidators proved) ∧
      raftTakeover.knownValidators = [(⟨[9]⟩, [2])] ∧
        ∃ proved, Registered Raft.PeerInfo.address raftTakeover.peers
          raftTakeover.knownValidators proved := by
  have hregistered := validators_registered (Hotstuff.Sample.support 3) (Raft.Sample.support 3)
  refine ⟨⟨by decide +kernel, ?_⟩, by decide +kernel, ?_⟩
  · have hsafe : (Hotstuff.peerMaps (Hotstuff.Sample.support 3)).allSafe
        (Hotstuff.Stream.blank (Hotstuff.Sample.support 3) ⟨[0]⟩) []
        (takeover (hotstuffReq 9) (hotstuffReq 8)) = true := by
      decide +kernel
    obtain ⟨proofs, hrun⟩ :=
      PeerMaps.run_of_allSafe hsafe (Registry.provedIn_nil ▸ .start rfl rfl)
    exact ⟨_, hregistered.1 _ _ hrun⟩
  · have hsafe : (Raft.peerMaps (Raft.Sample.support 3)).allSafe
        (Raft.Stream.blank (Raft.Sample.support 3) ⟨[0]⟩) []
        (takeover (raftReq 9) (raftReq 8)) = true := by
      decide +kernel
    obtain ⟨proofs, hrun⟩ :=
      PeerMaps.run_of_allSafe hsafe (Registry.provedIn_nil ▸ .start rfl rfl)
    exact ⟨_, hregistered.2 _ _ hrun⟩

/-- The peers `[1]` and `[2]` connect and prove one address, and `[1]` is closed. -/
def departure {Req : Type} (req : Req) : List (PeerEvent Req) :=
  [.protocolOpen [1] 7 7, .protocolOpen [2] 7 7, .registerValidator [1] req,
    .registerValidator [2] req, .protocolClose [1]]

/-- An address of a connected peer leads nowhere. -/
theorem not_registered {Info : Type} {address : Info → Option Address}
    {peers : List (PeerId × Info)} {known : List (Address × PeerId)}
    {proved : PeerId → Set Address} {p : PeerId} {a : Address}
    (haddress : (AssocMap.get? peers p).bind address = some a)
    (hnone : AssocMap.get? known a = none) : ¬ Registered address peers known proved := by
  intro h
  obtain ⟨info, hinfo, ha⟩ := Option.bind_eq_some_iff.1 haddress
  exact h.complete p a (h.recorded p info a hinfo ha) hnone

/-- The address leads nowhere although `[2]` is still connected. -/
theorem not_registered_departure :
    (∃ s proved, (Hotstuff.keeper (Hotstuff.Sample.support 3)).Run (fun _ _ => True) s proved ∧
        ¬ Registered Hotstuff.PeerInfo.address s.peers s.knownValidators proved) ∧
      ∃ s proved, (Raft.keeper (Raft.Sample.support 3)).Run (fun _ _ => True) s proved ∧
        ¬ Registered Raft.PeerInfo.address s.peers s.knownValidators proved := by
  constructor
  · let K := Hotstuff.keeper (Hotstuff.Sample.support 3)
    have hstart : K.Run (fun _ _ => True) (Hotstuff.Stream.blank (Hotstuff.Sample.support 3) ⟨[0]⟩)
        fun _ => ∅ := .start rfl rfl
    obtain ⟨proved, hrun⟩ := hstart.foldl (fun _ _ => trivial) (departure (hotstuffReq 9))
    exact ⟨_, proved, hrun, not_registered (p := [2]) (a := ⟨[9]⟩) (by decide +kernel)
      (by decide +kernel)⟩
  · let K := Raft.keeper (Raft.Sample.support 3)
    have hstart : K.Run (fun _ _ => True) (Raft.Stream.blank (Raft.Sample.support 3) ⟨[0]⟩)
        fun _ => ∅ := .start rfl rfl
    obtain ⟨proved, hrun⟩ := hstart.foldl (fun _ _ => trivial) (departure (raftReq 9))
    exact ⟨_, proved, hrun, not_registered (p := [2]) (a := ⟨[9]⟩) (by decide +kernel)
      (by decide +kernel)⟩

end Finastate.Consensus
