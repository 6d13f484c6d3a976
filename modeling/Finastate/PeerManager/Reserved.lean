import Finastate.PeerManager.Bookkeeping
import Mathlib.Logic.Relation

/-!
# Reserved peers

The type of an active peer is that of the moment when it was inserted. It says
whether the peer is reserved as long as an active peer is not made a reserved
one and a reserved one not a normal one, unless the latter is dropped because
only reserved peers are allowed. As long as it does, `insert_peer` replaces no
reserved peer and lets a reserved one in where there is a normal one.
-/

namespace Finastate.PeerManager

variable {m m' m₀ m₁ : PeerManager} {p : PeerId} {d : PeerState} {event : Event} {more : Bool}

def Typed (m : PeerManager) : Prop :=
  ∀ e ∈ m.active.peers.entries, e.2.peerType = .reserved ↔ isReserved m.config e.1 = true

/-- No active peer changes its type. -/
def Steady (m : PeerManager) : Event → Prop
  | .message (.addReservedPeer p) =>
      p ∈ m.active.peers.keys → isReserved m.config p = true
  | .message (.removeReservedPeer p) =>
      m.config.reservedOnly = false → p ∈ m.active.peers.keys → ¬ isReserved m.config p = true
  | _ => True

/-! ## Calls of `insert_peer` -/

/-- The rounds of `activate` lead from the first state to the second one. -/
def Rounds : PeerManager → PeerManager → Prop :=
  Relation.ReflTransGen fun m m' => m.activateRound = (m', true)

/-- In `activate`, called in state `m₀`, a place is wanted for `p` in state `m₁`. -/
inductive Takes (m₀ : PeerManager) : PeerManager → PeerId → Prop
  | intro {m₁ : PeerManager} {inactive : InactivePeers} {p : PeerId} (hrounds : Rounds m₀ m₁)
      (htake : m₁.inactive.takePeer m₁.config = some (inactive, p)) :
      Takes m₀ { m₁ with inactive } p

/-- On an event, `insert_peer` is called for `p` in state `m₁`. -/
inductive Wants (m : PeerManager) : Event → PeerManager → PeerId → PeerState → Prop
  | incoming {p : PeerId} {id : IncomingId} (hallowed : Allowed m.config p) :
      Wants m (.incoming p id) m p .In
  | activate {event : Event} {m₀ m₁ : PeerManager} {p : PeerId}
      (hactivating : Activating m event m₀) (htakes : Takes m₀ m₁ p) :
      Wants m event m₁ p .Out

/-- What `insert_peer` does for reserved peers: it removes none, and it lets one in
where a normal peer is active. -/
structure Favoured (m : PeerManager) (p : PeerId) (d : PeerState) : Prop where
  removed : ∀ q removed, (m.active.insertPeer p d m.config).2 = .replaced q removed →
    ¬ isReserved m.config removed = true
  inserted : isReserved m.config p = true → ActivePeers.maxPeers m.config d ≤ m.active.counter d →
    (∃ e ∈ m.active.peers.entries, e.2.peerState = d ∧ ¬ isReserved m.config e.1 = true) →
    p ∈ (m.active.insertPeer p d m.config).1.peers.keys

namespace Typed

theorem favoured (h : Typed m) (p : PeerId) (d : PeerState) : Favoured m p d := by
  have hinsertion := m.active.insertion m.config p d
  constructor
  · intro q removed hresult hreserved
    generalize m.active.insertPeer p d m.config = r at hinsertion hresult
    obtain ⟨a, result⟩ := r
    cases hresult
    cases hinsertion with
    | replaced hnew hfull hp hmem hstate htype =>
        have hremoved := (h _ hmem).2 hreserved
        rw [htype] at hremoved
        cases hremoved
  · rintro hreserved hfull ⟨e, hmem, hstate, hnormal⟩
    generalize m.active.insertPeer p d m.config = r at hinsertion ⊢
    obtain ⟨a, result⟩ := r
    cases hinsertion with
    | inserted hnew hroom => exact absurd hroom (Nat.not_lt.2 hfull)
    | replaced hnew hfull hp hremoved hstate' htype =>
        refine LinkedMap.mem_keys_remove.2 ⟨LinkedMap.mem_keys_insert.2 (Or.inr rfl), ?_⟩
        rintro rfl
        exact hnew (LinkedMap.mem_keys_of_mem hremoved)
    | exist hold => exact hold
    | full hnew hfull hnone =>
        have htype : e.2.peerType = .normal := by
          cases htype : e.2.peerType with
          | reserved => exact absurd ((h e hmem).1 htype) hnormal
          | normal => rfl
        have hreplaceable : ActivePeers.replaceable d e = true := by
          simp [ActivePeers.replaceable, hstate, htype]
        exact absurd hreplaceable (hnone hreserved e hmem)

/-! ## Steps -/

/-- Fewer peers are active, and the same ones of them are reserved. -/
theorem mono (h : Typed m)
    (hentries : ∀ e ∈ m'.active.peers.entries, e ∈ m.active.peers.entries)
    (hreserved : ∀ e ∈ m'.active.peers.entries,
      (isReserved m'.config e.1 = true ↔ isReserved m.config e.1 = true)) : Typed m' :=
  fun e he => (h e (hentries e he)).trans (hreserved e he).symm

theorem admitted (h : Typed m) (hadmitted : Admitted m p d m') : Typed m' := by
  intro e he
  rw [hadmitted.config_eq]
  rcases hadmitted.entries he with hold | rfl
  · exact h e hold
  · exact peerTypeOf_eq_reserved_iff

theorem round (h : Typed m) (hround : Round m m' more) : Typed m' := by
  cases hround with
  | none hnone => exact h
  | admitted hp hallowed hadmitted => exact h.admitted hadmitted
  | exist hp hold => exact h
  | full hp hnew hfull => exact h

theorem activate (h : Typed m) : Typed m.activate :=
  activate_induction (fun _ _ _ h hround => h.round hround) h

theorem rounds (h : Typed m₀) (hrounds : Rounds m₀ m₁) : Typed m₁ := by
  induction hrounds with
  | refl => exact h
  | @tail m m' hrounds hround ih =>
      have hspec := activateRound_spec m
      rw [hround] at hspec
      exact ih.round hspec

theorem takes (h : Typed m₀) (htakes : Takes m₀ m₁ p) : Typed m₁ := by
  cases htakes with
  | intro hrounds htake =>
      have htyped := h.rounds hrounds
      exact htyped

theorem addReserved (h : Typed m)
    (hsteady : p ∈ m.active.peers.keys → isReserved m.config p = true) :
    Typed (m.addReserved p) := by
  refine h.mono (fun e he => he) fun e he => ?_
  rw [isReserved_iff, isReserved_iff]
  refine LinkedMap.mem_keys_insert.trans (or_iff_left_of_imp ?_)
  rintro rfl
  exact isReserved_iff.1 (hsteady (LinkedMap.mem_keys_of_mem he))

theorem removeReserved (h : Typed m) (hsteady : Steady m (.message (.removeReservedPeer p))) :
    Typed (m.removeReserved p) := by
  rw [PeerManager.removeReserved]
  split
  case isTrue honly =>
    refine h.mono (fun e he => (ActivePeers.mem_entries_removePeer.1 he).1) fun e he => ?_
    rw [isReserved_iff, isReserved_iff]
    refine LinkedMap.mem_keys_remove.trans (and_iff_left ?_)
    exact (ActivePeers.mem_entries_removePeer.1 he).2
  case isFalse hnot =>
    refine h.mono (fun e he => he) fun e he => ?_
    rw [isReserved_iff, isReserved_iff]
    refine LinkedMap.mem_keys_remove.trans (and_iff_left_of_imp ?_)
    rintro hreserved rfl
    exact hsteady (Bool.not_eq_true _ ▸ hnot) (LinkedMap.mem_keys_of_mem he)
      (isReserved_iff.2 hreserved)

theorem forget (h : Typed m) (p : PeerId) : Typed (m.forget p) := by
  rw [PeerManager.forget]
  split
  case isTrue hactive =>
    exact h.mono (fun e he => (ActivePeers.mem_entries_removePeer.1 he).1) fun e he => Iff.rfl
  case isFalse hinactive =>
    exact h.mono (fun e he => (ActivePeers.mem_entries_removePeer.1 he).1) fun e he => Iff.rfl

theorem activating (h : Typed m) (hsteady : Steady m event)
    (hactivating : Activating m event m₀) : Typed m₀ := by
  cases hactivating with
  | discovered hnew => exact h
  | dropped =>
      exact h.mono (fun e he => (ActivePeers.mem_entries_removePeer.1 he).1) fun e he => Iff.rfl
  | addReserved hnew =>
      have hadded := h.addReserved fun hold => absurd hold hnew
      exact hadded
  | removeReserved => exact h.removeReserved hsteady
  | @setReservedOnly reservedOnly =>
      have honly : Typed { m with config := { m.config with reservedOnly } } := h
      rw [PeerManager.setReservedOnly]
      split
      case isTrue htrue =>
        obtain ⟨hconfig, -, hentries, -⟩ := foldl_makeInactive
          { m with config := { m.config with reservedOnly } }
          (PeerManager.activeNormalPeers { m with config := { m.config with reservedOnly } })
        refine honly.mono (fun e he => ((hentries e).1 he).1) fun e he => ?_
        rw [hconfig]
      case isFalse hfalse => exact honly
  | reportPeer hlow => exact (show Typed (m.setScore _ _) from h).forget _

theorem quiet (h : Typed m) (hsteady : Steady m event) (hquiet : Quiet m event m') : Typed m' := by
  cases hquiet with
  | discovered hold => exact h
  | rejected hnot => exact h
  | admitted hallowed hadmitted => exact h.admitted hadmitted
  | exist hallowed hold => exact h
  | full hallowed hnew => exact h
  | addReserved hold => exact h.addReserved hsteady
  | reportPeer hhigh => exact h

theorem step (h : Typed m) (hsteady : Steady m event) : Typed (m.step event) := by
  rcases step_cases m event with hquiet | ⟨m₀, hactivating⟩
  · exact h.quiet hsteady hquiet
  · rw [hactivating.step_eq]
    exact (h.activating hsteady hactivating).activate

theorem start (config : PeerManagerConfig) : Typed (initial config) := fun _ he => nomatch he

theorem wants (h : Typed m) (hsteady : Steady m event) (hwants : Wants m event m₁ p d) :
    Favoured m₁ p d := by
  cases hwants with
  | incoming hallowed => exact h.favoured p .In
  | activate hactivating htakes =>
      exact ((h.activating hsteady hactivating).takes htakes).favoured p .Out

end Typed

/-! ## Nothing less is enough -/

/-- A peer that is active as a reserved one keeps its place. -/
theorem Admitted.keeps (h : Admitted m p d m') {e : PeerId × PeerInfo}
    (he : e ∈ m.active.peers.entries) (htype : e.2.peerType = .reserved) :
    e ∈ m'.active.peers.entries := by
  cases h with
  | inserted hinsertion hout =>
      cases hinsertion with
      | inserted hnew hroom =>
          refine LinkedMap.mem_entries_insert.2 (Or.inl ⟨he, ?_⟩)
          rintro rfl
          exact hnew (LinkedMap.mem_keys_of_mem he)
  | replaced hinsertion hout =>
      cases hinsertion with
      | @replaced removed info hnew hfull hreserved hmem hstate hnormal =>
          refine LinkedMap.mem_entries_remove.2 ⟨LinkedMap.mem_entries_insert.2 (Or.inl ⟨he, ?_⟩), ?_⟩
          · rintro rfl
            exact hnew (LinkedMap.mem_keys_of_mem he)
          · rintro rfl
            have hinfo : e.2 = info := LinkedMap.eq_of_mem he hmem
            rw [hinfo, hnormal] at htype
            cases htype

theorem activate_keeps {e : PeerId × PeerInfo} {config : PeerManagerConfig}
    (hconfig : m.config = config) (he : e ∈ m.active.peers.entries)
    (htype : e.2.peerType = .reserved) :
    m.activate.config = config ∧ e ∈ m.activate.active.peers.entries := by
  refine activate_induction (I := fun m => m.config = config ∧ e ∈ m.active.peers.entries)
    (fun m m' more h hround => ?_) ⟨hconfig, he⟩
  cases hround with
  | none hnone => exact h
  | admitted hp hallowed hadmitted =>
      exact ⟨hadmitted.config_eq.trans h.1, hadmitted.keeps h.2 htype⟩
  | exist hp hold => exact h
  | full hp hnew hfull => exact h

/-- A step keeps the types right if and only if no active peer changes its type. -/
theorem Typed.step_iff (h : Typed m) (event : Event) : Typed (m.step event) ↔ Steady m event := by
  refine ⟨fun hstep => ?_, h.step⟩
  unfold Steady
  split
  case h_1 p =>
    intro hactive
    by_contra hnormal
    obtain ⟨info, hmem⟩ := LinkedMap.mem_keys.1 hactive
    have heq : m.step (.message (.addReservedPeer p)) = m.addReserved p := by
      simp [PeerManager.step, PeerManager.handle, PeerManager.onAddReservedPeer,
        PeerManager.addReserved, LinkedMap.contains, hactive]
    rw [heq] at hstep
    have htype : info.peerType = .reserved := by
      refine (hstep (p, info) hmem).2 (isReserved_iff.2 ?_)
      exact LinkedMap.mem_keys_insert.2 (Or.inr rfl)
    exact hnormal ((h (p, info) hmem).1 htype)
  case h_2 p =>
    intro honly hactive hreserved
    obtain ⟨info, hmem⟩ := LinkedMap.mem_keys.1 hactive
    have htype := (h (p, info) hmem).2 hreserved
    have heq : m.removeReserved p =
        { m with config := { m.config with reserved := m.config.reserved.remove p } } := by
      simp [PeerManager.removeReserved, honly]
    have hkept := activate_keeps
      (m := { m with config := { m.config with reserved := m.config.reserved.remove p } })
      rfl hmem htype
    rw [(Activating.removeReserved (m := m) (p := p)).step_eq, heq] at hstep
    have hstill := (hstep _ hkept.2).1 htype
    rw [hkept.1] at hstill
    exact (LinkedMap.mem_keys_remove.1 (isReserved_iff.1 hstill)).2 rfl
  case h_3 => trivial

/-! ## Runs -/

/-- As long as no active peer changes its type, the recorded types are right and
reserved peers are favoured. -/
theorem Run.typed (hrun : Run Steady m) :
    Typed m ∧
      (∀ event m₁ p d, Steady m event → Wants m event m₁ p d → Favoured m₁ p d) ∧
      ∀ config m₁ p, Takes (initial config) m₁ p → Favoured m₁ p .Out := by
  have htyped : Typed m := by
    induction hrun with
    | new config => exact (Typed.start config).activate
    | step hrun hsteady ih => exact ih.step hsteady
  refine ⟨htyped, fun event m₁ p d hsteady hwants => htyped.wants hsteady hwants, ?_⟩
  exact fun config m₁ p htakes => ((Typed.start config).takes htakes).favoured p .Out

/-- `[2]` is made a reserved peer before it is discovered and takes the place of `[1]`. -/
theorem typed_narrow :
    Typed ((PeerManager.new narrow).step (.message (.addReservedPeer [2]))) := by
  have hsteady : Steady (PeerManager.new narrow) (.message (.addReservedPeer [2])) :=
    fun hold => absurd hold (by decide +kernel)
  exact (Run.typed (.step (.new narrow) hsteady)).1

/-- The active peer `[1]` is made a reserved one, and the next reserved peer takes
its place. -/
theorem stale_narrow :
    let m := (PeerManager.new narrow).step (.message (.addReservedPeer [1]))
    let m' := m.step (.message (.addReservedPeer [2]))
    Run (fun _ _ => True) m' ∧ ¬ Typed m ∧ isReserved m.config [1] = true ∧
      [1] ∈ m.active.peers.keys ∧ [1] ∉ m'.active.peers.keys ∧
      OutMessage.drop [1] ∈ m'.outMessages := by
  refine ⟨.step (.step (.new narrow) trivial) trivial, fun htyped => ?_, ?_⟩
  · have h := htyped ([1], ⟨.Out, .normal⟩) (by decide +kernel)
    exact absurd (h.2 (by decide +kernel)) (by decide)
  · decide +kernel

end Finastate.PeerManager
