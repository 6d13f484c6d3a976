import Finastate.PeerManager.Moves

/-!
# Bookkeeping

In every state of a run the counters count the active peers of their state and
are not above the configured numbers, no peer is active and inactive, and if
only reserved peers are allowed then the active ones are reserved.
-/

namespace Finastate.PeerManager

variable {m m' m₀ : PeerManager} {p : PeerId} {d : PeerState} {event : Event} {more : Bool}

/-- What does not depend on who is reserved. -/
structure Tidy (m : PeerManager) : Prop where
  counted : m.active.Counted m.config
  disjoint : ∀ p ∈ m.active.peers.keys, p ∉ m.inactive.keys

/-- In reserved-only mode the active peers are reserved. -/
def Restricted (m : PeerManager) : Prop := ∀ p ∈ m.active.peers.keys, Allowed m.config p

structure Bookkept (m : PeerManager) : Prop where
  in_peers : m.active.inPeers = m.active.peers.count (ActivePeers.inState .In)
  out_peers : m.active.outPeers = m.active.peers.count (ActivePeers.inState .Out)
  in_le : m.active.inPeers ≤ m.config.maxInPeers
  out_le : m.active.outPeers ≤ m.config.maxOutPeers
  disjoint : ∀ p ∈ m.active.peers.keys, p ∉ m.inactive.keys
  reserved_only : m.config.reservedOnly = true → ∀ p ∈ m.active.peers.keys,
    isReserved m.config p = true

theorem Tidy.toBookkept (h : Tidy m) (hrestricted : Restricted m) : Bookkept m where
  in_peers := h.counted.counter .In
  out_peers := h.counted.counter .Out
  in_le := h.counted.le .In
  out_le := h.counted.le .Out
  disjoint := h.disjoint
  reserved_only := fun honly p hp => hrestricted p hp honly

/-! ## Tidy states -/

namespace Tidy

theorem candidate (h : Tidy m) (hnew : p ∉ m.active.peers.keys) : Tidy (m.candidate p) := by
  refine ⟨h.counted, fun q hq hinactive => ?_⟩
  rcases LinkedMap.mem_keys_insert.1 hinactive with hold | rfl
  · exact h.disjoint q hq hold
  · exact hnew hq

theorem makeInactive (h : Tidy m) (p : PeerId) : Tidy (m.makeInactive p) := by
  refine ⟨h.counted.removePeer, fun q hq hinactive => ?_⟩
  obtain ⟨hq, hne⟩ := ActivePeers.mem_keys_removePeer.1 hq
  rcases LinkedMap.mem_keys_insert.1 hinactive with hold | heq
  · exact h.disjoint q hq hold
  · exact hne heq

theorem send (h : Tidy m) (message : OutMessage) : Tidy (m.send message) :=
  ⟨h.counted, h.disjoint⟩

theorem forget (h : Tidy m) (p : PeerId) : Tidy (m.forget p) := by
  have hforgotten : Tidy { m with
      active := m.active.removePeer p, inactive := m.inactive.remove p } := by
    refine ⟨h.counted.removePeer, fun q hq hinactive => ?_⟩
    exact h.disjoint q (ActivePeers.mem_keys_removePeer.1 hq).1
      (LinkedMap.mem_keys_remove.1 hinactive).1
  rw [PeerManager.forget]
  split
  case isTrue hactive => exact hforgotten.send (.drop p)
  case isFalse hinactive => exact hforgotten

/-- The numbers of peers are as before. -/
theorem reconfigure (h : Tidy m) {config : PeerManagerConfig}
    (hin : config.maxInPeers = m.config.maxInPeers)
    (hout : config.maxOutPeers = m.config.maxOutPeers) : Tidy { m with config } := by
  refine ⟨h.counted.congr fun d => ?_, h.disjoint⟩
  cases d with
  | In => exact hin
  | Out => exact hout

theorem foldl (h : Tidy m) (ps : List PeerId) :
    Tidy (ps.foldl (fun m p => (m.makeInactive p).send (.drop p)) m) := by
  induction ps generalizing m with
  | nil => exact h
  | cons p ps ih => exact ih ((h.makeInactive p).send (.drop p))

theorem admitted (h : Tidy m) (hadmitted : Admitted m p d m') : Tidy m' := by
  refine ⟨hadmitted.counted h.counted, fun q hq hinactive => ?_⟩
  rcases hadmitted.inactive hinactive with ⟨hold, hne⟩ | ⟨-, hnot⟩
  · exact h.disjoint q ((hadmitted.keys hq).resolve_right hne) hold
  · exact hnot hq

theorem round (h : Tidy m) (hround : Round m m' more) : Tidy m' := by
  cases hround with
  | none hnone => exact h
  | admitted hp hallowed hadmitted => exact h.admitted hadmitted
  | exist hp hold =>
      exact ⟨h.counted, fun q hq hinactive =>
        h.disjoint q hq (LinkedMap.mem_keys_remove.1 hinactive).1⟩
  | full hp hnew hfull => exact h.candidate hnew

theorem activate (h : Tidy m) : Tidy m.activate :=
  activate_induction (fun _ _ _ h hround => h.round hround) h

theorem activating (h : Tidy m) (hactivating : Activating m event m₀) : Tidy m₀ := by
  cases hactivating with
  | discovered hnew => exact h.candidate hnew
  | dropped => exact h.makeInactive _
  | @addReserved p hnew =>
      have hreserved : Tidy (m.addReserved p) := h.reconfigure rfl rfl
      exact hreserved.candidate hnew
  | @removeReserved p =>
      have hreserved : Tidy { m with
          config := { m.config with reserved := m.config.reserved.remove p } } :=
        h.reconfigure rfl rfl
      rw [PeerManager.removeReserved]
      split
      case isTrue honly => exact (hreserved.makeInactive p).send (.drop p)
      case isFalse hnot => exact hreserved
  | @setReservedOnly reservedOnly =>
      have honly : Tidy { m with config := { m.config with reservedOnly } } :=
        h.reconfigure rfl rfl
      rw [PeerManager.setReservedOnly]
      split
      case isTrue htrue => exact honly.foldl _
      case isFalse hfalse => exact honly
  | @reportPeer p report hlow =>
      have hscore : Tidy (m.setScore p (m.newScore p report)) := ⟨h.counted, h.disjoint⟩
      exact hscore.forget p

theorem quiet (h : Tidy m) (hquiet : Quiet m event m') : Tidy m' := by
  cases hquiet with
  | discovered hold => exact h
  | rejected hnot => exact h.send _
  | admitted hallowed hadmitted => exact h.admitted hadmitted
  | exist hallowed hold => exact h.send _
  | full hallowed hnew => exact (h.candidate hnew).send _
  | addReserved hold => exact h.reconfigure rfl rfl
  | reportPeer hhigh => exact ⟨h.counted, h.disjoint⟩

theorem step (h : Tidy m) (event : Event) : Tidy (m.step event) := by
  rcases step_cases m event with hquiet | ⟨m₀, hactivating⟩
  · exact h.quiet hquiet
  · rw [hactivating.step_eq]
    exact (h.activating hactivating).activate

theorem start (config : PeerManagerConfig) (inactive : InactivePeers) :
    Tidy ⟨config, ⟨.empty, 0, 0⟩, inactive, [], []⟩ := by
  refine ⟨⟨fun d => ?_, fun d => ?_⟩, fun q hq => ?_⟩
  · cases d <;> rfl
  · cases d <;> exact Nat.zero_le _
  · cases hq

end Tidy

/-! ## Reserved-only mode -/

namespace Restricted

/-- Fewer peers are active. -/
theorem mono (h : Restricted m) (hconfig : m'.config = m.config)
    (hkeys : ∀ q ∈ m'.active.peers.keys, q ∈ m.active.peers.keys) : Restricted m' := by
  intro q hq
  rw [hconfig]
  exact h q (hkeys q hq)

theorem admitted (h : Restricted m) (hallowed : Allowed m.config p)
    (hadmitted : Admitted m p d m') : Restricted m' := by
  intro q hq
  rw [hadmitted.config_eq]
  rcases hadmitted.keys hq with hold | rfl
  · exact h q hold
  · exact hallowed

theorem round (h : Restricted m) (hround : Round m m' more) : Restricted m' := by
  cases hround with
  | none hnone => exact h
  | admitted hp hallowed hadmitted => exact h.admitted hallowed hadmitted
  | exist hp hold => exact h
  | full hp hnew hfull => exact h

theorem activate (h : Restricted m) : Restricted m.activate :=
  activate_induction (fun _ _ _ h hround => h.round hround) h

theorem addReserved (h : Restricted m) (p : PeerId) : Restricted (m.addReserved p) := by
  intro q hq honly
  exact isReserved_iff.2 (LinkedMap.mem_keys_insert.2 (Or.inl (isReserved_iff.1 (h q hq honly))))

theorem forget (h : Restricted m) (p : PeerId) : Restricted (m.forget p) := by
  rw [PeerManager.forget]
  split
  case isTrue hactive => exact h.mono rfl fun q hq => (ActivePeers.mem_keys_removePeer.1 hq).1
  case isFalse hinactive => exact h.mono rfl fun q hq => (ActivePeers.mem_keys_removePeer.1 hq).1

theorem activating (h : Restricted m) (hactivating : Activating m event m₀) : Restricted m₀ := by
  cases hactivating with
  | discovered hnew => exact h
  | dropped => exact h.mono rfl fun q hq => (ActivePeers.mem_keys_removePeer.1 hq).1
  | addReserved hnew => exact h.addReserved _
  | removeReserved =>
      rw [PeerManager.removeReserved]
      split
      case isTrue honly =>
        intro q hq _
        obtain ⟨hq, hne⟩ := ActivePeers.mem_keys_removePeer.1 hq
        exact isReserved_iff.2 (LinkedMap.mem_keys_remove.2 ⟨isReserved_iff.1 (h q hq honly), hne⟩)
      case isFalse hnot => exact fun q hq honly => absurd honly hnot
  | @setReservedOnly reservedOnly =>
      rw [PeerManager.setReservedOnly]
      split
      case isTrue htrue =>
        intro q hq _
        obtain ⟨hconfig, -, hentries, -⟩ := foldl_makeInactive
          { m with config := { m.config with reservedOnly } }
          (PeerManager.activeNormalPeers { m with config := { m.config with reservedOnly } })
        obtain ⟨info, hmem⟩ := LinkedMap.mem_keys.1 hq
        obtain ⟨hactive, hnot⟩ := (hentries _).1 hmem
        rw [hconfig]
        by_contra hnormal
        refine hnot (List.mem_filter.2 ⟨LinkedMap.mem_keys_of_mem hactive, ?_⟩)
        simpa using hnormal
      case isFalse hfalse => exact fun q hq honly => absurd honly hfalse
  | reportPeer hlow => exact (show Restricted (m.setScore _ _) from h).forget _

theorem quiet (h : Restricted m) (hquiet : Quiet m event m') : Restricted m' := by
  cases hquiet with
  | discovered hold => exact h
  | rejected hnot => exact h
  | admitted hallowed hadmitted => exact h.admitted hallowed hadmitted
  | exist hallowed hold => exact h
  | full hallowed hnew => exact h
  | addReserved hold => exact h.addReserved _
  | reportPeer hhigh => exact h

theorem step (h : Restricted m) (event : Event) : Restricted (m.step event) := by
  rcases step_cases m event with hquiet | ⟨m₀, hactivating⟩
  · exact h.quiet hquiet
  · rw [hactivating.step_eq]
    exact (h.activating hactivating).activate

end Restricted

/-! ## Runs -/

/-- `activate` comes to an end, and then there is no room or no candidate. -/
def Activates (m : PeerManager) : Prop :=
  (∃ n, PeerManager.activateIn n m = some m.activate) ∧ Settled m.activate

theorem Tidy.activates (h : Tidy m) : Activates m :=
  ⟨⟨_, activateIn_eq_activate h.counted (Nat.lt_succ_self _)⟩, settled_activate h.counted⟩

theorem Run.tidy {P : PeerManager → Event → Prop} (hrun : Run P m) : Tidy m := by
  induction hrun with
  | new config => exact (Tidy.start config _).activate
  | step hrun hevent ih => exact ih.step _

theorem Run.restricted {P : PeerManager → Event → Prop} (hrun : Run P m) : Restricted m := by
  induction hrun with
  | new config =>
      apply Restricted.activate
      exact fun q hq => nomatch hq
  | step hrun hevent ih => exact ih.step _

/-- The state from which `new` calls `activate`. -/
def initial (config : PeerManagerConfig) : PeerManager where
  config := config
  active := { peers := .empty, inPeers := 0, outPeers := 0 }
  inactive := LinkedMap.extend .empty (config.reserved.entries ++ config.bootnodes.entries)
  outMessages := []
  scores := []

/-- Every state of a run is in order, and so is every call of `activate`. -/
theorem Run.bookkept (hrun : Run (fun _ _ => True) m) :
    Bookkept m ∧
      (∀ event m₀, Activating m event m₀ → m.step event = m₀.activate ∧ Activates m₀) ∧
      ∀ config, PeerManager.new config = (initial config).activate ∧
        Activates (initial config) := by
  refine ⟨hrun.tidy.toBookkept hrun.restricted, fun event m₀ hactivating => ?_, fun config => ?_⟩
  · exact ⟨hactivating.step_eq, (hrun.tidy.activating hactivating).activates⟩
  · exact ⟨rfl, (Tidy.start config _).activates⟩

theorem PeerManagerConfig.one_lt : 1 < 2 ^ 32 := by decide

/-- One place in each direction; the peer to start with is `[1]`. -/
def narrow : PeerManagerConfig where
  maxInPeers := 1
  maxOutPeers := 1
  bootnodes := LinkedMap.extend .empty [([1], ())]
  reserved := .empty
  reservedOnly := false
  maxInPeers_lt := PeerManagerConfig.one_lt
  maxOutPeers_lt := PeerManagerConfig.one_lt

theorem bookkept_narrow : Bookkept ((PeerManager.new narrow).step (.discovered [2])) :=
  (Run.bookkept (.step (.new narrow) trivial)).1

end Finastate.PeerManager
