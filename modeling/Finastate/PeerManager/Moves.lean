import Finastate.PeerManager.Basic

/-!
# What the operations do

How peers get in and out of the active peers, in which states `activate` is
called, and what one round of its loop does. The loop ends: a round that
connects to a peer takes a free place or the place of a normal peer, and every
other round takes a candidate away.
-/

namespace Finastate.PeerManager

theorem wrapSub_wrapAdd {a : Nat} (h : a < 2 ^ 32) : wrapSub 32 (wrapAdd 32 a 1) 1 = a := by
  rcases Nat.lt_or_ge (a + 1) (2 ^ 32) with hlt | hge
  · rw [wrapAdd_of_lt hlt, wrapSub_of_le hlt (Nat.le_add_left 1 a), Nat.add_sub_cancel]
  · obtain rfl : a = 2 ^ 32 - 1 := by omega
    decide

theorem maxPeers_lt (config : PeerManagerConfig) (d : PeerState) :
    ActivePeers.maxPeers config d < 2 ^ 32 := by
  cases d with
  | In => exact config.maxInPeers_lt
  | Out => exact config.maxOutPeers_lt

theorem peerTypeOf_eq_reserved_iff {config : PeerManagerConfig} {peerId : PeerId} :
    peerTypeOf config peerId = .reserved ↔ isReserved config peerId = true := by
  rw [peerTypeOf]
  split
  case isTrue h => exact iff_of_true rfl h
  case isFalse h => exact iff_of_false nofun h

namespace ActivePeers

variable {a a' : ActivePeers} {config : PeerManagerConfig} {peerId : PeerId} {d : PeerState}
  {result : InsertPeerResult}

theorem counter_increase (a : ActivePeers) (d d' : PeerState) :
    (a.increase d).counter d' = if d = d' then wrapAdd 32 (a.counter d) 1 else a.counter d' := by
  cases d <;> cases d' <;> rfl

theorem counter_decrease (a : ActivePeers) (d d' : PeerState) :
    (a.decrease d).counter d' = if d = d' then wrapSub 32 (a.counter d) 1 else a.counter d' := by
  cases d <;> cases d' <;> rfl

@[simp] theorem peers_increase (a : ActivePeers) (d : PeerState) :
    (a.increase d).peers = a.peers := by
  cases d <;> rfl

@[simp] theorem peers_decrease (a : ActivePeers) (d : PeerState) :
    (a.decrease d).peers = a.peers := by
  cases d <;> rfl

/-- The cases of `insert_peer`. -/
inductive Insertion (a : ActivePeers) (config : PeerManagerConfig) (peerId : PeerId)
    (d : PeerState) : ActivePeers → InsertPeerResult → Prop
  | inserted (hnew : peerId ∉ a.peers.keys) (hroom : a.counter d < maxPeers config d) :
      Insertion a config peerId d
        { a.increase d with peers := a.peers.insert peerId ⟨d, peerTypeOf config peerId⟩ }
        (.inserted peerId)
  | replaced {removed : PeerId} {info : PeerInfo} (hnew : peerId ∉ a.peers.keys)
      (hfull : maxPeers config d ≤ a.counter d) (hreserved : isReserved config peerId = true)
      (hmem : (removed, info) ∈ a.peers.entries) (hstate : info.peerState = d)
      (htype : info.peerType = .normal) :
      Insertion a config peerId d
        { (a.increase d).decrease d with
          peers := (a.peers.insert peerId ⟨d, .reserved⟩).remove removed }
        (.replaced peerId removed)
  | exist (hold : peerId ∈ a.peers.keys) : Insertion a config peerId d a (.exist peerId)
  | full (hnew : peerId ∉ a.peers.keys) (hfull : maxPeers config d ≤ a.counter d)
      (hnone : isReserved config peerId = true → ∀ e ∈ a.peers.entries, ¬ replaceable d e) :
      Insertion a config peerId d a (.full peerId)

theorem insertion (a : ActivePeers) (config : PeerManagerConfig) (peerId : PeerId)
    (d : PeerState) :
    Insertion a config peerId d (a.insertPeer peerId d config).1
      (a.insertPeer peerId d config).2 := by
  unfold insertPeer
  by_cases hold : peerId ∈ a.peers.keys
  · simp only [LinkedMap.contains_iff.2 hold, if_true]
    exact .exist hold
  have hcontains : a.peers.contains peerId = false := by
    rw [← Bool.not_eq_true, LinkedMap.contains_iff]
    exact hold
  by_cases hfull : maxPeers config d ≤ a.counter d
  · by_cases hreserved : isReserved config peerId = true
    · have htype : peerTypeOf config peerId = .reserved := peerTypeOf_eq_reserved_iff.2 hreserved
      cases hfind : a.peers.entries.find? (replaceable d) with
      | none =>
          simp only [hcontains, hfull, htype, if_true, if_false, Bool.false_eq_true]
          refine .full hold hfull fun _ e he => ?_
          exact List.find?_eq_none.1 hfind e he
      | some e =>
          obtain ⟨removed, state, type⟩ := e
          have hmem := List.mem_of_find?_eq_some hfind
          have hreplaceable := List.find?_some hfind
          simp only [replaceable, Bool.and_eq_true, decide_eq_true_eq] at hreplaceable
          obtain ⟨rfl, hnormal⟩ := hreplaceable
          simp only [hcontains, hfull, htype, if_true, if_false, Bool.false_eq_true]
          cases state <;> exact .replaced hold hfull hreserved hmem rfl hnormal
    · have htype : peerTypeOf config peerId ≠ .reserved :=
        fun h => hreserved (peerTypeOf_eq_reserved_iff.1 h)
      simp only [hcontains, hfull, htype, if_true, if_false, Bool.false_eq_true]
      exact .full hold hfull fun h => absurd h hreserved
  · simp only [hcontains, hfull, if_false, Bool.false_eq_true, peers_increase]
    exact .inserted hold (Nat.lt_of_not_le hfull)

theorem removePeer_of_mem {info : PeerInfo} (h : (peerId, info) ∈ a.peers.entries) :
    a.removePeer peerId =
      { a.decrease info.peerState with peers := a.peers.remove peerId } := by
  rw [removePeer, LinkedMap.get?_eq_some_iff.2 h]
  simp only [peers_decrease]

theorem removePeer_of_notMem (h : peerId ∉ a.peers.keys) : a.removePeer peerId = a := by
  rw [removePeer, LinkedMap.get?_eq_none_iff.2 h]

theorem mem_entries_removePeer {e : PeerId × PeerInfo} :
    e ∈ (a.removePeer peerId).peers.entries ↔ e ∈ a.peers.entries ∧ e.1 ≠ peerId := by
  by_cases hkey : peerId ∈ a.peers.keys
  · obtain ⟨info, hmem⟩ := LinkedMap.mem_keys.1 hkey
    rw [removePeer_of_mem hmem]
    exact LinkedMap.mem_entries_remove
  · rw [removePeer_of_notMem hkey]
    refine (and_iff_left_of_imp fun he => ?_).symm
    rintro rfl
    exact hkey (LinkedMap.mem_keys_of_mem he)

theorem mem_keys_removePeer {k : PeerId} :
    k ∈ (a.removePeer peerId).peers.keys ↔ k ∈ a.peers.keys ∧ k ≠ peerId := by
  rw [LinkedMap.mem_keys, LinkedMap.mem_keys]
  simp [mem_entries_removePeer]

/-! ## Counters -/

def inState (d : PeerState) (e : PeerId × PeerInfo) : Bool := e.2.peerState = d

/-- The counters count the peers and are not above the configured numbers. -/
structure Counted (a : ActivePeers) (config : PeerManagerConfig) : Prop where
  counter : ∀ d, a.counter d = a.peers.count (inState d)
  le : ∀ d, a.counter d ≤ maxPeers config d

theorem Counted.lt (h : a.Counted config) (d : PeerState) : a.counter d < 2 ^ 32 :=
  Nat.lt_of_le_of_lt (h.le d) (maxPeers_lt config d)

theorem Counted.insertion (h : a.Counted config)
    (hinsertion : Insertion a config peerId d a' result) : a'.Counted config := by
  cases hinsertion with
  | inserted hnew hroom =>
      have hlt : a.counter d + 1 < 2 ^ 32 := Nat.lt_of_le_of_lt hroom (maxPeers_lt config d)
      constructor
      · intro d'
        have hcounter := counter_increase a d d'
        rw [wrapAdd_of_lt hlt] at hcounter
        refine hcounter.trans ?_
        rw [LinkedMap.count_insert_of_notMem _ hnew, ← h.counter d']
        by_cases hd : d = d'
        · subst hd
          simp [inState]
        · simp [inState, hd]
      · intro d'
        have hcounter := counter_increase a d d'
        rw [wrapAdd_of_lt hlt] at hcounter
        refine Nat.le_trans (Nat.le_of_eq hcounter) ?_
        split
        case isTrue hd => exact hd ▸ hroom
        case isFalse hd => exact h.le d'
  | @replaced removed info hnew hfull hreserved hmem hstate htype =>
      have hcounter : ∀ d', ((a.increase d).decrease d).counter d' = a.counter d' := by
        intro d'
        rw [counter_decrease, counter_increase, counter_increase, if_pos rfl,
          wrapSub_wrapAdd (h.lt d)]
        by_cases hd : d = d'
        · rw [if_pos hd, hd]
        · rw [if_neg hd, if_neg hd]
      have hne : removed ≠ peerId := by
        rintro rfl
        exact hnew (LinkedMap.mem_keys_of_mem hmem)
      have hmem' : (removed, info) ∈ (a.peers.insert peerId ⟨d, .reserved⟩).entries :=
        LinkedMap.mem_entries_insert.2 (Or.inl ⟨hmem, hne⟩)
      constructor
      · intro d'
        refine (hcounter d').trans ?_
        have hremove := LinkedMap.count_remove_of_mem (inState d') hmem'
        rw [LinkedMap.count_insert_of_notMem _ hnew, ← h.counter d'] at hremove
        have hsame : inState d' (removed, info) = inState d' (peerId, ⟨d, .reserved⟩) := by
          simp [inState, hstate]
        rw [hsame] at hremove
        exact (Nat.add_right_cancel hremove).symm
      · intro d'
        exact Nat.le_trans (Nat.le_of_eq (hcounter d')) (h.le d')
  | exist hold => exact h
  | full hnew hfull hnone => exact h

theorem Counted.removePeer (h : a.Counted config) : (a.removePeer peerId).Counted config := by
  by_cases hkey : peerId ∉ a.peers.keys
  · rw [removePeer_of_notMem hkey]
    exact h
  · obtain ⟨info, hmem⟩ := LinkedMap.mem_keys.1 (not_not.1 hkey)
    rw [removePeer_of_mem hmem]
    have hpos : 1 ≤ a.counter info.peerState := by
      rw [h.counter]
      exact (LinkedMap.count_pos_iff _).2 ⟨_, hmem, by simp [inState]⟩
    have hcounter : ∀ d', (a.decrease info.peerState).counter d' =
        if info.peerState = d' then a.counter info.peerState - 1 else a.counter d' := by
      intro d'
      rw [counter_decrease, wrapSub_of_le (h.lt _) hpos]
    constructor
    · intro d'
      refine (hcounter d').trans ?_
      have hremove := LinkedMap.count_remove_of_mem (inState d') hmem
      rw [← h.counter d'] at hremove
      by_cases hd : info.peerState = d'
      · rw [if_pos hd, hd]
        simp only [inState, hd, decide_true, if_true] at hremove
        exact (Nat.eq_sub_of_add_eq hremove).symm
      · rw [if_neg hd]
        simp only [inState, hd, decide_false, Bool.false_eq_true, if_false] at hremove
        exact hremove.symm
    · intro d'
      refine Nat.le_trans (Nat.le_of_eq (hcounter d')) ?_
      split
      case isTrue hd => exact Nat.le_trans (Nat.sub_le _ _) (hd ▸ h.le _)
      case isFalse hd => exact h.le d'

theorem Counted.congr {config' : PeerManagerConfig} (h : a.Counted config)
    (hmax : ∀ d, maxPeers config' d = maxPeers config d) : a.Counted config' :=
  ⟨h.counter, fun d => hmax d ▸ h.le d⟩

end ActivePeers

/-! ## Candidates -/

/-- A peer it is allowed to connect to. -/
def Allowed (config : PeerManagerConfig) (peerId : PeerId) : Prop :=
  config.reservedOnly = true → isReserved config peerId = true

theorem takePeer_cases (inactive : InactivePeers) (config : PeerManagerConfig) :
    (inactive.takePeer config = none ∧ ∀ p ∈ inactive.keys, ¬ Allowed config p) ∨
      ∃ p ∈ inactive.keys, Allowed config p ∧
        inactive.takePeer config = some (inactive.remove p, p) := by
  rw [InactivePeers.takePeer]
  cases hreserved : inactive.keys.find? (isReserved config) with
  | some p =>
      have hp : isReserved config p = true := List.find?_some hreserved
      exact Or.inr ⟨p, List.mem_of_find?_eq_some hreserved, fun _ => hp, rfl⟩
  | none =>
      have hnone : ∀ p ∈ inactive.keys, ¬ isReserved config p = true :=
        List.find?_eq_none.1 hreserved
      cases honly : config.reservedOnly with
      | true => exact Or.inl ⟨rfl, fun p hp hallowed => hnone p hp (hallowed honly)⟩
      | false =>
          have hallowed : ∀ p, Allowed config p := fun p h => by
            rw [honly] at h
            cases h
          simp only [Bool.false_eq_true, if_false]
          cases hnormal : inactive.keys.find? fun p => !isReserved config p with
          | some p => exact Or.inr ⟨p, List.mem_of_find?_eq_some hnormal, hallowed p, rfl⟩
          | none =>
              refine Or.inl ⟨rfl, fun p hp => ?_⟩
              have hother := List.find?_eq_none.1 hnormal p hp
              simp only [Bool.not_eq_true', Bool.not_eq_false] at hother
              exact absurd hother (hnone p hp)

/-! ## Rounds -/

/-- A peer becomes active, maybe in the place of another one. What is sent is
about these two. -/
inductive Admitted (m : PeerManager) (p : PeerId) (d : PeerState) : PeerManager → Prop
  | inserted {a : ActivePeers} {out : List OutMessage}
      (hinsertion : m.active.Insertion m.config p d a (.inserted p))
      (hout : ∀ q, .connect q ∈ out → q = p) :
      Admitted m p d
        { m with
          active := a
          inactive := m.inactive.remove p
          outMessages := m.outMessages ++ out }
  | replaced {a : ActivePeers} {removed : PeerId} {out : List OutMessage}
      (hinsertion : m.active.Insertion m.config p d a (.replaced p removed))
      (hout : ∀ q, .connect q ∈ out → q = p) :
      Admitted m p d
        { m with
          active := a
          inactive := InactivePeers.insertPeer (m.inactive.remove p) removed
          outMessages := m.outMessages ++ out }

/-- One round of the loop of `activate`, and whether there is another one. -/
inductive Round (m : PeerManager) : PeerManager → Bool → Prop
  | none (hnone : ∀ p ∈ m.inactive.keys, ¬ Allowed m.config p) : Round m m false
  | admitted {p : PeerId} {m' : PeerManager} (hp : p ∈ m.inactive.keys)
      (hallowed : Allowed m.config p) (hadmitted : Admitted m p .Out m') : Round m m' true
  | exist {p : PeerId} (hp : p ∈ m.inactive.keys) (hold : p ∈ m.active.peers.keys) :
      Round m { m with inactive := m.inactive.remove p } true
  | full {p : PeerId} (hp : p ∈ m.inactive.keys) (hnew : p ∉ m.active.peers.keys)
      (hfull : m.config.maxOutPeers ≤ m.active.outPeers) :
      Round m { m with inactive := m.inactive.insertPeer p } false

theorem activateRound_spec (m : PeerManager) :
    Round m m.activateRound.1 m.activateRound.2 := by
  unfold PeerManager.activateRound
  rcases takePeer_cases m.inactive m.config with ⟨hnone, hall⟩ | ⟨p, hp, hallowed, hsome⟩
  · rw [hnone]
    exact .none hall
  · rw [hsome]
    have hinsertion := m.active.insertion m.config p .Out
    simp only
    cases hresult : m.active.insertPeer p .Out m.config with
    | mk a result =>
        rw [hresult] at hinsertion
        have hcases := hinsertion
        cases hcases with
        | inserted hnew hroom =>
            exact .admitted hp hallowed (.inserted hinsertion fun q hq => by simpa using hq)
        | @replaced removed info hnew hfull hreserved hmem hstate htype =>
            have hout : ∀ q, .connect q ∈ [OutMessage.connect p, .drop removed] → q = p :=
              fun q hq => by simpa using hq
            have hadmitted := Admitted.replaced hinsertion hout
            simp only [PeerManager.send, List.append_assoc, List.singleton_append]
            exact .admitted hp hallowed hadmitted
        | exist hold => exact .exist hp hold
        | full hnew hfull hnone =>
            simp only [InactivePeers.insertPeer, LinkedMap.insert_remove_self]
            exact .full hp hnew hfull

/-! ## The loop ends -/

/-- A new active peer uses up a free place or a replaceable peer. -/
theorem Admitted.rounds_lt {m m' : PeerManager} {p : PeerId} (h : Admitted m p .Out m')
    (hcounted : m.active.Counted m.config) (hp : p ∈ m.inactive.keys) : m'.rounds < m.rounds := by
  have hlength := LinkedMap.length_remove hp
  cases h with
  | inserted hinsertion hout =>
      cases hinsertion with
      | inserted hnew hroom =>
          have hroom' : m.active.outPeers < m.config.maxOutPeers := hroom
          have hlt : m.active.outPeers + 1 < 2 ^ 32 :=
            Nat.lt_of_le_of_lt hroom' m.config.maxOutPeers_lt
          have hcount := LinkedMap.count_insert_of_notMem
            (v := ⟨.Out, peerTypeOf m.config p⟩) (ActivePeers.replaceable .Out) hnew
          have hone : (if ActivePeers.replaceable .Out (p, ⟨.Out, peerTypeOf m.config p⟩) then 1
              else 0) ≤ 1 := by
            split <;> omega
          simp only [PeerManager.rounds, ActivePeers.increase, wrapAdd_of_lt hlt, hcount]
          omega
  | @replaced _ removed _ hinsertion hout =>
      cases hinsertion with
      | @replaced _ info hnew hfull hreserved hmem hstate htype =>
          have hsame : wrapSub 32 (wrapAdd 32 m.active.outPeers 1) 1 = m.active.outPeers :=
            wrapSub_wrapAdd (hcounted.lt .Out)
          have hne : removed ≠ p := by
            rintro rfl
            exact hnew (LinkedMap.mem_keys_of_mem hmem)
          have hmem' : (removed, info) ∈ (m.active.peers.insert p ⟨.Out, .reserved⟩).entries :=
            LinkedMap.mem_entries_insert.2 (Or.inl ⟨hmem, hne⟩)
          have hcount := LinkedMap.count_remove_of_mem (ActivePeers.replaceable .Out) hmem'
          rw [LinkedMap.count_insert_of_notMem _ hnew] at hcount
          have hone : ActivePeers.replaceable .Out (removed, info) = true := by
            simp [ActivePeers.replaceable, hstate, htype]
          have hzero : ActivePeers.replaceable .Out (p, ⟨.Out, .reserved⟩) = false := by
            simp [ActivePeers.replaceable]
          simp only [hone, hzero, if_true, Bool.false_eq_true, if_false] at hcount
          have hinactive := LinkedMap.length_insert_le (m.inactive.remove p) removed ()
          simp only [PeerManager.rounds, ActivePeers.increase, ActivePeers.decrease, hsame,
            InactivePeers.insertPeer]
          omega

/-- A round after which there is another one uses something up. -/
theorem Round.rounds_lt {m m' : PeerManager} (h : Round m m' true)
    (hcounted : m.active.Counted m.config) : m'.rounds < m.rounds := by
  cases h with
  | admitted hp hallowed hadmitted => exact hadmitted.rounds_lt hcounted hp
  | exist hp hold =>
      have hlength := LinkedMap.length_remove hp
      simp only [PeerManager.rounds]
      omega

theorem Admitted.counted {m m' : PeerManager} {p : PeerId} {d : PeerState}
    (h : Admitted m p d m') (hcounted : m.active.Counted m.config) :
    m'.active.Counted m'.config := by
  cases h with
  | inserted hinsertion hout => exact hcounted.insertion hinsertion
  | replaced hinsertion hout => exact hcounted.insertion hinsertion

theorem Round.counted {m m' : PeerManager} {more : Bool} (h : Round m m' more)
    (hcounted : m.active.Counted m.config) : m'.active.Counted m'.config := by
  cases h with
  | none hnone => exact hcounted
  | admitted hp hallowed hadmitted => exact hadmitted.counted hcounted
  | exist hp hold => exact hcounted
  | full hp hnew hfull => exact hcounted

/-- Enough rounds are enough, and more of them change nothing. -/
theorem exists_activateIn {m : PeerManager} (hcounted : m.active.Counted m.config) {n : Nat}
    (hn : m.rounds < n) : ∃ m', ∀ k, n ≤ k → PeerManager.activateIn k m = some m' := by
  induction n generalizing m with
  | zero => exact absurd hn (Nat.not_lt_zero _)
  | succ n ih =>
      have hround := activateRound_spec m
      cases hresult : m.activateRound with
      | mk m₁ more =>
          rw [hresult] at hround
          have hstep : ∀ k, n + 1 ≤ k → ∃ j, n ≤ j ∧ k = j + 1 := fun k hk =>
            ⟨k - 1, by omega, by omega⟩
          cases more with
          | false =>
              refine ⟨m₁, fun k hk => ?_⟩
              obtain ⟨j, -, rfl⟩ := hstep k hk
              rw [PeerManager.activateIn, hresult]
          | true =>
              have hless := hround.rounds_lt hcounted
              obtain ⟨m', hm'⟩ := ih (hround.counted hcounted) (by omega)
              refine ⟨m', fun k hk => ?_⟩
              obtain ⟨j, hj, rfl⟩ := hstep k hk
              rw [PeerManager.activateIn, hresult]
              exact hm' j hj

/-- `activate` is where the loop ends. -/
theorem activateIn_eq_activate {m : PeerManager} (hcounted : m.active.Counted m.config) {k : Nat}
    (hk : m.rounds < k) : PeerManager.activateIn k m = some m.activate := by
  obtain ⟨m', hm'⟩ := exists_activateIn hcounted (Nat.lt_succ_self m.rounds)
  rw [hm' k hk, PeerManager.activate, hm' _ (Nat.le_refl _)]
  rfl

/-- What every round keeps, `activate` keeps. -/
theorem activate_induction {I : PeerManager → Prop} {m : PeerManager}
    (hround : ∀ m m' more, I m → Round m m' more → I m') (hm : I m) : I m.activate := by
  have hin : ∀ (n : Nat) (m m' : PeerManager), I m → PeerManager.activateIn n m = some m' →
      I m' := by
    intro n
    induction n with
    | zero => exact fun m m' _ h => nomatch h
    | succ n ih =>
        intro m m' hm h
        have hspec := hround m _ _ hm (activateRound_spec m)
        rw [PeerManager.activateIn] at h
        split at h
        case h_1 m₁ heq =>
          cases h
          rw [heq] at hspec
          exact hspec
        case h_2 m₁ heq =>
          rw [heq] at hspec
          exact ih _ _ hspec h
  rw [PeerManager.activate]
  cases hresult : PeerManager.activateIn (m.rounds + 1) m with
  | none => exact hm
  | some m' => exact hin _ _ _ hm hresult

/-- There is no room for another outgoing peer, or nobody to connect to. -/
def Settled (m : PeerManager) : Prop :=
  m.active.outPeers = m.config.maxOutPeers ∨ ∀ p ∈ m.inactive.keys, ¬ Allowed m.config p

/-- The last round finds no room or no candidate. -/
theorem settled_activate {m : PeerManager} (hcounted : m.active.Counted m.config) :
    Settled m.activate := by
  have hin : ∀ (n : Nat) (m m' : PeerManager), m.active.Counted m.config →
      PeerManager.activateIn n m = some m' → Settled m' := by
    intro n
    induction n with
    | zero => exact fun m m' _ h => nomatch h
    | succ n ih =>
        intro m m' hcounted h
        have hspec := activateRound_spec m
        rw [PeerManager.activateIn] at h
        split at h
        case h_1 m₁ heq =>
          cases h
          rw [heq] at hspec
          cases hspec with
          | none hnone => exact Or.inr hnone
          | full hp hnew hfull => exact Or.inl (Nat.le_antisymm (hcounted.le .Out) hfull)
        case h_2 m₁ heq =>
          rw [heq] at hspec
          exact ih _ _ (hspec.counted hcounted) h
  exact hin _ _ _ hcounted (activateIn_eq_activate hcounted (Nat.lt_succ_self _))

/-! ## Events -/

/-- The states in which the handlers call `activate`. -/
inductive Activating (m : PeerManager) : Event → PeerManager → Prop
  | discovered {p : PeerId} (hnew : p ∉ m.active.peers.keys) :
      Activating m (.discovered p) (m.candidate p)
  | dropped {p : PeerId} : Activating m (.dropped p) (m.makeInactive p)
  | addReserved {p : PeerId} (hnew : p ∉ m.active.peers.keys) :
      Activating m (.message (.addReservedPeer p)) ((m.addReserved p).candidate p)
  | removeReserved {p : PeerId} :
      Activating m (.message (.removeReservedPeer p)) (m.removeReserved p)
  | setReservedOnly {reservedOnly : Bool} :
      Activating m (.message (.setReservedOnly reservedOnly)) (m.setReservedOnly reservedOnly)
  | reportPeer {p : PeerId} {report : PeerReport} (hlow : m.newScore p report < MIN_SCORE) :
      Activating m (.message (.reportPeer p report))
        ((m.setScore p (m.newScore p report)).forget p)

/-- What the handlers do without `activate`. -/
inductive Quiet (m : PeerManager) : Event → PeerManager → Prop
  | discovered {p : PeerId} (hold : p ∈ m.active.peers.keys) : Quiet m (.discovered p) m
  | rejected {p : PeerId} {id : IncomingId} (hnot : ¬ Allowed m.config p) :
      Quiet m (.incoming p id) (m.send (.reject id))
  | admitted {p : PeerId} {id : IncomingId} {m' : PeerManager} (hallowed : Allowed m.config p)
      (hadmitted : Admitted m p .In m') : Quiet m (.incoming p id) m'
  | exist {p : PeerId} {id : IncomingId} (hallowed : Allowed m.config p)
      (hold : p ∈ m.active.peers.keys) : Quiet m (.incoming p id) (m.send (.accept id))
  | full {p : PeerId} {id : IncomingId} (hallowed : Allowed m.config p)
      (hnew : p ∉ m.active.peers.keys) :
      Quiet m (.incoming p id) ((m.candidate p).send (.reject id))
  | addReserved {p : PeerId} (hold : p ∈ m.active.peers.keys) :
      Quiet m (.message (.addReservedPeer p)) (m.addReserved p)
  | reportPeer {p : PeerId} {report : PeerReport} (hhigh : ¬ m.newScore p report < MIN_SCORE) :
      Quiet m (.message (.reportPeer p report)) (m.setScore p (m.newScore p report))

theorem Activating.step_eq {m m₀ : PeerManager} {event : Event} (h : Activating m event m₀) :
    m.step event = m₀.activate := by
  cases h with
  | discovered hnew => simp [PeerManager.step, PeerManager.discovered, LinkedMap.contains, hnew]
  | dropped => rfl
  | addReserved hnew =>
      simp [PeerManager.step, PeerManager.handle, PeerManager.onAddReservedPeer,
        PeerManager.addReserved, LinkedMap.contains, hnew]
  | removeReserved => rfl
  | setReservedOnly => rfl
  | reportPeer hlow =>
      simp [PeerManager.step, PeerManager.handle, PeerManager.onReportPeer, hlow]

theorem incoming_quiet (m : PeerManager) (p : PeerId) (id : IncomingId) :
    Quiet m (.incoming p id) (m.incoming p id) := by
  unfold PeerManager.incoming
  split
  case isTrue hreject =>
    simp only [Bool.and_eq_true, Bool.not_eq_true'] at hreject
    refine .rejected fun hallowed => ?_
    rw [hallowed hreject.1] at hreject
    cases hreject.2
  case isFalse hnot =>
    have hallowed : Allowed m.config p := by
      intro honly
      simpa [honly] using hnot
    have hinsertion := m.active.insertion m.config p .In
    cases hresult : m.active.insertPeer p .In m.config with
    | mk a result =>
        rw [hresult] at hinsertion
        have hcases := hinsertion
        cases hcases with
        | inserted hnew hroom =>
            exact .admitted hallowed (.inserted hinsertion fun q hq => by simp at hq)
        | @replaced removed info hnew hfull hreserved hmem hstate htype =>
            have hout : ∀ q, .connect q ∈ [OutMessage.accept id, .drop removed] → q = p :=
              fun q hq => by simp at hq
            have hadmitted := Admitted.replaced hinsertion hout
            simp only [PeerManager.send, PeerManager.candidate, List.append_assoc,
              List.singleton_append]
            exact .admitted hallowed hadmitted
        | exist hold => exact .exist hallowed hold
        | full hnew hfull hnone => exact .full hallowed hnew

/-- An event has the effect that its handler has without `activate`, or is
followed by `activate`. -/
theorem step_cases (m : PeerManager) (event : Event) :
    Quiet m event (m.step event) ∨ ∃ m₀, Activating m event m₀ := by
  cases event with
  | discovered p =>
      by_cases hold : p ∈ m.active.peers.keys
      · have heq : m.step (.discovered p) = m := by
          simp [PeerManager.step, PeerManager.discovered, LinkedMap.contains, hold]
        rw [heq]
        exact Or.inl (.discovered hold)
      · exact Or.inr ⟨_, .discovered hold⟩
  | dropped p => exact Or.inr ⟨_, .dropped⟩
  | incoming p id => exact Or.inl (incoming_quiet m p id)
  | message message =>
      cases message with
      | addReservedPeer p =>
          by_cases hold : p ∈ m.active.peers.keys
          · have heq : m.step (.message (.addReservedPeer p)) = m.addReserved p := by
              simp [PeerManager.step, PeerManager.handle, PeerManager.onAddReservedPeer,
                PeerManager.addReserved, LinkedMap.contains, hold]
            rw [heq]
            exact Or.inl (.addReserved hold)
          · exact Or.inr ⟨_, .addReserved hold⟩
      | removeReservedPeer p => exact Or.inr ⟨_, .removeReserved⟩
      | setReservedOnly reservedOnly => exact Or.inr ⟨_, .setReservedOnly⟩
      | reportPeer p report =>
          by_cases hlow : m.newScore p report < MIN_SCORE
          · exact Or.inr ⟨_, .reportPeer hlow⟩
          · have heq : m.step (.message (.reportPeer p report)) =
                m.setScore p (m.newScore p report) := by
              simp [PeerManager.step, PeerManager.handle, PeerManager.onReportPeer, hlow]
            rw [heq]
            exact Or.inl (.reportPeer hlow)

/-! ## Who is active -/

section Keys

variable {m m' : PeerManager} {p q : PeerId} {d : PeerState}

theorem Admitted.config_eq (h : Admitted m p d m') : m'.config = m.config := by
  cases h <;> rfl

theorem Admitted.sent (h : Admitted m p d m') :
    ∃ out, m'.outMessages = m.outMessages ++ out ∧ ∀ q, .connect q ∈ out → q = p := by
  cases h with
  | inserted hinsertion hout => exact ⟨_, rfl, hout⟩
  | replaced hinsertion hout => exact ⟨_, rfl, hout⟩

/-- Only the entry of the admitted peer is new. -/
theorem Admitted.entries (h : Admitted m p d m') {e : PeerId × PeerInfo}
    (he : e ∈ m'.active.peers.entries) :
    e ∈ m.active.peers.entries ∨ e = (p, ⟨d, peerTypeOf m.config p⟩) := by
  cases h with
  | inserted hinsertion hout =>
      cases hinsertion with
      | inserted hnew hroom => exact (LinkedMap.mem_entries_insert.1 he).imp_left And.left
  | replaced hinsertion hout =>
      cases hinsertion with
      | replaced hnew hfull hreserved hmem hstate htype =>
          have hinsert := (LinkedMap.mem_entries_remove.1 he).1
          rw [peerTypeOf_eq_reserved_iff.2 hreserved]
          exact (LinkedMap.mem_entries_insert.1 hinsert).imp_left And.left

theorem Admitted.keys (h : Admitted m p d m') (hq : q ∈ m'.active.peers.keys) :
    q ∈ m.active.peers.keys ∨ q = p := by
  obtain ⟨info, hmem⟩ := LinkedMap.mem_keys.1 hq
  rcases h.entries hmem with hold | hnew
  · exact Or.inl (LinkedMap.mem_keys_of_mem hold)
  · exact Or.inr (congrArg Prod.fst hnew)

/-- The candidates are those before, without the admitted peer, and the one that
has lost its place. -/
theorem Admitted.inactive (h : Admitted m p d m') (hq : q ∈ m'.inactive.keys) :
    q ∈ m.inactive.keys ∧ q ≠ p ∨ q ∈ m.active.peers.keys ∧ q ∉ m'.active.peers.keys := by
  cases h with
  | inserted hinsertion hout => exact Or.inl (LinkedMap.mem_keys_remove.1 hq)
  | replaced hinsertion hout =>
      cases hinsertion with
      | replaced hnew hfull hreserved hmem hstate htype =>
          rcases LinkedMap.mem_keys_insert.1 hq with hq | rfl
          · exact Or.inl (LinkedMap.mem_keys_remove.1 hq)
          · refine Or.inr ⟨LinkedMap.mem_keys_of_mem hmem, fun hkey => ?_⟩
            exact (LinkedMap.mem_keys_remove.1 hkey).2 rfl

/-- The peers of a list are made inactive one after another. -/
theorem foldl_makeInactive (m : PeerManager) (ps : List PeerId) :
    let m' := ps.foldl (fun m p => (m.makeInactive p).send (.drop p)) m
    m'.config = m.config ∧ m'.scores = m.scores ∧
      (∀ e, e ∈ m'.active.peers.entries ↔ e ∈ m.active.peers.entries ∧ e.1 ∉ ps) ∧
      (∀ q, q ∈ m'.inactive.keys ↔ q ∈ m.inactive.keys ∨ q ∈ ps) ∧
      m'.outMessages = m.outMessages ++ ps.map OutMessage.drop := by
  induction ps generalizing m with
  | nil => simp
  | cons p ps ih =>
      obtain ⟨hconfig, hscores, hentries, hkeys, hout⟩ := ih ((m.makeInactive p).send (.drop p))
      rw [List.foldl_cons]
      refine ⟨hconfig, hscores, fun e => ?_, fun q => ?_, ?_⟩
      · rw [hentries, List.mem_cons, not_or, ← and_assoc]
        exact and_congr_left fun _ => ActivePeers.mem_entries_removePeer
      · rw [hkeys, List.mem_cons, ← or_assoc]
        exact or_congr_left LinkedMap.mem_keys_insert
      · rw [hout]
        simp [PeerManager.send, PeerManager.makeInactive]

theorem isReserved_iff {config : PeerManagerConfig} :
    isReserved config p = true ↔ p ∈ config.reserved.keys := LinkedMap.contains_iff

end Keys

end Finastate.PeerManager
