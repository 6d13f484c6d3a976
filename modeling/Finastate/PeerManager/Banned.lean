import Finastate.PeerManager.Bookkeeping

/-!
# Banned peers

A peer is banned from the report that leaves it with a score below `MIN_SCORE`,
or from a fatal report without a positive score, until its score rises. The
score is looked at when a report comes in and nowhere else. So a banned peer
stays out as long as no other event makes it a candidate or an active peer
again, and a fatal report does something only where the score is not zero.
`Out.step_iff` says that nothing less keeps the banned peers from being candidates.
-/

namespace Finastate.PeerManager

variable {m m' m₀ : PeerManager} {p : PeerId} {d : PeerState} {event : Event} {more : Bool}
  {banned : PeerId → Bool}

def score (m : PeerManager) (p : PeerId) : Int := (AssocMap.get? m.scores p).getD 0

/-- Who is banned after an event. -/
def ban (m : PeerManager) (banned : PeerId → Bool) : Event → PeerId → Bool
  | .message (.reportPeer p report), q =>
      if q = p then
        decide (m.newScore p report < MIN_SCORE) || decide (report = MIN_SCORE ∧ m.score p ≤ 0) ||
          (banned p && decide (m.newScore p report ≤ m.score p))
      else banned q
  | _, q => banned q

/-- The event leaves banned peers alone, and is no fatal report with a score of zero
of a peer that is active or a candidate. -/
def Heeded (m : PeerManager) (banned : PeerId → Bool) : Event → Prop
  | .discovered p => banned p = false
  | .dropped p => banned p = false
  | .incoming p _ => banned p = true → ¬ Allowed m.config p
  | .message (.addReservedPeer p) => banned p = false
  | .message (.removeReservedPeer p) => m.config.reservedOnly = true → banned p = false
  | .message (.setReservedOnly _) => True
  | .message (.reportPeer p report) => report = MIN_SCORE → m.score p = 0 →
      p ∉ m.active.peers.keys ∧ p ∉ m.inactive.keys

/-- The states of runs with the peers that are banned in them. -/
inductive Watched (P : PeerManager → (PeerId → Bool) → Event → Prop) :
    PeerManager → (PeerId → Bool) → Prop
  | new (config : PeerManagerConfig) : Watched P (.new config) fun _ => false
  | step {m : PeerManager} {banned : PeerId → Bool} {event : Event} (hwatched : Watched P m banned)
      (hevent : P m banned event) : Watched P (m.step event) (ban m banned event)

/-- The messages sent on an event. -/
def emitted (m : PeerManager) (event : Event) : List OutMessage :=
  (m.step event).outMessages.drop m.outMessages.length

/-! ## Absent peers -/

def Absent (m : PeerManager) (p : PeerId) : Prop :=
  p ∉ m.active.peers.keys ∧ p ∉ m.inactive.keys

/-- The peer is absent, and there has been no message to connect to it. -/
def Silent (m : PeerManager) (p : PeerId) (m' : PeerManager) : Prop :=
  Absent m' p ∧ ∃ out, m'.outMessages = m.outMessages ++ out ∧ OutMessage.connect p ∉ out

theorem Silent.trans (h : Silent m p m₀) (h' : Silent m₀ p m') : Silent m p m' := by
  obtain ⟨-, out, heq, hout⟩ := h
  obtain ⟨habsent, out', heq', hout'⟩ := h'
  refine ⟨habsent, out ++ out', ?_, ?_⟩
  · rw [heq', heq, List.append_assoc]
  · simp [hout, hout']

namespace Absent

theorem silent (h : Absent m' p) (hout : m'.outMessages = m.outMessages) : Silent m p m' :=
  ⟨h, [], by simp [hout], by simp⟩

theorem send (h : Absent m p) {message : OutMessage} (hne : message ≠ .connect p) :
    Silent m p (m.send message) :=
  ⟨h, [message], rfl, by simpa using hne.symm⟩

theorem candidate (h : Absent m p) {q : PeerId} (hne : p ≠ q) : Absent (m.candidate q) p :=
  ⟨h.1, fun hmem => (LinkedMap.mem_keys_insert.1 hmem).elim h.2 hne⟩

theorem makeInactive (h : Absent m p) {q : PeerId} (hne : p ≠ q) : Absent (m.makeInactive q) p :=
  ⟨fun hmem => h.1 (ActivePeers.mem_keys_removePeer.1 hmem).1,
    fun hmem => (LinkedMap.mem_keys_insert.1 hmem).elim h.2 hne⟩

theorem forget {q : PeerId} (h : p ≠ q → Absent m p) : Silent m p (m.forget q) := by
  have habsent : Absent { m with
      active := m.active.removePeer q, inactive := m.inactive.remove q } p := by
    constructor
    · intro hmem
      obtain ⟨hmem, hne⟩ := ActivePeers.mem_keys_removePeer.1 hmem
      exact (h hne).1 hmem
    · intro hmem
      obtain ⟨hmem, hne⟩ := LinkedMap.mem_keys_remove.1 hmem
      exact (h hne).2 hmem
  rw [PeerManager.forget]
  split
  case isTrue hactive => exact (habsent.silent rfl).trans (habsent.send (by rintro ⟨⟩))
  case isFalse hinactive => exact habsent.silent rfl

theorem admitted (h : Absent m p) {q : PeerId} (hadmitted : Admitted m q d m') (hne : p ≠ q) :
    Silent m p m' := by
  obtain ⟨out, heq, hout⟩ := hadmitted.sent
  refine ⟨⟨fun hmem => ?_, fun hmem => ?_⟩, out, heq, fun hmem => hne (hout p hmem)⟩
  · exact (hadmitted.keys hmem).elim h.1 hne
  · rcases hadmitted.inactive hmem with ⟨hold, -⟩ | ⟨hold, -⟩
    · exact h.2 hold
    · exact h.1 hold

theorem round (h : Absent m p) (hround : Round m m' more) : Silent m p m' := by
  cases hround with
  | none hnone => exact h.silent rfl
  | admitted hq hallowed hadmitted =>
      refine h.admitted hadmitted ?_
      rintro rfl
      exact h.2 hq
  | @exist q hq hold =>
      have habsent : Absent { m with inactive := m.inactive.remove q } p :=
        ⟨h.1, fun hmem => h.2 (LinkedMap.mem_keys_remove.1 hmem).1⟩
      exact habsent.silent rfl
  | full hq hnew hfull =>
      refine Absent.silent (h.candidate ?_) rfl
      rintro rfl
      exact h.2 hq

theorem activate (h : Absent m p) : Silent m p m.activate :=
  activate_induction (I := Silent m p)
    (fun _ _ _ h hround => h.trans (h.1.round hround)) (h.silent rfl)

theorem setReservedOnly (h : Absent m p) (reservedOnly : Bool) :
    Silent m p (m.setReservedOnly reservedOnly) := by
  rw [PeerManager.setReservedOnly]
  split
  case isTrue htrue =>
    obtain ⟨-, -, hentries, hkeys, hout⟩ := foldl_makeInactive
      { m with config := { m.config with reservedOnly } }
      (PeerManager.activeNormalPeers { m with config := { m.config with reservedOnly } })
    refine ⟨⟨fun hmem => ?_, fun hmem => ?_⟩, _, hout, ?_⟩
    · obtain ⟨info, hmem⟩ := LinkedMap.mem_keys.1 hmem
      exact h.1 (LinkedMap.mem_keys_of_mem ((hentries _).1 hmem).1)
    · rcases (hkeys p).1 hmem with hold | hnormal
      · exact h.2 hold
      · exact h.1 (List.mem_filter.1 hnormal).1
    · simp
  case isFalse hfalse => exact Absent.silent h rfl

end Absent

/-! ## Steps -/

/-- A fatal report leaves a negative score below the bound. -/
theorem newScore_lt {report : PeerReport} (hfatal : report = MIN_SCORE) (hneg : m.score p < 0) :
    m.newScore p report < MIN_SCORE := by
  rw [score] at hneg
  rw [PeerManager.newScore]
  cases hscore : AssocMap.get? m.scores p with
  | none =>
      rw [hscore] at hneg
      exact absurd hneg (Int.lt_irrefl 0)
  | some s =>
      rw [hscore, Option.getD_some] at hneg
      simp only [hfatal, addScore, MIN_SCORE]
      split <;> omega

/-- Who is banned after a report of another peer was it before. -/
theorem ban_of_ne {q : PeerId} {report : PeerReport} (hne : p ≠ q) :
    ban m banned (.message (.reportPeer q report)) p = banned p := by
  rw [ban, if_neg hne]

/-- Banned peers are absent. -/
def Out (m : PeerManager) (banned : PeerId → Bool) : Prop := ∀ p, banned p = true → Absent m p

namespace Out

theorem activating (h : Out m banned) (hheeded : Heeded m banned event)
    (hactivating : Activating m event m₀) (hban : ban m banned event p = true) :
    Silent m p m₀ := by
  have hother : ∀ q, banned q = false → banned p = true → p ≠ q := by
    rintro q hq hp rfl
    rw [hp] at hq
    cases hq
  cases hactivating with
  | @discovered q hnew => exact ((h p hban).candidate (hother q hheeded hban)).silent rfl
  | @dropped q => exact ((h p hban).makeInactive (hother q hheeded hban)).silent rfl
  | @addReserved q hnew =>
      have habsent : Absent (m.addReserved q) p := h p hban
      exact (habsent.candidate (hother q hheeded hban)).silent rfl
  | @removeReserved q =>
      have habsent : Absent { m with
          config := { m.config with reserved := m.config.reserved.remove q } } p := h p hban
      rw [PeerManager.removeReserved]
      split
      case isTrue honly =>
        have hmade := habsent.makeInactive (hother q (hheeded honly) hban)
        exact (Absent.silent hmade rfl).trans (hmade.send (by rintro ⟨⟩))
      case isFalse hnot => exact Absent.silent habsent rfl
  | setReservedOnly => exact (h p hban).setReservedOnly _
  | @reportPeer q report hlow =>
      refine Absent.forget (m := m.setScore q (m.newScore q report)) fun hne => ?_
      rw [ban_of_ne hne] at hban
      exact h p hban

/-- A report that does not make a peer leave bans a peer that is absent. -/
theorem report (h : Out m banned) {report : PeerReport}
    (hheeded : Heeded m banned (.message (.reportPeer p report)))
    (hhigh : ¬ m.newScore p report < MIN_SCORE)
    (hban : ban m banned (.message (.reportPeer p report)) p = true) : Absent m p := by
  rw [ban, if_pos rfl, Bool.or_eq_true, Bool.or_eq_true, decide_eq_true_eq, decide_eq_true_eq,
    Bool.and_eq_true] at hban
  rcases hban with (hlow | ⟨hfatal, hscore⟩) | ⟨hold, -⟩
  · exact absurd hlow hhigh
  · refine hheeded hfatal (Int.le_antisymm hscore (Int.not_lt.1 fun hneg => ?_))
    exact hhigh (newScore_lt hfatal hneg)
  · exact h p hold

theorem quiet (h : Out m banned) (hheeded : Heeded m banned event)
    (hquiet : Quiet m event m') (hban : ban m banned event p = true) : Silent m p m' := by
  have hother : ∀ q, Allowed m.config q → (banned q = true → ¬ Allowed m.config q) →
      banned p = true → p ≠ q := by
    rintro q hallowed hnot hp rfl
    exact hnot hp hallowed
  cases hquiet with
  | discovered hold => exact (h p hban).silent rfl
  | rejected hnot => exact (h p hban).send nofun
  | @admitted q id m' hallowed hadmitted =>
      exact (h p hban).admitted hadmitted (hother q hallowed hheeded hban)
  | exist hallowed hold => exact (h p hban).send nofun
  | @full q id hallowed hnew =>
      have hcandidate := (h p hban).candidate (hother q hallowed hheeded hban)
      exact (Absent.silent hcandidate rfl).trans (hcandidate.send nofun)
  | addReserved hold => exact Absent.silent (h p hban) rfl
  | @reportPeer q report hhigh =>
      have habsent : Absent m p := by
        by_cases heq : p = q
        · subst heq
          exact h.report hheeded hhigh hban
        · rw [ban_of_ne heq] at hban
          exact h p hban
      exact Absent.silent habsent rfl

theorem step (h : Out m banned) (hheeded : Heeded m banned event)
    (hban : ban m banned event p = true) : Silent m p (m.step event) := by
  rcases step_cases m event with hquiet | ⟨m₀, hactivating⟩
  · exact h.quiet hheeded hquiet hban
  · rw [hactivating.step_eq]
    have hsilent := h.activating hheeded hactivating hban
    exact hsilent.trans hsilent.1.activate

end Out

/-! ## Nothing less is enough -/

/-- The peer is active or a candidate. -/
def Known (m : PeerManager) (p : PeerId) : Prop :=
  p ∈ m.active.peers.keys ∨ p ∈ m.inactive.keys

theorem Absent.not_known (h : Absent m p) : ¬ Known m p := not_or.2 h

/-- Nobody gets lost when a peer becomes active. -/
theorem Admitted.known {q : PeerId} (h : Admitted m q d m') (hp : Known m p ∨ p = q) :
    Known m' p := by
  cases h with
  | inserted hinsertion hout =>
      cases hinsertion with
      | inserted hnew hroom =>
          by_cases hq : p = q
          · exact Or.inl (LinkedMap.mem_keys_insert.2 (Or.inr hq))
          · rcases hp.resolve_right hq with hactive | hinactive
            · exact Or.inl (LinkedMap.mem_keys_insert.2 (Or.inl hactive))
            · exact Or.inr (LinkedMap.mem_keys_remove.2 ⟨hinactive, hq⟩)
  | @replaced a removed out hinsertion hout =>
      cases hinsertion with
      | replaced hnew hfull hreserved hmem hstate htype =>
          by_cases hremoved : p = removed
          · exact Or.inr (LinkedMap.mem_keys_insert.2 (Or.inr hremoved))
          by_cases hin : p ∈ (m.active.peers.insert q ⟨d, .reserved⟩).keys
          · exact Or.inl (LinkedMap.mem_keys_remove.2 ⟨hin, hremoved⟩)
          · rw [LinkedMap.mem_keys_insert, not_or] at hin
            have hinactive := (hp.resolve_right hin.2).resolve_left hin.1
            exact Or.inr (LinkedMap.mem_keys_insert.2
              (Or.inl (LinkedMap.mem_keys_remove.2 ⟨hinactive, hin.2⟩)))

namespace Known

theorem round (h : Known m p) (hround : Round m m' more) : Known m' p := by
  cases hround with
  | none hnone => exact h
  | admitted hq hallowed hadmitted => exact hadmitted.known (Or.inl h)
  | @exist q hq hold =>
      by_cases heq : p = q
      · exact Or.inl (heq ▸ hold)
      · exact h.imp_right fun hinactive => LinkedMap.mem_keys_remove.2 ⟨hinactive, heq⟩
  | full hq hnew hfull =>
      exact h.imp_right fun hinactive => LinkedMap.mem_keys_insert.2 (Or.inl hinactive)

theorem activate (h : Known m p) : Known m.activate p :=
  activate_induction (I := fun m => Known m p) (fun _ _ _ h hround => h.round hround) h

theorem candidate (m : PeerManager) (p : PeerId) : Known (m.candidate p) p :=
  Or.inr (LinkedMap.mem_keys_insert.2 (Or.inr rfl))

theorem makeInactive (m : PeerManager) (p : PeerId) : Known (m.makeInactive p) p :=
  Or.inr (LinkedMap.mem_keys_insert.2 (Or.inr rfl))

theorem removeReserved (honly : m.config.reservedOnly = true) (p : PeerId) :
    Known (m.removeReserved p) p := by
  rw [PeerManager.removeReserved]
  simp only [honly, if_true]
  exact makeInactive _ p

/-- A peer that may come in is active or a candidate when it has tried. -/
theorem incoming (hallowed : Allowed m.config p) (id : IncomingId) :
    Known (m.incoming p id) p := by
  have hquiet := incoming_quiet m p id
  generalize m.incoming p id = m' at hquiet
  cases hquiet with
  | rejected hnot => exact absurd hallowed hnot
  | admitted hallowed hadmitted => exact hadmitted.known (Or.inr rfl)
  | exist hallowed hold => exact Or.inl hold
  | full hallowed hnew => exact candidate m p

end Known

/-- With a score of zero a fatal report stays at the bound. -/
theorem newScore_of_score (hscore : m.score p = 0) : m.newScore p MIN_SCORE = MIN_SCORE := by
  rw [score] at hscore
  rw [PeerManager.newScore]
  cases hget : AssocMap.get? m.scores p with
  | none => rfl
  | some s =>
      rw [hget, Option.getD_some] at hscore
      rw [hscore]
      decide

/-- A step keeps the banned peers absent if and only if it leaves them alone. -/
theorem Out.step_iff (h : Out m banned) (event : Event) :
    Out (m.step event) (ban m banned event) ↔ Heeded m banned event := by
  refine ⟨fun hstep => ?_, fun hheeded p hban => (h.step hheeded hban).1⟩
  have hactivating {m₀ : PeerManager} {p : PeerId} (hactivating : Activating m event m₀)
      (hknown : Known m₀ p) : ban m banned event p = false := by
    by_contra hban
    rw [Bool.not_eq_false] at hban
    refine (hstep p hban).not_known ?_
    rw [hactivating.step_eq]
    exact hknown.activate
  have hfree {p : PeerId} (hban : (p ∉ m.active.peers.keys) → banned p = false) :
      banned p = false := by
    by_contra hbanned
    exact hbanned (hban (h p (Bool.not_eq_false _ ▸ hbanned)).1)
  cases event with
  | discovered p => exact hfree fun hnew => hactivating (.discovered hnew) (.candidate m p)
  | dropped p => exact hactivating .dropped (.makeInactive m p)
  | incoming p id =>
      intro hban hallowed
      exact (hstep p hban).not_known (.incoming hallowed id)
  | message message =>
      cases message with
      | addReservedPeer p =>
          exact hfree fun hnew => hactivating (.addReserved hnew) (.candidate _ p)
      | removeReservedPeer p =>
          intro honly
          exact hactivating .removeReserved (.removeReserved honly p)
      | setReservedOnly reservedOnly => trivial
      | reportPeer p report =>
          intro hfatal hscore
          have hnew : m.newScore p report = MIN_SCORE := hfatal ▸ newScore_of_score hscore
          have heq : m.step (.message (.reportPeer p report)) =
              m.setScore p (m.newScore p report) := by
            simp [PeerManager.step, PeerManager.handle, PeerManager.onReportPeer, hnew]
          have hban : ban m banned (.message (.reportPeer p report)) p = true := by
            simp [ban, hfatal, hscore]
          have habsent := hstep p hban
          rw [heq] at habsent
          exact habsent

theorem Silent.emitted (h : Silent m p (m.step event)) :
    OutMessage.connect p ∉ emitted m event := by
  obtain ⟨-, out, heq, hout⟩ := h
  rw [PeerManager.emitted, heq, List.drop_left]
  exact hout

/-- An attempt of a peer that is not allowed is rejected. -/
theorem emitted_incoming {id : IncomingId} (h : ¬ Allowed m.config p) :
    emitted m (.incoming p id) = [.reject id] := by
  have heq : m.step (.incoming p id) = m.send (.reject id) := by
    have hquiet := incoming_quiet m p id
    generalize hm' : m.incoming p id = m' at hquiet
    have hstep : m.step (.incoming p id) = m' := hm'
    rw [hstep]
    cases hquiet with
    | rejected hnot => rfl
    | admitted hallowed hadmitted => exact absurd hallowed h
    | exist hallowed hold => exact absurd hallowed h
    | full hallowed hnew => exact absurd hallowed h
  rw [emitted, heq, PeerManager.send, List.drop_left]

/-! ## Runs -/

/-- A banned peer stays out in every run that leaves it alone: it is not active, and on
no event there is a message to connect to it or to accept it. The first event that does
not leave it alone makes it active or a candidate. -/
theorem Watched.out (hwatched : Watched Heeded m banned) :
    (∀ p, banned p = true → p ∉ m.active.peers.keys) ∧
      (∀ event, Heeded m banned event → ∀ p, ban m banned event p = true →
        .connect p ∉ emitted m event ∧
          ∀ id, event = .incoming p id → .accept id ∉ emitted m event) ∧
      ∀ event, ¬ Heeded m banned event →
        ∃ p, ban m banned event p = true ∧ Known (m.step event) p := by
  have hout : Out m banned := by
    induction hwatched with
    | new config => exact fun p hp => nomatch hp
    | step hwatched hheeded ih => exact fun p hp => (ih.step hheeded hp).1
  refine ⟨fun p hp => (hout p hp).1, fun event hheeded p hban => ?_, fun event hnot => ?_⟩
  · refine ⟨(hout.step hheeded hban).emitted, ?_⟩
    rintro id rfl
    rw [emitted_incoming (hheeded hban)]
    simp
  · by_contra hnone
    refine hnot ((hout.step_iff event).1 fun p hban => not_or.1 fun hknown => ?_)
    exact hnone ⟨p, hban, hknown⟩

/-- The active peer `[1]` gets a report that is too bad. -/
theorem out_narrow :
    [1] ∉ ((PeerManager.new narrow).step (.message (.reportPeer [1] (-150)))).active.peers.keys := by
  have hheeded : Heeded (PeerManager.new narrow) (fun _ => false)
      (.message (.reportPeer [1] (-150))) := fun hfatal => absurd hfatal (by decide)
  exact (Watched.out (.step (.new narrow) hheeded)).1 [1] (by decide +kernel)

/-- After a fatal report the peer `[1]` is still active. After a second one it is
dropped, and when it is disconnected there is a message to connect to it. -/
theorem fatal_narrow :
    let fatal : Event := .message (.reportPeer [1] MIN_SCORE)
    let m := (PeerManager.new narrow).step fatal
    let banned := ban (PeerManager.new narrow) (fun _ => false) fatal
    Watched (fun _ _ _ => True) m banned ∧
      banned [1] = true ∧ [1] ∈ m.active.peers.keys ∧
      ban m banned fatal [1] = true ∧ emitted m fatal = [.drop [1]] ∧
      emitted (m.step fatal) (.dropped [1]) = [.connect [1]] := by
  refine ⟨.step (.new narrow) trivial, ?_⟩
  decide +kernel

end Finastate.PeerManager
