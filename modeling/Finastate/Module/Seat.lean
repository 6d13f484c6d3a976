import Finastate.Module.Council

/-!
# The seat of a decision

A seat is a kind of proposals together with what a passed one does and how the
value it decides on is read. `Seat.Sound` says that these belong together and
keep out of each other's way. Under it a call of the seat is counted as it
should be (`Seat.Counted`), and what the seat keeps agrees with the record of
all its proposals and votes (`Seat.Keeps`).
-/

namespace Finastate.Governance

open Executor
open Contract (Admin)

/-- An admin whose weights can be added up, with every address listed once. -/
structure GoodAdmin (a : Admin) : Prop where
  valid : ValidAdmin a
  nodup : (a.members.map Prod.fst).Nodup
  total : Weights.total a.members < 2 ^ 32

structure Seat (C V : Type) where
  kind : Kind V
  pass : C → Proposal V → ModuleResult C
  /-- The value that is decided on, as it is stored. -/
  read : C → ModuleResult (Option V)
  Valid : V → Prop
  /-- What `pass` relies on. -/
  Ready : C → Prop
  /-- The keys that `pass` writes. -/
  writes : Set DBKey
  /-- The keys that `read` and `Ready` depend on. -/
  reads : Set DBKey

namespace Seat

variable {C V : Type} [ContextT C]

structure Sound (s : Seat C V) : Prop where
  id_round : Codec.RoundTrip s.kind.proposalId.encode s.kind.proposalId.decode Codec.U32
  proposal_round : Codec.RoundTrip s.kind.proposal.encode s.kind.proposal.decode
    (ValidProposal s.Valid)
  proposal_ne_id : s.kind.proposal.key ≠ s.kind.proposalId.key
  id_apart : s.kind.proposalId.key ≠ s.kind.admin.key ∧ s.kind.proposalId.key ∉ s.writes ∧
    s.kind.proposalId.key ∉ s.reads
  proposal_apart : s.kind.proposal.key ≠ s.kind.admin.key ∧ s.kind.proposal.key ∉ s.writes ∧
    s.kind.proposal.key ∉ s.reads
  congr : ∀ c c' : C, (∀ key ∈ s.reads, ContextT.payloadGet c' key = ContextT.payloadGet c key) →
    s.read c' = s.read c ∧ (s.Ready c → s.Ready c')
  pass_ok : ∀ c p, s.Ready c → ∃ c', s.pass c p = .ok c'
  pass_touched : ∀ c p c', s.pass c p = .ok c' → Touched s.writes c c'
  pass_read : ∀ c p c', s.Valid p.value → s.Ready c → s.pass c p = .ok c' →
    s.read c' = .ok (some p.value) ∧ s.Ready c'
  pass_admin : ∀ c p c', s.Valid p.value → s.pass c p = .ok c' →
    s.kind.admin.get c' = s.kind.admin.get c ∨
      ∃ a, GoodAdmin a ∧ s.kind.admin.get c' = .ok (some a)

variable (s : Seat C V)

/-- The id of the next proposal. -/
def nextId (c : C) : Nat :=
  match s.kind.proposalId.get c with
  | .ok next => next.getD 1
  | .error _ => 1

/-- The proposal as a ballot. -/
def pendingOf (p : Proposal V) : Ballot.Pending Address V := ⟨p.proposalId, p.value, p.vote⟩

/-- There is no admin yet, or one by which votes can be counted. -/
def Staffed (c : C) : Prop :=
  s.kind.admin.get c = .ok none ∨
    ∃ a, s.kind.admin.get c = .ok (some a) ∧ GoodAdmin a ∧ s.Ready c

/-- What the seat keeps agrees with the record. -/
structure Keeps (log : List (Ballot.Entry Address V)) (c : C) : Prop where
  next : ∃ next, s.kind.proposalId.get c = .ok next
  next_lt : s.nextId c < 2 ^ 32
  pending : ∃ pending, s.kind.proposal.get c = .ok pending ∧
    Ballot.Kept log (s.nextId c) (pending.map pendingOf) ∧
    ∀ p ∈ pending, ValidProposal s.Valid p

/-- A call that has been counted: with enough weight the value is the proposed
one and nothing is pending, with less only the vote is recorded. -/
structure Counted (c c' : C) (a : Admin) (id : Nat) (value : V) (voters : Finset Address) :
    Prop where
  passed : a.threshold ≤ entriesWeight a.members voters →
    s.read c' = .ok (some value) ∧ s.kind.proposal.get c' = .ok none
  recorded : ¬ a.threshold ≤ entriesWeight a.members voters → s.read c' = s.read c ∧
    (∃ p, s.kind.proposal.get c' = .ok (some p) ∧ p.proposalId = id ∧ p.value = value ∧
      p.vote.toFinset = voters) ∧
    Touched {s.kind.proposal.key, s.kind.proposalId.key} c c'

/-- The sender is a member of the current admin. -/
def Member (c : C) (sender : Address) : Prop :=
  ∃ a, s.kind.admin.get c = .ok (some a) ∧ sender ∈ a.members.map Prod.fst

variable {s} {c c' : C} {log : List (Ballot.Entry Address V)}

/-! ## One vote -/

theorem touched_emit (k : Kind V) (c : C) (what : String) (p : Proposal V) (keys : Set DBKey) :
    Touched keys c (k.emit c what p) :=
  Touched.refl.emit _

/-- The two writes after a proposal has passed. -/
theorem touched_dropped (k : Kind V) (c : C) (n : Nat) :
    Touched {k.proposal.key, k.proposalId.key} c (k.proposalId.set (k.proposal.delete c) n) := by
  have hproposal : k.proposal.key ∈ ({k.proposal.key, k.proposalId.key} : Set DBKey) := by simp
  have hid : k.proposalId.key ∈ ({k.proposal.key, k.proposalId.key} : Set DBKey) := by simp
  exact (Touched.refl.set hproposal _).set hid _

/-- The two writes when a proposal stays pending. -/
theorem touched_recorded (k : Kind V) (c : C) (p : Proposal V) (n : Nat) :
    Touched {k.proposal.key, k.proposalId.key} c (k.proposalId.set (k.proposal.set c p) n) := by
  have hproposal : k.proposal.key ∈ ({k.proposal.key, k.proposalId.key} : Set DBKey) := by simp
  have hid : k.proposalId.key ∈ ({k.proposal.key, k.proposalId.key} : Set DBKey) := by simp
  exact (Touched.refl.set hproposal _).set hid _

/-- A vote writes what is pending, the next id, and what a passed proposal
writes. -/
theorem Sound.touched (hs : s.Sound) {p : Proposal V} {passes : Prop}
    (h : s.kind.Voted s.pass c p passes c') :
    Touched (s.writes ∪ {s.kind.proposal.key, s.kind.proposalId.key}) c c' := by
  cases h with
  | @passed c₁ hpasses hpass =>
      have hwrites := (hs.pass_touched _ _ _ hpass).mono
        (Set.subset_union_left (t := {s.kind.proposal.key, s.kind.proposalId.key}))
      have hafter := (touched_dropped s.kind (s.kind.emit c₁ "Passed" p)
        (wrapAdd 32 p.proposalId 1)).mono (Set.subset_union_right (s := s.writes))
      exact ((touched_emit s.kind c "Voted" p _).trans hwrites).trans
        ((touched_emit s.kind c₁ "Passed" p _).trans hafter)
  | recorded hnot =>
      have hafter := (touched_recorded s.kind (s.kind.emit c "Voted" p) p
        (wrapAdd 32 p.proposalId 1)).mono (Set.subset_union_right (s := s.writes))
      exact (touched_emit s.kind c "Voted" p _).trans hafter

/-- A call writes no more than the vote it ends with. -/
theorem Sound.touched_update (hs : s.Sound) {sender : Option Address} {value : V}
    (h : s.kind.update s.pass c sender value = .ok c') :
    Touched (s.writes ∪ {s.kind.proposal.key, s.kind.proposalId.key}) c c' := by
  obtain ⟨x, a, next, c₁, -, -, -, -, rfl, hvoted⟩ := Kind.update_eq_ok _ _ h
  exact (touched_emit s.kind c "Created" _ _).trans (hs.touched hvoted)

theorem Sound.touched_updateVote (hs : s.Sound) {sender : Option Address} {id : Nat}
    (h : s.kind.updateVote s.pass c sender id = .ok c') :
    Touched (s.writes ∪ {s.kind.proposal.key, s.kind.proposalId.key}) c c' := by
  obtain ⟨x, a, p, -, -, -, -, -, hvoted⟩ := Kind.updateVote_eq_ok _ _ h
  exact hs.touched hvoted

theorem nextId_eq {next : Option Nat} (h : s.kind.proposalId.get c = .ok next) :
    s.nextId c = next.getD 1 := by
  rw [nextId, h]

/-- Nothing is kept before the first proposal. -/
theorem keeps_nil (hid : s.kind.proposalId.get c = .ok none)
    (hproposal : s.kind.proposal.get c = .ok none) : s.Keeps [] c := by
  have hnext := nextId_eq hid
  refine ⟨⟨none, hid⟩, ?_, none, hproposal, ?_, nofun⟩
  · rw [hnext]
    decide
  · rw [hnext]
    exact .nil

/-- What is kept depends on two keys only. -/
theorem Keeps.congr (h : s.Keeps log c)
    (hid : s.kind.proposalId.get c' = s.kind.proposalId.get c)
    (hproposal : s.kind.proposal.get c' = s.kind.proposal.get c) : s.Keeps log c' := by
  have hnext : s.nextId c' = s.nextId c := by rw [nextId, nextId, hid]
  obtain ⟨⟨next, hget⟩, hlt, pending, hpending, hkept, hvalid⟩ := h
  exact ⟨⟨next, hid.trans hget⟩, hnext ▸ hlt, pending, hproposal.trans hpending, hnext ▸ hkept,
    hvalid⟩

section Lawful

variable [LawfulContext C]

theorem Sound.emit_congr (hs : s.Sound) (c : C) (what : String) (p : Proposal V) :
    s.read (s.kind.emit c what p) = s.read c ∧ (s.Ready c → s.Ready (s.kind.emit c what p)) :=
  hs.congr c _ fun key _ => LawfulContext.payloadGet_emitEvent c _ key

/-- The next id after a vote. -/
theorem Sound.get_id (hs : s.Sound) {p : Proposal V} {passes : Prop}
    (hlt : p.proposalId + 1 < 2 ^ 32) (h : s.kind.Voted s.pass c p passes c') :
    s.kind.proposalId.get c' = .ok (some (p.proposalId + 1)) := by
  cases h with
  | passed hpasses hpass =>
      rw [wrapAdd_of_lt hlt]
      exact StorageValue.get_set hs.id_round hlt _
  | recorded hnot =>
      rw [wrapAdd_of_lt hlt]
      exact StorageValue.get_set hs.id_round hlt _

/-- What is pending after a vote. -/
theorem Sound.get_proposal (hs : s.Sound) {p : Proposal V} {passes : Prop}
    (hvalid : ValidProposal s.Valid p) (h : s.kind.Voted s.pass c p passes c') :
    passes ∧ s.kind.proposal.get c' = .ok none ∨
      ¬ passes ∧ s.kind.proposal.get c' = .ok (some p) := by
  cases h with
  | passed hpasses hpass =>
      rw [StorageValue.get_set_of_ne hs.proposal_ne_id, StorageValue.get_delete]
      exact Or.inl ⟨hpasses, rfl⟩
  | recorded hnot =>
      rw [StorageValue.get_set_of_ne hs.proposal_ne_id,
        StorageValue.get_set hs.proposal_round hvalid]
      exact Or.inr ⟨hnot, rfl⟩

/-- What is decided on, after a vote. -/
theorem Sound.read_voted (hs : s.Sound) {p : Proposal V} {passes : Prop}
    (hvalid : s.Valid p.value) (hready : s.Ready c) (h : s.kind.Voted s.pass c p passes c') :
    (passes → s.read c' = .ok (some p.value)) ∧ (¬ passes → s.read c' = s.read c) ∧
      s.Ready c' := by
  have hkeys : ∀ key ∈ s.reads, key ∉ ({s.kind.proposal.key, s.kind.proposalId.key} : Set DBKey) := by
    rintro key hkey (rfl | rfl)
    · exact hs.proposal_apart.2.2 hkey
    · exact hs.id_apart.2.2 hkey
  have hemit := fun (c : C) what => hs.emit_congr c what p
  cases h with
  | @passed c₁ hpasses hpass =>
      obtain ⟨hread, hready₁⟩ := hs.pass_read _ _ _ hvalid ((hemit c "Voted").2 hready) hpass
      have htouched := touched_dropped s.kind (s.kind.emit c₁ "Passed" p)
        (wrapAdd 32 p.proposalId 1)
      have hafter := hs.congr _ _ fun key hkey => htouched.payloadGet_eq (hkeys key hkey)
      refine ⟨fun _ => ?_, fun hnot => absurd hpasses hnot, ?_⟩
      · exact hafter.1.trans ((hemit c₁ "Passed").1.trans hread)
      · exact hafter.2 ((hemit c₁ "Passed").2 hready₁)
  | recorded hnot =>
      have htouched := touched_recorded s.kind (s.kind.emit c "Voted" p) p
        (wrapAdd 32 p.proposalId 1)
      have hafter := hs.congr _ _ fun key hkey => htouched.payloadGet_eq (hkeys key hkey)
      refine ⟨fun hpasses => absurd hpasses hnot, fun _ => ?_, ?_⟩
      · exact hafter.1.trans (hemit c "Voted").1
      · exact hafter.2 ((hemit c "Voted").2 hready)

/-- The admin after a vote. -/
theorem Sound.admin_voted (hs : s.Sound) {p : Proposal V} {passes : Prop}
    (hvalid : s.Valid p.value) (h : s.kind.Voted s.pass c p passes c') :
    s.kind.admin.get c' = s.kind.admin.get c ∨
      ∃ a, GoodAdmin a ∧ s.kind.admin.get c' = .ok (some a) := by
  have hid := Ne.symm hs.id_apart.1
  have hproposal := Ne.symm hs.proposal_apart.1
  cases h with
  | passed hpasses hpass =>
      rw [StorageValue.get_set_of_ne hid, StorageValue.get_delete_of_ne hproposal, Kind.emit,
        StorageValue.get_emitEvent]
      have hadmin := hs.pass_admin _ _ _ hvalid hpass
      rw [Kind.emit, StorageValue.get_emitEvent] at hadmin
      exact hadmin
  | recorded hnot =>
      rw [StorageValue.get_set_of_ne hid, StorageValue.get_set_of_ne hproposal, Kind.emit,
        StorageValue.get_emitEvent]
      exact Or.inl rfl

/-- A vote by a good admin is counted. -/
theorem Sound.counted (hs : s.Sound) {a : Admin} {p : Proposal V} (hgood : GoodAdmin a)
    (hvalid : ValidProposal s.Valid p) (hnodup : p.vote.Nodup) (hready : s.Ready c)
    (h : s.kind.Voted s.pass c p (a.threshold ≤ tally a.members p.vote) c') :
    s.Counted c c' a p.proposalId p.value p.vote.toFinset := by
  have htally : tally a.members p.vote = entriesWeight a.members p.vote.toFinset := by
    rw [tally_eq hgood.total hnodup, entriesWeight_eq hgood.nodup]
  rw [htally] at h
  obtain ⟨hpassed, hrecorded, -⟩ := hs.read_voted hvalid.value hready h
  constructor
  · intro hpasses
    refine ⟨hpassed hpasses, ?_⟩
    rcases hs.get_proposal hvalid h with ⟨-, hnone⟩ | ⟨hnot, -⟩
    · exact hnone
    · exact absurd hpasses hnot
  · intro hnot
    refine ⟨hrecorded hnot, ?_, ?_⟩
    · rcases hs.get_proposal hvalid h with ⟨hpasses, -⟩ | ⟨-, hsome⟩
      · exact absurd hpasses hnot
      · exact ⟨p, hsome, rfl, rfl, rfl⟩
    · cases h with
      | passed hpasses hpass => exact absurd hpasses hnot
      | recorded _ =>
          exact (touched_emit s.kind c "Voted" p _).trans (touched_recorded s.kind _ p _)

/-! ## The calls of a seat -/

/-- The event of a new proposal is no part of what is counted. -/
theorem Counted.of_emit (hs : s.Sound) {a : Admin} {id : Nat} {value : V}
    {voters : Finset Address} {what : String} {p : Proposal V}
    (h : s.Counted (s.kind.emit c what p) c' a id value voters) :
    s.Counted c c' a id value voters := by
  constructor
  · exact h.passed
  · intro hnot
    obtain ⟨hread, hpending, htouched⟩ := h.recorded hnot
    exact ⟨hread.trans (hs.emit_congr c what p).1, hpending,
      (touched_emit s.kind c what p _).trans htouched⟩

/-- What a vote by a good admin leaves. -/
theorem Sound.staffed_voted (hs : s.Sound) {a : Admin} {p : Proposal V} {passes : Prop}
    (ha : s.kind.admin.get c = .ok (some a)) (hgood : GoodAdmin a)
    (hvalid : s.Valid p.value) (hready : s.Ready c) (h : s.kind.Voted s.pass c p passes c') :
    s.Staffed c' := by
  obtain ⟨-, -, hready'⟩ := hs.read_voted hvalid hready h
  rcases hs.admin_voted hvalid h with hsame | ⟨a', hgood', ha'⟩
  · exact Or.inr ⟨a, hsame.trans ha, hgood, hready'⟩
  · exact Or.inr ⟨a', ha', hgood', hready'⟩

/-- A proposal is counted with the vote of its sender. -/
theorem Keeps.propose (hs : s.Sound) (hstaffed : s.Staffed c) (hkeeps : s.Keeps log c)
    {value : V} {sender : Address} (hvalue : s.Valid value) (hsender : ValidAddress sender)
    (hlt : s.nextId c + 1 < 2 ^ 32)
    (hcall : s.kind.update s.pass c (some sender) value = .ok c') :
    s.Staffed c' ∧ s.Keeps (log ++ [.proposed (s.nextId c) value sender]) c' ∧
      ∃ a, s.kind.admin.get c = .ok (some a) ∧ s.Counted c c' a (s.nextId c) value
        (insert sender (Ballot.voters log (s.nextId c))) := by
  obtain ⟨x, a, next, c₁, hx, ha, -, hnext, rfl, hvoted⟩ := Kind.update_eq_ok _ _ hcall
  cases hx
  rw [← nextId_eq hnext] at hvoted
  obtain ⟨pending, -, hkept, -⟩ := hkeeps.pending
  rcases hstaffed with hnone | ⟨a', ha', hgood, hready⟩
  · rw [ha] at hnone
    cases hnone
  rw [ha, Except.ok.injEq, Option.some.injEq] at ha'
  rw [← ha'] at hgood
  have hvalid : ValidProposal s.Valid ⟨s.nextId c, value, [sender]⟩ := by
    refine ⟨Nat.lt_of_succ_lt hlt, hvalue, Nat.one_lt_two_pow (by decide), ?_⟩
    intro address haddress
    rw [List.mem_singleton.1 haddress]
    exact hsender
  have hready₁ := (hs.emit_congr c "Created" ⟨s.nextId c, value, []⟩).2 hready
  have ha₁ : s.kind.admin.get (s.kind.emit c "Created" ⟨s.nextId c, value, []⟩) =
      .ok (some a) := by
    rw [Kind.emit, StorageValue.get_emitEvent, ha]
  have hvoters : insert sender (Ballot.voters log (s.nextId c)) = [sender].toFinset := by
    rw [Ballot.voters_eq_empty fun e he => (hkept.old e he).ne]
    rfl
  have hcounted := hs.counted hgood hvalid (List.nodup_singleton sender) hready₁ hvoted
  have hid := hs.get_id hlt hvoted
  have hnextId : s.nextId c' = s.nextId c + 1 := nextId_eq hid
  refine ⟨hs.staffed_voted ha₁ hgood hvalue hready₁ hvoted, ⟨⟨_, hid⟩, hnextId ▸ hlt, ?_⟩, a, ha, ?_⟩
  · rw [hnextId]
    rcases hs.get_proposal hvalid hvoted with ⟨-, hpending⟩ | ⟨-, hpending⟩
    · exact ⟨none, hpending, hkept.propose value sender nofun, nofun⟩
    · refine ⟨_, hpending, hkept.propose value sender ?_, ?_⟩
      · intro q hq
        exact (Option.some.inj hq).symm
      · intro q hq
        rw [← Option.some.inj hq]
        exact hvalid
  · rw [hvoters]
    exact hcounted.of_emit hs

/-- A vote is counted with those before it. -/
theorem Keeps.vote (hs : s.Sound) (hstaffed : s.Staffed c) (hkeeps : s.Keeps log c)
    {id : Nat} {sender : Address} (hsender : ValidAddress sender)
    (hfits : ∀ p, s.kind.proposal.get c = .ok (some p) → p.vote.length + 1 < 2 ^ 32)
    (hcall : s.kind.updateVote s.pass c (some sender) id = .ok c') :
    s.Staffed c' ∧ s.Keeps (log ++ [.voted id sender]) c' ∧
      ∃ a value, s.kind.admin.get c = .ok (some a) ∧ (id, value) ∈ Ballot.proposals log ∧
        s.Counted c c' a id value (insert sender (Ballot.voters log id)) := by
  obtain ⟨x, a, p, hx, ha, -, hp, rfl, hvoted⟩ := Kind.updateVote_eq_ok _ _ hcall
  cases hx
  obtain ⟨pending, hpending, hkept, hvalids⟩ := hkeeps.pending
  rw [hp, Except.ok.injEq] at hpending
  subst hpending
  have hp' : pendingOf p ∈ (some p).map pendingOf := rfl
  rcases hstaffed with hnone | ⟨a', ha', hgood, hready⟩
  · rw [ha] at hnone
    cases hnone
  rw [ha, Except.ok.injEq, Option.some.injEq] at ha'
  rw [← ha'] at hgood
  have hold := hvalids p rfl
  have hlast : p.proposalId + 1 = s.nextId c := hkept.last _ hp'
  have hvalid : ValidProposal s.Valid (Kind.voted p sender) := by
    refine ⟨hold.proposalId, hold.value, ?_, ?_⟩
    · have hlen : (Ballot.addVote p.vote sender).length ≤ p.vote.length + 1 := by
        rw [Ballot.addVote]
        split
        · exact Nat.le_succ _
        · simp
      exact Nat.lt_of_le_of_lt hlen (hfits p hp)
    · intro address haddress
      have hmem := List.mem_toFinset.2 haddress
      rw [Kind.voted, Ballot.toFinset_addVote, Finset.mem_insert, List.mem_toFinset] at hmem
      rcases hmem with rfl | hmem
      · exact hsender
      · exact hold.vote.2 address hmem
  have hnodup := Ballot.nodup_addVote (hkept.nodup _ hp') sender
  have hvoters : (Kind.voted p sender).vote.toFinset =
      insert sender (Ballot.voters log p.proposalId) := by
    have hvotes := hkept.votes _ hp'
    rw [Kind.voted, Ballot.toFinset_addVote]
    exact congrArg (insert sender) hvotes
  have hcounted := hs.counted hgood hvalid hnodup hready hvoted
  have hlt : p.proposalId + 1 < 2 ^ 32 := hlast ▸ hkeeps.next_lt
  have hid := hs.get_id (p := Kind.voted p sender) hlt hvoted
  have hnextId : s.nextId c' = s.nextId c := (nextId_eq hid).trans hlast
  refine ⟨hs.staffed_voted ha hgood hvalid.value hready hvoted,
    ⟨⟨_, hid⟩, hnextId ▸ hkeeps.next_lt, ?_⟩, a, p.value, ha, hkept.proposed _ hp', ?_⟩
  · rw [hnextId]
    rcases hs.get_proposal hvalid hvoted with ⟨-, hpending⟩ | ⟨-, hpending⟩
    · exact ⟨none, hpending, Ballot.Kept.vote (p := pendingOf p) hkept sender (by rintro _ ⟨⟩), by rintro _ ⟨⟩⟩
    · refine ⟨_, hpending, Ballot.Kept.vote (p := pendingOf p) hkept sender ?_, ?_⟩
      · intro q hq
        exact (Option.some.inj hq).symm
      · intro q hq
        rw [← Option.some.inj hq]
        exact hvalid
  · rw [← hvoters]
    exact hcounted

/-! ## Who may call -/

theorem Sound.exists_voteAndPass (hs : s.Sound) (hready : s.Ready c) (p : Proposal V)
    (sender : Address) (threshold : Nat) (members : List (Address × Nat)) :
    ∃ c', s.kind.voteAndPass s.pass c sender p threshold members = .ok c' := by
  rw [Kind.voteAndPass]
  split
  case isTrue hpasses =>
    obtain ⟨c₁, hc₁⟩ := hs.pass_ok _ (Kind.voted p sender)
      ((hs.emit_congr c "Voted" (Kind.voted p sender)).2 hready)
    exact ⟨_, Result.bind_eq_ok.2 ⟨c₁, hc₁, rfl⟩⟩
  case isFalse hnot => exact ⟨_, rfl⟩

/-- Exactly the members can make a proposal. -/
theorem Sound.update_isOk_iff (hs : s.Sound) (hstaffed : s.Staffed c) (hkeeps : s.Keeps log c)
    (sender : Option Address) (value : V) :
    (∃ c', s.kind.update s.pass c sender value = .ok c') ↔ ∃ x, sender = some x ∧ s.Member c x := by
  constructor
  · rintro ⟨c', hcall⟩
    obtain ⟨x, a, next, c₁, hx, ha, hmember, -⟩ := Kind.update_eq_ok _ _ hcall
    exact ⟨x, hx, a, ha, hmember⟩
  · rintro ⟨x, rfl, a, ha, hmember⟩
    obtain ⟨next, hnext⟩ := hkeeps.next
    rcases hstaffed with hnone | ⟨a', -, -, hready⟩
    · rw [ha] at hnone
      cases hnone
    have hverify := s.kind.verifySender_eq_ok_iff.2 ⟨a, ha, hmember, rfl, rfl⟩
    obtain ⟨c', hc'⟩ := hs.exists_voteAndPass
      ((hs.emit_congr c "Created" ⟨next.getD 1, value, []⟩).2 hready)
      ⟨next.getD 1, value, []⟩ x a.threshold a.members
    exact ⟨c', Result.bind_eq_ok.2 ⟨_, hverify, Result.bind_eq_ok.2 ⟨next, hnext, hc'⟩⟩⟩

/-- Exactly the members can vote, for the pending proposal. -/
theorem Sound.updateVote_isOk_iff (hs : s.Sound) (hstaffed : s.Staffed c)
    (sender : Option Address) (id : Nat) :
    (∃ c', s.kind.updateVote s.pass c sender id = .ok c') ↔
      (∃ x, sender = some x ∧ s.Member c x) ∧
        ∃ p, s.kind.proposal.get c = .ok (some p) ∧ p.proposalId = id := by
  constructor
  · rintro ⟨c', hcall⟩
    obtain ⟨x, a, p, hx, ha, hmember, hp, hid, -⟩ := Kind.updateVote_eq_ok _ _ hcall
    exact ⟨⟨x, hx, a, ha, hmember⟩, p, hp, hid⟩
  · rintro ⟨⟨x, rfl, a, ha, hmember⟩, p, hp, rfl⟩
    rcases hstaffed with hnone | ⟨a', -, -, hready⟩
    · rw [ha] at hnone
      cases hnone
    have hverify := s.kind.verifySender_eq_ok_iff.2 ⟨a, ha, hmember, rfl, rfl⟩
    obtain ⟨c', hc'⟩ := hs.exists_voteAndPass hready p x a.threshold a.members
    refine ⟨c', Result.bind_eq_ok.2 ⟨some p, hp, ?_⟩⟩
    simp only [ne_eq, not_true_eq_false, if_false]
    exact Result.bind_eq_ok.2 ⟨_, hverify, hc'⟩

end Lawful

end Seat

end Finastate.Governance
