import Finastate.Raft.Steps

/-!
# Runs of one Raft node

A node is started on the genesis chain with an empty database and then handles
any events in any order. In a `CrashRun` the process may also stop between any
two writes. An invariant of all runs holds before the start and is kept by
every act; when the process may stop, it is also kept by what is left of an
act that writes several times.
-/

namespace Finastate.Raft

open Relation (ReflTransGen)

/-- A node before its first start. -/
def Stream.blank (support : Support) (secretKey : SecretKey) : Stream where
  secretKey
  publicKey := support.basic.publicKey secretKey
  address := support.basic.address (support.basic.publicKey secretKey)
  out := []
  peers := []
  knownValidators := []
  nextRequestId := 0
  storage :=
    { chain := []
      db := Db.empty
      baseLogIndex := 0
      baseLogTerm := 0
      currentTerm := 0
      currentVotedFor := none
      commitLogIndex := 0
      logs := []
      proposal := none }
  currentLeader := none
  lastHeartbeat := false
  state := .shutdown
  role := .shutdown
  leader := LeaderState.new
  candidate := CandidateState.new
  authorities := []
  internal := []
  lastRequestProposal := false
  pendingProposal := none
  commitBlockParams := none
  notices := 0
  halted := true
  trace := []
  history := []
  announcedBy := none
  compared := []

/-- The states that a node can reach when every event meets a condition on the
state it finds. -/
inductive Run (support : Support) (secretKey : SecretKey)
    (P : Oracle → Stream → Event → Prop) : Stream → Prop
  | start : Run support secretKey P ((Stream.blank support secretKey).spawn support)
  | step {s : Stream} (h : Run support secretKey P s) (oracle : Oracle) (event : Event)
      (hp : P oracle s event) : Run support secretKey P (s.step support oracle event)

/-- The same when the process may stop between two writes of an event. -/
inductive CrashRun (support : Support) (secretKey : SecretKey)
    (P : Oracle → Stream → Event → Prop) : Stream → Prop
  | start : CrashRun support secretKey P ((Stream.blank support secretKey).spawn support)
  | step {s : Stream} (h : CrashRun support secretKey P s) (oracle : Oracle) (event : Event)
      (hp : P oracle s event) : CrashRun support secretKey P (s.step support oracle event)
  | crash {s : Stream} (h : CrashRun support secretKey P s) (oracle : Oracle) (event : Event)
      (hp : P oracle s event) (k : Nat) :
      CrashRun support secretKey P (s.crash support oracle event k)

section

variable {support : Support} {secretKey : SecretKey} {oracle : Oracle} {event : Event}
  {P : Oracle → Stream → Event → Prop} {o c c' : Core}

/-! ## Stopping between two writes -/

/-- A term that an act can change to in its first write. -/
def Core.Raises (c o : Core) (event : Event) (term : Nat) : Prop :=
  c.storage.currentTerm < term ∨
    (event = .election ∧ (o.role = .follower ∨ o.role = .candidate) ∧ c.storage = o.storage ∧
      term = wrapAdd 64 c.storage.currentTerm 1)

/-- A core of which only some of the writes of `refresh` are done. -/
def Core.refreshing (c : Core) (db : Db) (dbs : List Db) : Core :=
  { c with
    storage.db := db
    history := (db :: dbs).map (fun db => { chain := c.storage.chain, db, trace := c.trace }) ++
      c.history }

/-- What a process that stops leaves: all that it has done, a new term without
the vote, or a part of `refresh`. -/
inductive Halt (event : Event) (o : Core) (c : Core) : Core → Prop
  | done : Halt event o c c
  | half (term : Nat) (raises : c.Raises o event term) : Halt event o c (c.writeTerm term)
  | refreshing (db : Db) (dbs before : List Db)
      (some_ : Storage.refreshDbs c.storage.chain c.storage.db = before ++ db :: dbs) :
      Halt event o c (c.refreshing db dbs)

theorem Act.own_eq (h : Act support event o c c') :
    c'.publicKey = c.publicKey ∧ c'.address = c.address := by
  cases h <;> exact ⟨rfl, rfl⟩

theorem Act.trace_subset (h : Act support event o c c') : c.trace ⊆ c'.trace := by
  cases h with
  | lead role state enough => exact List.subset_cons_self _ _
  | append data role state last => exact List.subset_cons_self _ _
  | raise commitLogIndex role state majority higher => exact List.subset_cons_self _ _
  | follow address req receives start term => exact List.subset_cons_self _ _
  | grant candidate lastLog voted uptodate asked => exact List.subset_cons_self _ _
  | report lastLog position => exact List.subset_cons_self _ _
  | commit block start number found position => exact List.subset_cons_self _ _
  | _ => exact List.Subset.refl _

theorem Acts.trace_subset (h : Acts support event o c c') : c.trace ⊆ c'.trace := by
  induction h with
  | refl => exact List.Subset.refl _
  | tail _ hact ih => exact List.Subset.trans ih hact.trace_subset

/-- The same node, which has not sent anything more. -/
structure Core.Quieter (c d : Core) : Prop where
  publicKey : d.publicKey = c.publicKey
  address : d.address = c.address
  out : d.out = c.out

theorem Core.Quieter.trans {b c d : Core} (h : b.Quieter c) (h' : c.Quieter d) : b.Quieter d :=
  ⟨h'.publicKey.trans h.publicKey, h'.address.trans h.address, h'.out.trans h.out⟩

/-- The writes of one act. -/
theorem Act.history_cases (h : Act support event o c c') :
    c'.history = c.history ∨ c'.history = c'.snapshot :: c.history ∨
      (∃ term, c.Raises o event term ∧
        c'.history = c'.snapshot :: (c.writeTerm term).snapshot :: c.history) ∨
      c'.history = (Storage.refreshDbs c.storage.chain c.storage.db).map
        (fun db => { chain := c.storage.chain, db, trace := c.trace }) ++ c.history := by
  cases h with
  | campaign timeout before storage trace state =>
      exact Or.inr (Or.inr (Or.inl ⟨_, Or.inr ⟨timeout, before, storage, rfl⟩, rfl⟩))
  | newTerm term calm higher => exact Or.inr (Or.inr (Or.inl ⟨term, Or.inl higher, rfl⟩))
  | refresh told start => exact Or.inr (Or.inr (Or.inr rfl))
  | restart told => exact Or.inr (Or.inr (Or.inr rfl))
  | append data role state last => exact Or.inr (Or.inl rfl)
  | raise commitLogIndex role state majority higher => exact Or.inr (Or.inl rfl)
  | follow address req receives start term => exact Or.inr (Or.inl rfl)
  | vote address req receives term none_ calm => exact Or.inr (Or.inl rfl)
  | truncate address req follows logs exists_ next => exact Or.inr (Or.inl rfl)
  | extend address req follows next logs => exact Or.inr (Or.inl rfl)
  | proposal proposal => exact Or.inr (Or.inl rfl)
  | commit block start number found position => exact Or.inr (Or.inl rfl)
  | sync block learnt start blockHash => exact Or.inr (Or.inl rfl)
  | _ => exact Or.inl rfl

theorem Writes.quieter (h : Writes support event o c c') : c.Quieter c' := by
  induction h with
  | refl => exact ⟨rfl, rfl, rfl⟩
  | tail _ hact ih => exact ih.trans ⟨hact.1.own_eq.1, hact.1.own_eq.2, hact.2⟩

/-- A suffix that is longer than `old` reaches into what comes before `old`. -/
theorem exists_of_append_eq {α : Type*} {before rest new old : List α} {x : α}
    (h : before ++ x :: rest = new ++ old) (hlength : old.length ≤ rest.length) :
    ∃ new', new = before ++ x :: new' ∧ rest = new' ++ old := by
  rcases List.append_eq_append_iff.1 h with ⟨middle, hnew, hrest⟩ | ⟨middle, -, hold⟩
  · cases middle with
    | nil =>
        rw [List.nil_append] at hrest
        rw [← hrest, List.length_cons] at hlength
        omega
    | cons y new' =>
        obtain ⟨rfl, rfl⟩ := List.cons.inj hrest
        exact ⟨new', hnew, rfl⟩
  · rw [hold, List.length_append, List.length_cons] at hlength
    omega

theorem Act.exists_history (h : Act support event o c c') :
    ∃ new, c'.history = new ++ c.history := by
  rcases h.history_cases with hsame | hone | ⟨term, -, htwo⟩ | hrefresh
  · exact ⟨[], hsame⟩
  · exact ⟨[c'.snapshot], hone⟩
  · exact ⟨[c'.snapshot, (c.writeTerm term).snapshot], htwo⟩
  · exact ⟨_, hrefresh⟩

theorem Acts.exists_history (h : Acts support event o c c') :
    ∃ new, c'.history = new ++ c.history := by
  induction h with
  | refl => exact ⟨[], rfl⟩
  | tail _ hact ih =>
      obtain ⟨old, hold⟩ := ih
      obtain ⟨new, hnew⟩ := hact.exists_history
      exact ⟨new ++ old, by rw [hnew, hold, List.append_assoc]⟩

/-- A write of one act is its last one or in the middle of it. -/
theorem Act.stopped (h : Act support event o c c') {before rest : List Snapshot}
    {snapshot : Snapshot} (hsplit : c'.history = before ++ snapshot :: rest)
    (hlength : c.history.length ≤ rest.length) :
    (c'.snapshot = snapshot ∧ c'.history = snapshot :: rest) ∨
      ∃ d, Halt event o c d ∧ d.snapshot = snapshot ∧ d.history = snapshot :: rest ∧
        c.Quieter d := by
  rcases h.history_cases with hsame | hone | ⟨term, hraises, htwo⟩ | hrefresh
  · rw [hsame] at hsplit
    have hcontra := congrArg List.length hsplit
    rw [List.length_append, List.length_cons] at hcontra
    omega
  · obtain ⟨new, hnew, rfl⟩ := @exists_of_append_eq _ before rest [c'.snapshot] c.history
      snapshot (hsplit.symm.trans hone) hlength
    cases before with
    | nil =>
        obtain ⟨rfl, rfl⟩ := List.cons.inj hnew
        exact Or.inl ⟨rfl, hone⟩
    | cons first before => simp at hnew
  · obtain ⟨new, hnew, rfl⟩ := @exists_of_append_eq _ before rest
      [c'.snapshot, (c.writeTerm term).snapshot] c.history snapshot (hsplit.symm.trans htwo)
      hlength
    cases before with
    | nil =>
        obtain ⟨rfl, rfl⟩ := List.cons.inj hnew
        exact Or.inl ⟨rfl, htwo⟩
    | cons first before =>
        obtain ⟨-, hnew⟩ := List.cons.inj hnew
        cases before with
        | nil =>
            obtain ⟨rfl, rfl⟩ := List.cons.inj hnew
            exact Or.inr ⟨c.writeTerm term, .half term hraises, rfl, rfl, ⟨rfl, rfl, rfl⟩⟩
        | cons second before => simp at hnew
  · obtain ⟨new, hnew, rfl⟩ := @exists_of_append_eq _ before rest
      ((Storage.refreshDbs c.storage.chain c.storage.db).map
        fun db => { chain := c.storage.chain, db, trace := c.trace }) c.history snapshot
      (hsplit.symm.trans hrefresh) hlength
    obtain ⟨dbs, after, hdbs, rfl, hafter⟩ := List.map_eq_append_iff.1 hnew
    obtain ⟨db, dbs', rfl, rfl, rfl⟩ := List.map_eq_cons_iff.1 hafter
    exact Or.inr ⟨c.refreshing db dbs', .refreshing db dbs' dbs hdbs, rfl, rfl,
      ⟨rfl, rfl, rfl⟩⟩

/-- A write of an event is the last one of a first part of its acts, or it is in
the middle of the act that follows. -/
theorem Writes.stopped (h : Writes support event o c c') {before rest : List Snapshot}
    {snapshot : Snapshot} (hsplit : c'.history = before ++ snapshot :: rest)
    (hlength : c.history.length ≤ rest.length) :
    ∃ mid d, Writes support event o c mid ∧ Halt event o mid d ∧ d.snapshot = snapshot ∧
      d.history = snapshot :: rest ∧ c.Quieter d := by
  induction h generalizing before with
  | refl =>
      have hcontra := congrArg List.length hsplit
      rw [List.length_append, List.length_cons] at hcontra
      omega
  | @tail b c' hwrites hact ih =>
      have hquieter := Writes.quieter hwrites
      by_cases hold : b.history.length ≤ rest.length
      · rcases hact.1.stopped hsplit hold with ⟨hlast, hfirst⟩ | ⟨d, hhalt, hlast, hfirst, hd⟩
        · exact ⟨c', c', ReflTransGen.tail hwrites hact, .done, hlast, hfirst,
            hquieter.trans ⟨hact.1.own_eq.1, hact.1.own_eq.2, hact.2⟩⟩
        · exact ⟨b, d, hwrites, hhalt, hlast, hfirst, hquieter.trans hd⟩
      · obtain ⟨new, hnew⟩ := hact.1.exists_history
        rw [hnew] at hsplit
        rcases List.append_eq_append_iff.1 hsplit with ⟨middle, -, hrest⟩ | ⟨middle, -, hrest⟩
        · exact ih hrest
        · have hcount := congrArg List.length hrest
          rw [List.length_append, List.length_cons] at hcount
          have hnil : middle = [] := List.eq_nil_of_length_eq_zero (by omega)
          rw [hnil, List.nil_append] at hrest
          exact @ih [] hrest.symm

theorem Sends.history_eq (h : Sends support event o c c') : c'.history = c.history := by
  induction h with
  | refl => rfl
  | tail _ hact ih => exact hact.2.trans ih

/-- A crash: the acts up to where the process has stopped, and the restart. -/
theorem Stream.crash_spec {s : Stream} (hstable : s.state = s.role) (hsound : s.core.Sound)
    (event : Event) (k : Nat) :
    ∃ mid d, Writes support event s.core s.core mid ∧ Halt event s.core mid d ∧
      s.core.Quieter d ∧ d.storage.chain = (s.stopped support oracle event k).storage.chain ∧
      d.storage.db = (s.stopped support oracle event k).storage.db ∧
      (s.crash support oracle event k).core =
        { d.restarted support with announcedBy := s.announcedBy, compared := s.compared } ∧
      (s.crash support oracle event k).state = (s.crash support oracle event k).role := by
  obtain ⟨⟨c, hwrites, hsends⟩, -⟩ := @step_spec support oracle s hstable hsound event
  obtain ⟨new, hnew⟩ := hwrites.acts.exists_history
  have hhistory : (s.step support oracle event).history = new ++ s.history :=
    hsends.history_eq.trans hnew
  have hdone : s.writes support oracle event = new := by
    simp only [writes, hhistory, List.length_append, Nat.add_sub_cancel, List.take_left]
  unfold crash stopped
  rw [hdone]
  cases hdrop : new.drop k with
  | nil =>
      obtain ⟨hcore, hstate⟩ := @spawn_spec support s
      exact ⟨s.core, s.core, .refl, .done, ⟨rfl, rfl, rfl⟩, rfl, rfl, hcore, hstate⟩
  | cons snapshot rest =>
      have hsplit : c.history = new.take k ++ snapshot :: (rest ++ s.history) := by
        rw [← List.cons_append, ← hdrop, ← List.append_assoc, List.take_append_drop]
        exact hnew
      obtain ⟨mid, d, hmid, hhalt, hsnapshot, hstopped, hquieter⟩ :=
        hwrites.stopped hsplit (by rw [List.length_append]; exact Nat.le_add_left _ _)
      obtain ⟨hcore, hstate⟩ := @spawn_spec support
        { s with
          history := snapshot :: rest ++ s.history
          trace := snapshot.trace
          storage := { s.storage with chain := snapshot.chain, db := snapshot.db } }
      have hchain : d.storage.chain = snapshot.chain := congrArg Snapshot.chain hsnapshot
      have hdb : d.storage.db = snapshot.db := congrArg Snapshot.db hsnapshot
      have htrace : d.trace = snapshot.trace := congrArg Snapshot.trace hsnapshot
      refine ⟨mid, d, hmid, hhalt, hquieter, hchain, hdb, ?_, hstate⟩
      simp only
      rw [hcore]
      simp only [Core.restarted, Core.refresh, hchain, hdb, htrace, hstopped, hquieter.publicKey,
        hquieter.address, hquieter.out]
      rfl

/-! ## Invariants -/

/-- The state is the one whose loop runs, and the queues are sound. -/
structure Stream.Stable (s : Stream) : Prop where
  state : s.state = s.role
  sound : s.core.Sound

theorem Stream.Stable.step {s : Stream} (h : s.Stable) (event : Event) :
    (s.step support oracle event).Stable := by
  obtain ⟨hmoves, hstate⟩ := step_spec h.state h.sound event
  exact ⟨hstate, hmoves.acts.sound h.sound⟩

theorem Stream.Stable.spawn (s : Stream) : (s.spawn support).Stable := by
  obtain ⟨hcore, hstate⟩ := @spawn_spec support s
  refine ⟨hstate, ?_⟩
  rw [hcore]
  exact nofun

theorem Stream.Stable.crash (s : Stream) (event : Event) (k : Nat) :
    (s.crash support oracle event k).Stable := by
  exact .spawn _

theorem Run.stable {s : Stream} (h : Run support secretKey P s) : s.Stable := by
  induction h with
  | start => exact .spawn _
  | step _ oracle event _ ih => exact ih.step event

theorem CrashRun.stable {s : Stream} (h : CrashRun support secretKey P s) : s.Stable := by
  induction h with
  | start => exact .spawn _
  | step _ oracle event _ ih => exact ih.step event
  | crash _ oracle event _ k ih => exact .crash _ event k

theorem Acts.preserves {I : Core → Prop} (h : Acts support event o c c')
    (act : ∀ b b', Act support event o b b' → I b → I b') (hc : I c) : I c' := by
  induction h with
  | refl => exact hc
  | tail _ hact ih => exact act _ _ hact ih

/-- An invariant of the runs of a node. -/
theorem Run.core_induction {I : Core → Prop} {s : Stream} (h : Run support secretKey P s)
    (start : I ((Stream.blank support secretKey).core.restarted support))
    (act : ∀ oracle s event, P oracle s event → I s.core → ∀ c c',
      Act support event s.core c c' → I c → I c') : I s.core := by
  induction h with
  | start =>
      rw [(Stream.spawn_spec _).1]
      exact start
  | @step s hrun oracle event hp ih =>
      obtain ⟨hmoves, -⟩ :=
        @Stream.step_spec support oracle s hrun.stable.state hrun.stable.sound event
      exact hmoves.acts.preserves (act oracle s event hp ih) ih

/-- An invariant of the runs of a node that may stop between two writes. -/
theorem CrashRun.core_induction {I : Core → Prop} {s : Stream}
    (h : CrashRun support secretKey P s)
    (start : I ((Stream.blank support secretKey).core.restarted support))
    (act : ∀ oracle s event, P oracle s event → I s.core → ∀ c c',
      Act support event s.core c c' → I c → I c')
    (halt : ∀ oracle s event, P oracle s event → ∀ c d, Halt event s.core c d →
      I c → I (d.restarted support))
    (forget : ∀ c announcedBy compared, I c → I { c with announcedBy, compared }) :
    I s.core := by
  induction h with
  | start =>
      rw [(Stream.spawn_spec _).1]
      exact start
  | @step s hrun oracle event hp ih =>
      obtain ⟨hmoves, -⟩ :=
        @Stream.step_spec support oracle s hrun.stable.state hrun.stable.sound event
      exact hmoves.acts.preserves (act oracle s event hp ih) ih
  | @crash s hrun oracle event hp k ih =>
      obtain ⟨mid, d, hwrites, hhalt, -, -, -, hcore, -⟩ :=
        @Stream.crash_spec support oracle s hrun.stable.state hrun.stable.sound event k
      rw [hcore]
      have hmid : I mid := hwrites.acts.preserves (act oracle s event hp ih) ih
      exact forget _ _ _ (halt oracle s event hp mid d hhalt hmid)

/-! ## Events in their order -/

/-- Several events in their order. -/
def Stream.steps (support : Support) (oracle : Oracle) (s : Stream) (events : List Event) :
    Stream :=
  events.foldl (fun s event => s.step support oracle event) s

/-- Events that meet a condition on the states they find. -/
def Stream.StepsWith (support : Support) (oracle : Oracle)
    (P : Oracle → Stream → Event → Prop) : Stream → List Event → Prop
  | _, [] => True
  | s, event :: events =>
      P oracle s event ∧ StepsWith support oracle P (s.step support oracle event) events

instance Stream.decidableStepsWith (support : Support) (oracle : Oracle)
    (P : Oracle → Stream → Event → Prop) [∀ oracle s event, Decidable (P oracle s event)] :
    ∀ (s : Stream) (events : List Event), Decidable (s.StepsWith support oracle P events)
  | _, [] => isTrue trivial
  | s, event :: events =>
      have := decidableStepsWith support oracle P (s.step support oracle event) events
      inferInstanceAs (Decidable (_ ∧ _))

theorem Run.steps {s : Stream} (h : Run support secretKey P s) {events : List Event}
    (hp : s.StepsWith support oracle P events) :
    Run support secretKey P (s.steps support oracle events) := by
  induction events generalizing s with
  | nil => exact h
  | cons event events ih => exact ih (h.step oracle event hp.1) hp.2

theorem CrashRun.steps {s : Stream} (h : CrashRun support secretKey P s) {events : List Event}
    (hp : s.StepsWith support oracle P events) :
    CrashRun support secretKey P (s.steps support oracle events) := by
  induction events generalizing s with
  | nil => exact h
  | cons event events ih => exact ih (h.step oracle event hp.1) hp.2

theorem Run.crashRun {s : Stream} (h : Run support secretKey P s) :
    CrashRun support secretKey P s := by
  induction h with
  | start => exact .start
  | step _ oracle event hp ih => exact ih.step oracle event hp

end

/-! ## A sample of the environment -/

namespace Sample

def basic : Basic SigMessage where
  hash header := ⟨[UInt8.ofNat header.number, UInt8.ofNat header.timestamp]⟩
  address publicKey := ⟨publicKey.bytes⟩
  publicKey secretKey := ⟨secretKey.bytes⟩
  sign _ secretKey := ⟨secretKey.bytes⟩
  verify _ publicKey signature :=
    if signature.bytes = publicKey.bytes then .ok () else .error "invalid signature"

def genesisHeader : Header where
  number := 0
  timestamp := 0
  parentHash := ⟨[]⟩
  metaTxsRoot := ⟨[]⟩
  metaStateRoot := ⟨[]⟩
  metaReceiptsRoot := ⟨[]⟩
  payloadTxsRoot := ⟨[]⟩
  payloadExecutionGap := 0
  payloadExecutionStateRoot := ⟨[]⟩
  payloadExecutionReceiptsRoot := ⟨[]⟩

/-- The validators `0, .., n - 1`, and an executor that takes every block. -/
def support (n : Nat) : Support where
  basic
  verifierFromPublicKey _ := .ok ()
  genesisHeader
  getAuthorities _ := (List.range n).map fun i => ⟨[UInt8.ofNat i]⟩
  maxExecutionGap _ := 10
  hashTransaction _ := ⟨[]⟩
  validateTransaction _ _ _ := .ok ()
  execute _ params :=
    .ok
      { metaTxs := params.metaTxs.map FullTransaction.txHash
        metaTxsRoot := ⟨[]⟩
        metaStateRoot := ⟨[]⟩
        metaReceiptsRoot := ⟨[]⟩
        payloadTxsRoot := ⟨[]⟩
        payloadExecutionStateRoot := ⟨[]⟩
        payloadExecutionReceiptsRoot := ⟨[]⟩ }

/-- The clock is far behind the last heartbeat and the last proposal request. -/
def oracle : Oracle where
  now := 0
  heartbeatRecent := false
  requestProposalRecent := false
  executedNumber := 0
  metaTxs := []
  payloadTxs := []

/-- Validator `key` connects as the peer of that name and registers. -/
def register (key : UInt8) : List Event :=
  [.open [key] 7 7,
    .message [key] (some (.registerValidatorReq
      { requestId := 0, publicKey := ⟨[key]⟩, signature := basic.sign (.nonce 7) ⟨[key]⟩ }))]

/-- Validator `key` asks for a vote. -/
def askVote (key : UInt8) (term lastLogIndex lastLogTerm : Nat) : Event :=
  .message [key] (some (.requestVoteReq { requestId := 0, term, lastLogIndex, lastLogTerm }))

/-- A validator of `n`, started and run through the events. -/
def validator (n : Nat) (key : UInt8) (events : List Event) : Stream :=
  ((Stream.blank (support n) ⟨[key]⟩).spawn (support n)).steps (support n) oracle events

/-- Validator `0`. -/
def node (n : Nat) (events : List Event) : Stream := validator n 0 events

theorem run_validator {P : Oracle → Stream → Event → Prop} {n : Nat} {key : UInt8}
    {events : List Event}
    (hp : ((Stream.blank (support n) ⟨[key]⟩).spawn (support n)).StepsWith (support n) oracle P
      events) : Run (support n) ⟨[key]⟩ P (validator n key events) :=
  Run.start.steps hp

end Sample

end Finastate.Raft
