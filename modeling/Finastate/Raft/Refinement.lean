import Finastate.Raft.Acts

/-!
# Handlers of a Raft node are sequences of acts

One lemma for each handler. A handler first writes and then sends: `Writes`
are acts that send nothing, `Sends` are acts that write nothing, and a step
`Moves` by the first and then the second. A process that stops between two
writes has therefore not sent anything yet.
-/

namespace Finastate.Raft

open Consensus (HandlerError)
open Relation (ReflTransGen)

section

variable (support : Support) (event : Event) (o : Core)

/-- An act that sends nothing. -/
def Quiet (c c' : Core) : Prop := Act support event o c c' ∧ c'.out = c.out

/-- An act that writes nothing. -/
def Dry (c c' : Core) : Prop := Act support event o c c' ∧ c'.history = c.history

def Writes : Core → Core → Prop := ReflTransGen (Quiet support event o)

def Sends : Core → Core → Prop := ReflTransGen (Dry support event o)

def Moves (c c' : Core) : Prop :=
  ∃ mid, Writes support event o c mid ∧ Sends support event o mid c'

end

section

variable {support : Support} {event : Event} {o c c' c'' : Core}

theorem Writes.refl : Writes support event o c c := ReflTransGen.refl

theorem Writes.trans (h : Writes support event o c c') (h' : Writes support event o c' c'') :
    Writes support event o c c'' :=
  ReflTransGen.trans h h'

theorem Sends.refl : Sends support event o c c := ReflTransGen.refl

theorem Sends.trans (h : Sends support event o c c') (h' : Sends support event o c' c'') :
    Sends support event o c c'' :=
  ReflTransGen.trans h h'

theorem Writes.of_act (h : Act support event o c c') (hout : c'.out = c.out) :
    Writes support event o c c' :=
  ReflTransGen.single ⟨h, hout⟩

theorem Sends.of_act (h : Act support event o c c') (hhistory : c'.history = c.history) :
    Sends support event o c c' :=
  ReflTransGen.single ⟨h, hhistory⟩

theorem Writes.moves (h : Writes support event o c c') : Moves support event o c c' :=
  ⟨c', h, .refl⟩

theorem Sends.moves (h : Sends support event o c c') : Moves support event o c c' :=
  ⟨c, .refl, h⟩

theorem Moves.after (h : Writes support event o c c') (h' : Moves support event o c' c'') :
    Moves support event o c c'' :=
  let ⟨mid, hw, hs⟩ := h'
  ⟨mid, h.trans hw, hs⟩

theorem Moves.sends (h : Moves support event o c c') (h' : Sends support event o c' c'') :
    Moves support event o c c'' :=
  let ⟨mid, hw, hs⟩ := h
  ⟨mid, hw, hs.trans h'⟩

theorem Writes.acts (h : Writes support event o c c') : Acts support event o c c' :=
  ReflTransGen.mono (fun _ _ (hact : Quiet support event o _ _) => hact.1) _ _ h

theorem Moves.acts (h : Moves support event o c c') : Acts support event o c c' :=
  let ⟨_, hw, hs⟩ := h
  hw.acts.trans (ReflTransGen.mono (fun _ _ (hact : Dry support event o _ _) => hact.1) _ _ hs)

end

/-! ## Fields -/

namespace Stream

@[simp] theorem core_note (s : Stream) (action : Action) :
    (s.note action).core = s.core.note action := rfl

@[simp] theorem core_setStorage (s : Stream) (storage : Storage) :
    (s.setStorage storage).core = s.core.write storage := rfl

@[simp] theorem core_updateState_follower (s : Stream) :
    (s.updateState .follower).core = s.core.follower := by
  by_cases h : s.address ∈ s.authorities <;> simp [updateState, core, Core.follower, h]

variable {support : Support} {oracle : Oracle} {event : Event} {o : Core}

theorem sends_queue (s : Stream) {message : InternalMessage}
    (h : s.core.Queues o event message) :
    Sends support event o s.core (s.sendInternal message).core :=
  .of_act (.queue message h) rfl

theorem writes_queue (s : Stream) {message : InternalMessage}
    (h : s.core.Queues o event message) :
    Writes support event o s.core (s.sendInternal message).core :=
  .of_act (.queue message h) rfl

theorem sends_chat (s : Stream) (peerId : PeerId) {message : RaftMessage}
    (h : message.IsChat s.publicKey) : Sends support event o s.core (s.response peerId message).core :=
  .of_act (.chat peerId message _ h (Or.inl rfl)) rfl

theorem sends_chatRequest (s : Stream) (peerId : PeerId) {message : Nat → RaftMessage}
    (h : ∀ id, (message id).IsChat s.publicKey) :
    Sends support event o s.core (s.request peerId message).1.core :=
  .of_act (.chat peerId (message s.nextRequestId) _ (h _) (Or.inr rfl)) rfl

theorem sends_requestProposal (s : Stream) (address : Address) (req : RequestProposalReq) :
    Sends support event o s.core (s.requestProposal address req).1.core := by
  have hchat (peerId : PeerId) : Sends support event o s.core
      (s.request peerId fun requestId => .requestProposalReq { req with requestId }).1.core :=
    sends_chatRequest s peerId fun _ => trivial
  unfold requestProposal requestTo
  split
  · exact hchat _
  · exact .refl

theorem writes_follower (s : Stream) :
    Writes support event o s.core (s.updateState .follower).core := by
  refine .of_act (.setState _ ?_) rfl
  by_cases hmember : s.address ∈ s.authorities
  · exact Or.inr (Or.inr (Or.inl ⟨by simp [updateState, hmember], hmember⟩))
  · exact Or.inl (by simp [updateState, hmember])

theorem writes_observer (s : Stream) :
    Writes support event o s.core (s.updateState .observer).core :=
  .of_act (.setState _ (Or.inl rfl)) rfl

theorem writes_shutdown (s : Stream) :
    Writes support event o s.core (s.updateState .shutdown).core :=
  .of_act (.setState _ (Or.inr (Or.inl rfl))) rfl

theorem writes_candidate (s : Stream) (h : s.state = .follower) (hrole : s.role = .follower) :
    Writes support event o s.core (s.updateState .candidate).core :=
  .of_act (.setState _ (Or.inr (Or.inr (Or.inr ⟨by simp [updateState], h, hrole⟩)))) rfl

theorem state_updateState_follower (s : Stream) :
    (s.updateState .follower).state ≠ .leader ∧
      (s.updateState .follower).state ≠ .candidate := by
  have h := s.core.follower_state
  rw [← core_updateState_follower] at h
  exact h

/-- The role is kept, and so is the state unless the node now follows. -/
structure Keeps (s s' : Stream) : Prop where
  role : s'.role = s.role
  state : s'.state = s.state ∨ (s'.state ≠ .leader ∧ s'.state ≠ .candidate)

theorem Keeps.refl (s : Stream) : Keeps s s := ⟨rfl, Or.inl rfl⟩

/-! ## Proposals -/

theorem writes_onProposal (s : Stream) (proposal : Proposal) :
    Writes support event o s.core (s.onProposal support oracle proposal).1.core := by
  unfold onProposal
  split
  · exact .of_act (.proposal (some proposal)) rfl
  · exact .refl
  · exact .refl
  · exact .refl

theorem writes_clearDiscordant (s : Stream) (blockHash : Hash) :
    Writes support event o s.core (s.clearDiscordant blockHash).core := by
  have hfirst : Writes support event o s.core
      (if s.storage.proposal.map Proposal.blockHash = some blockHash then s
        else s.setStorage (s.storage.updateProposal none)).core := by
    split
    · exact .refl
    · exact .of_act (.proposal none) rfl
  unfold clearDiscordant
  generalize (if s.storage.proposal.map Proposal.blockHash = some blockHash then s
    else s.setStorage (s.storage.updateProposal none)) = s' at hfirst
  simp only
  split
  · exact hfirst
  · exact hfirst

theorem writes_verifyPending (s : Stream) :
    Writes support event o s.core (s.verifyPending support oracle).1.core := by
  unfold verifyPending
  split
  · exact .refl
  · exact writes_onProposal { s with pendingProposal := none } _

/-- What storing a proposal does not change. -/
structure SameLog (s s' : Stream) : Prop where
  logs : s'.storage.logs = s.storage.logs
  baseLogIndex : s'.storage.baseLogIndex = s.storage.baseLogIndex
  baseLogTerm : s'.storage.baseLogTerm = s.storage.baseLogTerm
  currentTerm : s'.storage.currentTerm = s.storage.currentTerm
  commitLogIndex : s'.storage.commitLogIndex = s.storage.commitLogIndex
  state : s'.state = s.state
  role : s'.role = s.role
  announcedBy : s'.announcedBy = s.announcedBy
  compared : s'.compared = s.compared

theorem SameLog.refl (s : Stream) : SameLog s s := ⟨rfl, rfl, rfl, rfl, rfl, rfl, rfl, rfl, rfl⟩

theorem SameLog.trans {s s' s'' : Stream} (h : SameLog s s') (h' : SameLog s' s'') :
    SameLog s s'' :=
  ⟨h'.logs.trans h.logs, h'.baseLogIndex.trans h.baseLogIndex,
    h'.baseLogTerm.trans h.baseLogTerm, h'.currentTerm.trans h.currentTerm,
    h'.commitLogIndex.trans h.commitLogIndex, h'.state.trans h.state, h'.role.trans h.role,
    h'.announcedBy.trans h.announcedBy, h'.compared.trans h.compared⟩

theorem sameLog_onProposal (s : Stream) (proposal : Proposal) :
    SameLog s (s.onProposal support oracle proposal).1 := by
  unfold onProposal
  split <;> exact ⟨rfl, rfl, rfl, rfl, rfl, rfl, rfl, rfl, rfl⟩

theorem sameLog_clearDiscordant (s : Stream) (blockHash : Hash) :
    SameLog s (s.clearDiscordant blockHash) := by
  unfold clearDiscordant
  simp only
  split <;> split <;> exact ⟨rfl, rfl, rfl, rfl, rfl, rfl, rfl, rfl, rfl⟩

theorem sameLog_verifyPending (s : Stream) :
    SameLog s (s.verifyPending support oracle).1 := by
  unfold verifyPending
  split
  · exact .refl s
  · next proposal _ =>
    have htaken : SameLog s { s with pendingProposal := none } :=
      ⟨rfl, rfl, rfl, rfl, rfl, rfl, rfl, rfl, rfl⟩
    exact htaken.trans (sameLog_onProposal _ proposal)

theorem SameLog.lastLog {s s' : Stream} (h : SameLog s s') :
    s'.storage.lastLog = s.storage.lastLog := by
  unfold Storage.lastLog
  rw [h.logs, h.baseLogIndex, h.baseLogTerm]

/-! ## Append entries -/

/-- The response that a handler returns, after it was noted in the trace. -/
def Reports (r : Stream × Except HandlerError AppendEntriesRes) (req : AppendEntriesReq) : Prop :=
  ∀ res, r.2 = .ok res → res.requestId = req.requestId ∧
    r.1.trace.head? = some ⟨.report (res.lastLogIndex, res.lastLogTerm), r.1.storage⟩

theorem reports_reportLog (s : Stream) (req : AppendEntriesReq) (success : Bool) (term : Nat)
    (lastLog : Nat × Nat) : Reports (s.reportLog req success term lastLog) req := by
  rintro res ⟨⟩
  exact ⟨rfl, rfl⟩

theorem writes_reportLog (s : Stream) (req : AppendEntriesReq) (success : Bool) (term : Nat)
    {lastLog : Nat × Nat} (h : lastLog = s.storage.lastLog ∨
      lastLog = (s.storage.baseLogIndex, s.storage.baseLogTerm)) :
    Writes support event o s.core (s.reportLog req success term lastLog).1.core :=
  .of_act (.report lastLog h) rfl

theorem sends_reportLog (s : Stream) (req : AppendEntriesReq) (success : Bool) (term : Nat)
    {lastLog : Nat × Nat} (h : lastLog = s.storage.lastLog ∨
      lastLog = (s.storage.baseLogIndex, s.storage.baseLogTerm)) :
    Sends support event o s.core (s.reportLog req success term lastLog).1.core :=
  .of_act (.report lastLog h) rfl

/-- The log that the entries of a request go onto. -/
def Fits (o : Core) (s : Stream) (req : AppendEntriesReq) : Prop :=
  (s.storage.logs = o.storage.logs ∧
      (req.prevLogIndex, req.prevLogTerm) = s.storage.lastLog) ∨
    (prevLogExists o.storage req = true ∧
      s.storage.logs = o.storage.logs.filter fun p => p.1 < wrapAdd 64 req.prevLogIndex 1)

theorem Fits.of_sameLog {s s' : Stream} {req : AppendEntriesReq} (h : Fits o s req)
    (hsame : SameLog s s') : Fits o s' req := by
  unfold Fits
  rw [hsame.logs, hsame.lastLog]
  exact h

theorem SameLog.follows {s s' : Stream} (hsame : SameLog s s') {address : Address}
    {req : AppendEntriesReq} (h : s.core.Follows o event address req) :
    s'.core.Follows o event address req := by
  obtain ⟨hreceives, hterm, hnow, hindex, hbase⟩ := h
  exact ⟨hreceives, hterm, hsame.currentTerm.trans hnow, hsame.baseLogIndex.trans hindex,
    hsame.baseLogTerm.trans hbase⟩

section

variable {s : Stream} {address : Address} {req : AppendEntriesReq}
  (hfollows : s.core.Follows o event address req)
  (hnext : req.entries.head?.map Entry.index = some (wrapAdd 64 req.prevLogIndex 1))

include hfollows

theorem writes_compare {index : Nat} :
    Writes support event o s.core (s.compare (address, req.term) index).core :=
  .of_act (.compare address req index _ hfollows) rfl

include hnext

theorem writes_storeEntries (hfits : Fits o s req) :
    Writes support event o s.core (s.storeEntries address req).1.core := by
  have hextend : Writes support event o s.core
      (s.setStorage (s.storage.appendLogEntries req.entries)).core :=
    .of_act (.extend address req hfollows hnext hfits) rfl
  have hcompare : Writes support event o
      (s.setStorage (s.storage.appendLogEntries req.entries)).core
      (((s.setStorage (s.storage.appendLogEntries req.entries)).forgetFrom req.entries).compare
        (address, req.term) (s.storage.appendLogEntries req.entries).lastLog.1).core :=
    .of_act (.compare address req _ _ hfollows) rfl
  exact (hextend.trans hcompare).trans (writes_reportLog _ req true _ (Or.inl rfl))

/-- What performing a request leaves for the response. -/
structure Performed (s : Stream) (req : AppendEntriesReq)
    (r : Stream × Except HandlerError AppendEntriesRes) : Prop where
  reports : Reports r req
  term : r.1.storage.currentTerm = s.storage.currentTerm
  state : r.1.state = s.state
  role : r.1.role = s.role

omit hfollows hnext in
theorem performed_storeEntries : Performed s req (s.storeEntries address req) :=
  ⟨reports_reportLog _ _ _ _ _, rfl, rfl, rfl⟩

omit hfollows hnext in
theorem sends_awaitProposal :
    Sends support event o s.core (s.awaitProposal oracle address req).1.core := by
  unfold awaitProposal
  simp only
  split
  · refine (sends_requestProposal s address { requestId := 0 }).trans ?_
    exact sends_reportLog { (s.requestProposal address { requestId := 0 }).1 with
      lastRequestProposal := true } req false _ (Or.inl rfl)
  · exact sends_reportLog s req false _ (Or.inl rfl)

omit hfollows hnext in
theorem sameLog_requestTo (message : Nat → RaftMessage) :
    SameLog s (s.requestTo address message).1 := by
  unfold requestTo
  split <;> exact ⟨rfl, rfl, rfl, rfl, rfl, rfl, rfl, rfl, rfl⟩

omit hfollows hnext in
theorem performed_awaitProposal : Performed s req (s.awaitProposal oracle address req) := by
  have hsame : SameLog s (s.requestProposal address { requestId := 0 }).1 :=
    sameLog_requestTo _
  unfold awaitProposal
  simp only
  split
  · exact ⟨reports_reportLog _ _ _ _ _, hsame.currentTerm, hsame.state, hsame.role⟩
  · exact ⟨reports_reportLog _ _ _ _ _, rfl, rfl, rfl⟩

theorem moves_performAppendEntries (hfits : Fits o s req) :
    Moves support event o s.core
        (s.performAppendEntries support oracle address req).1.core ∧
      Performed s req (s.performAppendEntries support oracle address req) := by
  unfold performAppendEntries
  split
  · exact ⟨(writes_storeEntries hfollows hnext hfits).moves, performed_storeEntries⟩
  · next blockHash _ =>
    have hwrites : Writes support event o s.core
        ((s.clearDiscordant blockHash).verifyPending support oracle).1.core :=
      (writes_clearDiscordant s blockHash).trans (writes_verifyPending _)
    have hsame : SameLog s ((s.clearDiscordant blockHash).verifyPending support oracle).1 :=
      (sameLog_clearDiscordant s blockHash).trans (sameLog_verifyPending _)
    rcases hpending : (s.clearDiscordant blockHash).verifyPending support oracle with ⟨s', r⟩
    rw [hpending] at hwrites hsame
    cases r with
    | error e =>
        exact ⟨hwrites.moves, nofun, hsame.currentTerm, hsame.state, hsame.role⟩
    | ok u =>
        simp only
        split
        · have hperformed : Performed s' req (s'.storeEntries address req) :=
            performed_storeEntries
          refine ⟨(hwrites.trans (writes_storeEntries (hsame.follows hfollows) hnext
            (hfits.of_sameLog hsame))).moves, hperformed.reports, ?_, ?_, ?_⟩
          · exact hperformed.term.trans hsame.currentTerm
          · exact hperformed.state.trans hsame.state
          · exact hperformed.role.trans hsame.role
        · have hperformed : Performed s' req (s'.awaitProposal oracle address req) :=
            performed_awaitProposal
          refine ⟨hwrites.moves.sends sends_awaitProposal, hperformed.reports, ?_, ?_, ?_⟩
          · exact hperformed.term.trans hsame.currentTerm
          · exact hperformed.state.trans hsame.state
          · exact hperformed.role.trans hsame.role

end

/-- What following a leader does before the log is looked at. -/
theorem followLeader_spec (s : Stream) {address : Address} {req : AppendEntriesReq}
    (hreceives : s.core.Receives event address (.appendEntriesReq req))
    (hterm : s.storage.currentTerm ≤ req.term) :
    Writes support event s.core s.core (s.followLeader address req).core ∧
      (s.followLeader address req).core.Follows s.core event address req ∧
      (s.followLeader address req).storage.logs = s.storage.logs ∧
      ((s.followLeader address req).state ≠ .leader ∧
        (s.followLeader address req).state ≠ .candidate) ∧
      (s.followLeader address req).role = s.role := by
  have hfollow : Act support event s.core s.core
      { (s.core.note (.follow address req)).write
          (s.core.storage.updateCommitLogIndex req.commitLogIndex) with
        announcedBy := some (address, req.term) }.follower :=
    .follow address req hreceives rfl hterm
  unfold followLeader
  by_cases hsame : req.term = s.storage.currentTerm
  · have hif : ¬ (req.term ≠ (s.note (.follow address req)).storage.currentTerm) :=
      not_not.2 hsame
    simp only [if_neg hif, core_updateState_follower]
    refine ⟨.of_act hfollow rfl, ⟨hreceives, hterm, hsame.symm, rfl, rfl⟩, rfl,
      state_updateState_follower _, rfl⟩
  · have hif : req.term ≠ (s.note (.follow address req)).storage.currentTerm := hsame
    simp only [if_pos hif, core_updateState_follower]
    have hhigher : s.storage.currentTerm < req.term := lt_of_le_of_ne hterm (Ne.symm hsame)
    exact ⟨(Writes.of_act hfollow rfl).trans
      (.of_act (.newTerm req.term (Core.follower_state _) hhigher) rfl),
      ⟨hreceives, hterm, rfl, rfl, rfl⟩, rfl, state_updateState_follower _, rfl⟩

/-- Handling a request of a leader: the moves, and what the response relies on. -/
theorem onReqAppendEntries_spec (s : Stream) {address : Address} {req : AppendEntriesReq}
    (hreceives : s.core.Receives event address (.appendEntriesReq req)) :
    let r := s.onReqAppendEntries support oracle address req
    Moves support event s.core s.core r.1.core ∧ Reports r req ∧
      (∀ res, r.2 = .ok res → req.term < res.term ∨ r.1.storage.currentTerm = req.term) ∧
      Keeps s r.1 := by
  simp only
  unfold onReqAppendEntries
  simp only
  split
  · next hold =>
    refine ⟨(writes_reportLog s req false _ (Or.inl rfl)).moves, reports_reportLog _ _ _ _ _, ?_,
      rfl, Or.inl rfl⟩
    rintro res ⟨⟩
    exact Or.inl hold
  · next hterm =>
    obtain ⟨hwrites, hfollows, hlogs, hcalm, hrole⟩ :=
      @followLeader_spec support event s address req hreceives (not_lt.1 hterm)
    generalize s.followLeader address req = s' at hwrites hfollows hlogs hcalm hrole
    have hnow : s'.storage.currentTerm = req.term := hfollows.2.2.1
    cases hentries : req.entries with
    | nil =>
        exact ⟨(hwrites.trans (writes_reportLog s' req true _ (Or.inl rfl))).moves,
          reports_reportLog _ _ _ _ _, fun _ _ => Or.inr hnow, hrole, Or.inr hcalm⟩
    | cons entry entries =>
        simp only
        split
        · exact ⟨(hwrites.trans (writes_reportLog s' req false _ (Or.inl rfl))).moves,
            reports_reportLog _ _ _ _ _, fun _ _ => Or.inr hnow, hrole, Or.inr hcalm⟩
        · next hindex =>
          have hnext : req.entries.head?.map Entry.index =
              some (wrapAdd 64 req.prevLogIndex 1) := by
            rw [hentries]
            exact congrArg some (not_not.1 hindex)
          have hperform {s'' : Stream} (hw : Writes support event s.core s.core s''.core)
              (hf : s''.core.Follows s.core event address req) (hfits : Fits s.core s'' req)
              (hstate : s''.state = s'.state) (hrole' : s''.role = s.role) :
              let r := s''.performAppendEntries support oracle address req
              Moves support event s.core s.core r.1.core ∧ Reports r req ∧
                (∀ res, r.2 = .ok res →
                  req.term < res.term ∨ r.1.storage.currentTerm = req.term) ∧
                Keeps s r.1 := by
            obtain ⟨hmoves, hperformed⟩ :=
              @moves_performAppendEntries support oracle event s.core s'' address req hf hnext hfits
            refine ⟨Moves.after hw hmoves, hperformed.reports,
              fun _ _ => Or.inr (hperformed.term.trans hf.2.2.1),
              hperformed.role.trans hrole', Or.inr ?_⟩
            rw [hperformed.state, hstate]
            exact hcalm
          split
          · next hprev =>
            exact hperform (hwrites.trans (writes_compare hfollows)) hfollows
              (Or.inl ⟨hlogs, hprev⟩) rfl hrole
          · split
            · exact ⟨(hwrites.trans (writes_reportLog s' req false _ (Or.inr rfl))).moves,
                reports_reportLog _ _ _ _ _, fun _ _ => Or.inr hnow, hrole, Or.inr hcalm⟩
            · next hexists =>
              have hexists : prevLogExists s'.storage req = true := by simpa using hexists
              have horigin : prevLogExists s.storage req = true := by
                have hindex : s'.storage.baseLogIndex = s.storage.baseLogIndex :=
                  hfollows.2.2.2.1
                have hbase : s'.storage.baseLogTerm = s.storage.baseLogTerm :=
                  hfollows.2.2.2.2
                rw [← hexists, prevLogExists, prevLogExists, Storage.getLogEntries,
                  Storage.getLogEntries, hlogs, hindex, hbase]
              have htruncate : Writes support event s.core s.core
                  (s'.setStorage (s'.storage.deleteLogEntries
                    (wrapAdd 64 req.prevLogIndex 1))).core :=
                hwrites.trans
                  (.of_act (.truncate address req hfollows hlogs hexists hnext) rfl)
              have hfollows' : (s'.setStorage (s'.storage.deleteLogEntries
                  (wrapAdd 64 req.prevLogIndex 1))).core.Follows s.core event address req :=
                hfollows
              refine hperform (htruncate.trans (writes_compare hfollows')) hfollows'
                (Or.inr ⟨horigin, ?_⟩) rfl hrole
              exact congrArg (List.filter _) hlogs

/-! ## Votes -/

/-- A vote that is not taken yet is given. -/
theorem writes_vote (s : Stream) {address : Address} {req : RequestVoteReq}
    (hreceives : o.Receives event address (.requestVoteReq req))
    (hterm : s.storage.currentTerm = req.term) (hnone : s.storage.currentVotedFor = none) :
    Writes support event o s.core
      ((s.updateState .follower).setStorage
        (s.storage.updateCurrentVotedFor (some address))).core :=
  (writes_follower s).trans
    (.of_act (.vote address req hreceives hterm hnone (state_updateState_follower s)) rfl)

/-- A higher term of a request is taken over. -/
theorem takeTerm_spec (s : Stream) (term : Nat) (hterm : s.storage.currentTerm ≤ term) :
    let s' := if s.storage.currentTerm < term then
      (s.updateState .follower).updateTermVote term none else s
    Writes support event o s.core s'.core ∧ Keeps s s' ∧ s'.storage.currentTerm = term := by
  simp only
  split
  · next hhigher =>
    exact ⟨(writes_follower s).trans
      (.of_act (.newTerm term (state_updateState_follower s) hhigher) rfl),
      ⟨rfl, Or.inr (state_updateState_follower s)⟩, rfl⟩
  · next hsame => exact ⟨.refl, .refl s, le_antisymm hterm (not_lt.1 hsame)⟩

/-- Handling a request for a vote: a vote that is granted is in the trace. -/
theorem onReqRequestVote_spec (s : Stream) {address : Address} {req : RequestVoteReq}
    (hreceives : s.core.Receives event address (.requestVoteReq req)) :
    let r := s.onReqRequestVote oracle address req
    Writes support event s.core s.core r.1.core ∧ Keeps s r.1 ∧
      r.2.requestId = req.requestId ∧
      (r.2.voteGranted = true → ∃ record ∈ r.1.trace,
        record.action = .grant address (req.lastLogIndex, req.lastLogTerm) ∧
          record.storage.currentTerm = req.term) := by
  simp only
  unfold onReqRequestVote
  simp only
  split
  · exact ⟨.refl, .refl s, rfl, nofun⟩
  · next hterm =>
    split
    · exact ⟨.refl, .refl s, rfl, nofun⟩
    · obtain ⟨hwrites, hkeeps, hnow⟩ :=
        @takeTerm_spec support event s.core s req.term (not_lt.1 hterm)
      generalize (if s.storage.currentTerm < req.term then
        (s.updateState .follower).updateTermVote req.term none else s) = s' at hwrites hkeeps hnow
      split
      · exact ⟨hwrites, hkeeps, rfl, nofun⟩
      · next hlast =>
        obtain ⟨hindex, hbase⟩ := not_or.1 hlast
        -- the vote is for the sender of the request, whether it is new or not
        have hgrant {s'' : Stream} (hlogs : s''.storage.lastLog = s'.storage.lastLog)
            (hnow' : s''.storage.currentTerm = req.term)
            (hvoted : s''.storage.currentVotedFor = some address) :
            Writes support event s.core s''.core
              (s''.note (.grant address (req.lastLogIndex, req.lastLogTerm))).core := by
          refine .of_act (.grant address _ hvoted ?_
            (Or.inr ⟨req, hreceives, hnow'.symm, rfl⟩)) rfl
          change s''.storage.lastLog.1 ≤ _ ∧ s''.storage.lastLog.2 ≤ _
          rw [hlogs]
          exact ⟨not_lt.1 hindex, not_lt.1 hbase⟩
        split
        · next votedAddress hvoted =>
          split
          · next haddress =>
            subst haddress
            exact ⟨hwrites.trans (hgrant rfl hnow hvoted), ⟨hkeeps.role, hkeeps.state⟩, rfl,
              fun _ => ⟨_, List.mem_cons_self, rfl, hnow⟩⟩
          · exact ⟨hwrites, hkeeps, rfl, nofun⟩
        · next hnone =>
          have hvote := @writes_vote support event s.core s' address req hreceives hnow hnone
          exact ⟨(hwrites.trans hvote).trans (hgrant rfl hnow rfl),
            ⟨hkeeps.role, Or.inr (state_updateState_follower s')⟩, rfl,
            fun _ => ⟨_, List.mem_cons_self, rfl, hnow⟩⟩

/-! ## Committing a block -/

theorem number_of_commitBlock {chain chain' : Chain} {params : CommitBlockParams}
    {proof : RaftProof} (h : support.commitBlock chain params proof = .ok chain') :
    params.header.number = chain.length + 1 ∧
      chain' = { blockHash := params.blockHash, header := params.header, proof } :: chain := by
  unfold Support.commitBlock at h
  split at h
  · exact nomatch h
  · split at h
    · next hnext => exact ⟨hnext.1, (Except.ok.inj h).symm⟩
    · exact nomatch h

theorem onLogUpdated_spec (s : Stream) (hstart : s.core.storage = o.storage) :
    Writes support event o s.core (s.onLogUpdated support).core ∧
      Keeps s (s.onLogUpdated support) := by
  unfold onLogUpdated
  split
  · exact ⟨.refl, .refl s⟩
  · next blockHash hfound =>
    split
    · exact ⟨.refl, .refl s⟩
    · simp only
      split
      · exact ⟨.refl, rfl, Or.inl rfl⟩
      · next params _ =>
        split
        · exact ⟨.refl, rfl, Or.inl rfl⟩
        · next chain hcommit =>
          obtain ⟨hnumber, rfl⟩ := number_of_commitBlock hcommit
          have hisSome : (committedBlockHash s.storage).isSome := by rw [hfound]; rfl
          exact ⟨.of_act (.commit _ hstart hnumber hisSome rfl) rfl, rfl, Or.inl rfl⟩

theorem onBlockCommitted_spec (s : Stream) (htold : event = .blockCommitted) :
    Writes support event s.core s.core (s.onBlockCommitted support).core ∧
      Keeps s (s.onBlockCommitted support) := by
  have hrefresh : Writes support event s.core s.core s.refresh.core :=
    .of_act (.refresh htold rfl) rfl
  unfold onBlockCommitted
  simp only
  split
  · next hother =>
    have hauthorities : Writes support event s.core s.refresh.core
        { s.refresh with
          authorities := support.getRaftAuthorities s.refresh.storage.chain
            s.refresh.storage.chain.length }.core :=
      .of_act (.authorities htold) rfl
    refine ⟨(hrefresh.trans hauthorities).trans (writes_queue _ ?_), rfl, Or.inl rfl⟩
    exact ⟨rfl, Ne.symm hother⟩
  · exact ⟨hrefresh, rfl, Or.inl rfl⟩

/-! ## Peers -/

/-- The table of peers after one peer was set. -/
theorem address_insert {peers : List (PeerId × PeerInfo)} {peerId peerId' : PeerId}
    {info : PeerInfo} {address : Address}
    (h : (AssocMap.get? (AssocMap.insert peers peerId info) peerId').bind PeerInfo.address =
      some address) :
    (AssocMap.get? peers peerId').bind PeerInfo.address = some address ∨
      (peerId' = peerId ∧ info.address = some address) := by
  rw [AssocMap.get?_insert] at h
  split at h
  · next hpeer => exact Or.inr ⟨hpeer, h⟩
  · exact Or.inl h

theorem registerValidator_spec (s : Stream) (peerId : PeerId) :
    Sends support event o s.core (s.registerValidator support peerId).core ∧
      Keeps s (s.registerValidator support peerId) := by
  unfold registerValidator
  split
  · exact ⟨.refl, .refl s⟩
  · exact ⟨sends_chatRequest s peerId fun _ => rfl, rfl, Or.inl rfl⟩

theorem onNetworkProtocolOpen_spec (s : Stream) (peerId : PeerId)
    (localNonce remoteNonce : Nat) :
    Moves support event o s.core
        (s.onNetworkProtocolOpen support peerId localNonce remoteNonce).core ∧
      Keeps s (s.onNetworkProtocolOpen support peerId localNonce remoteNonce) := by
  unfold onNetworkProtocolOpen
  have hpeers : Writes support event o s.core
      { s with
        peers := AssocMap.insert s.peers peerId
          { localNonce, remoteNonce, address := none } }.core := by
    refine .of_act (.peers _ s.knownValidators ?_ fun _ _ h => Or.inl h) rfl
    intro peerId' address h
    rcases address_insert h with h | ⟨-, h⟩
    · exact Or.inl h
    · exact nomatch h
  obtain ⟨hsends, hkeeps⟩ := @registerValidator_spec support event o
    { s with
      peers := AssocMap.insert s.peers peerId { localNonce, remoteNonce, address := none } } peerId
  exact ⟨hpeers.moves.sends hsends, hkeeps.role, hkeeps.state⟩

theorem onNetworkProtocolClose_spec (s : Stream) (peerId : PeerId) :
    Writes support event o s.core (s.onNetworkProtocolClose peerId).core ∧
      Keeps s (s.onNetworkProtocolClose peerId) := by
  refine ⟨.of_act (.peers _ _ ?_ ?_) rfl, rfl, Or.inl rfl⟩
  · intro peerId' address h
    unfold onNetworkProtocolClose at h
    rw [AssocMap.get?_erase] at h
    split at h
    · cases h
    · exact Or.inl h
  · intro address peerId' h
    unfold onNetworkProtocolClose at h
    cases haddress : s.getPeerAddress peerId with
    | none =>
        rw [haddress] at h
        exact Or.inl h
    | some address' =>
        simp only [haddress, AssocMap.get?_erase] at h
        split at h
        · cases h
        · exact Or.inl h

theorem onReqRegisterValidator_spec (s : Stream) {peerId : PeerId} {req : RegisterValidatorReq}
    (hevent : event = .message peerId (some (.registerValidatorReq req))) :
    Writes support event o s.core (s.onReqRegisterValidator support peerId req).1.core ∧
      Keeps s (s.onReqRegisterValidator support peerId req).1 := by
  unfold onReqRegisterValidator
  split
  · exact ⟨.refl, .refl s⟩
  · split
    · exact ⟨.refl, .refl s⟩
    · split
      · exact ⟨.refl, .refl s⟩
      · refine ⟨.of_act (.peers _ _ ?_ ?_) rfl, rfl, Or.inl rfl⟩
        · intro peerId' address h
          rcases address_insert h with hold | ⟨rfl, hnew⟩
          · exact Or.inl hold
          · exact Or.inr ⟨req, hevent, Option.some.inj hnew⟩
        · intro address peerId' h
          rw [AssocMap.get?_insert] at h
          split at h
          · next haddress =>
            exact Or.inr ⟨req, Option.some.inj h ▸ hevent, haddress.symm⟩
          · exact Or.inl h

theorem onReqRequestProposal_spec (s : Stream) (peerId : PeerId) (address : Address)
    (req : RequestProposalReq) :
    Sends support event o s.core (s.onReqRequestProposal peerId address req).core ∧
      Keeps s (s.onReqRequestProposal peerId address req) := by
  unfold onReqRequestProposal
  split
  · exact ⟨.refl, .refl s⟩
  · simp only
    split
    · next proposal _ peerId' _ =>
      have hfirst : Sends support event o s.core (s.response peerId'
          (.requestProposalRes { requestId := 0, proposal := none })).core :=
        sends_chat s peerId' trivial
      exact ⟨hfirst.trans (sends_chat _ peerId trivial), rfl, Or.inl rfl⟩
    · exact ⟨sends_chat s peerId trivial, rfl, Or.inl rfl⟩

theorem onResRequestProposal_spec (s : Stream) (res : RequestProposalRes) :
    Writes support event o s.core (s.onResRequestProposal support oracle res).core ∧
      Keeps s (s.onResRequestProposal support oracle res) := by
  unfold onResRequestProposal
  split
  · exact ⟨.refl, .refl s⟩
  · next proposal _ =>
    have hsame : SameLog s (s.onProposal support oracle proposal).1 := sameLog_onProposal s proposal
    exact ⟨writes_onProposal s proposal, hsame.role, Or.inl hsame.state⟩

/-! ## Messages in -/

theorem onNetworkMessage_spec (s : Stream) {peerId : PeerId} {message : RaftMessage}
    (hevent : event = .message peerId (some message)) :
    Moves support event s.core s.core (s.onNetworkMessage support oracle peerId message).core ∧
      Keeps s (s.onNetworkMessage support oracle peerId message) := by
  have hreceives {address : Address} (hpeer : s.getPeerAddress peerId = some address) :
      s.core.Receives event address message :=
    ⟨peerId, hevent, hpeer⟩
  unfold onNetworkMessage
  split
  · next req =>
    obtain ⟨hwrites, hkeeps⟩ :=
      @onReqRegisterValidator_spec support event s.core s peerId _ hevent
    rcases hresult : s.onReqRegisterValidator support peerId req with ⟨s', r⟩
    rw [hresult] at hwrites hkeeps
    cases r with
    | error e => exact ⟨hwrites.moves, hkeeps⟩
    | ok res => exact ⟨hwrites.moves.sends (sends_chat s' peerId trivial), hkeeps.role, hkeeps.state⟩
  · next req address hpeer =>
    obtain ⟨hmoves, hreports, hterm, hkeeps⟩ :=
      @onReqAppendEntries_spec support oracle event s address req (hreceives hpeer)
    rcases hresult : s.onReqAppendEntries support oracle address req with ⟨s', r⟩
    rw [hresult] at hmoves hreports hterm hkeeps
    cases r with
    | error e => exact ⟨hmoves, hkeeps⟩
    | ok res =>
        obtain ⟨hid, hreport⟩ := hreports res rfl
        have hrespond : Sends support event s.core (s'.sendInternal .logUpdated).core
            ((s'.sendInternal .logUpdated).response peerId (.appendEntriesRes res)).core :=
          .of_act (.respondAppend peerId address req res hevent hpeer hid (hterm res rfl) hreport)
            rfl
        have hqueue : Sends support event s.core s'.core (s'.sendInternal .logUpdated).core :=
          sends_queue s' trivial
        exact ⟨(hmoves.sends hqueue).sends hrespond, hkeeps.role, hkeeps.state⟩
  · next res address hpeer =>
    have hqueues : s.core.Queues s.core event (.appendEntriesRes address res) := hreceives hpeer
    exact ⟨(writes_queue s hqueues).moves, rfl, Or.inl rfl⟩
  · next req address hpeer =>
    obtain ⟨hwrites, hkeeps, hid, hgranted⟩ :=
      @onReqRequestVote_spec support oracle event s address req (hreceives hpeer)
    exact ⟨hwrites.moves.sends
      (.of_act (.respondVote peerId address req _ hevent hpeer hid hgranted) rfl),
      hkeeps.role, hkeeps.state⟩
  · next res address hpeer =>
    have hqueues : s.core.Queues s.core event (.requestVoteRes address res) := hreceives hpeer
    exact ⟨(writes_queue s hqueues).moves, rfl, Or.inl rfl⟩
  · next req address _ =>
    obtain ⟨hsends, hkeeps⟩ :=
      @onReqRequestProposal_spec support event s.core s peerId address req
    exact ⟨hsends.moves, hkeeps⟩
  · next res _ _ =>
    obtain ⟨hwrites, hkeeps⟩ := @onResRequestProposal_spec support oracle event s.core s res
    exact ⟨hwrites.moves, hkeeps⟩
  · exact ⟨Writes.refl.moves, .refl s⟩

end Stream

end Finastate.Raft
