import Finastate.Raft.Run

/-!
# What a Raft node commits

The log has the hash of the block to commit. The block itself is the one that
is kept, if it has this hash, and else it is built from the stored proposal,
whatever block that is for. A stored proposal always builds the block it names
as long as its height is not passed, so the node commits the block of its log if
and only if the kept block or the stored proposal is for this block.
-/

namespace Finastate.Raft

open Verifier (verifyProposal)

/-! ## The block of a proposal -/

section Backed

variable (support : Support)

/-- What the block of a stored proposal is built from. -/
def blockParams (proposal : Proposal) : BuildBlockParams where
  number := proposal.number
  timestamp := proposal.timestamp
  metaTxs := Stream.convertTxs support proposal.metaTxs
  payloadTxs := Stream.convertTxs support proposal.payloadTxs
  executionNumber := proposal.executionNumber

/-- At its height the proposal builds the block that it names. -/
def Backed (chain : Chain) (proposal : Proposal) : Prop :=
  ∃ below params, below <:+ chain ∧ proposal.number = below.length + 1 ∧
    support.buildBlock below (blockParams support proposal) = .ok params ∧
    params.blockHash = proposal.blockHash

variable {support} {chain chain' : Chain} {proposal : Proposal} {params : CommitBlockParams}

theorem Backed.mono (h : Backed support chain proposal) (hsuffix : chain <:+ chain') :
    Backed support chain' proposal := by
  obtain ⟨below, params, hbelow, hbuilt⟩ := h
  exact ⟨below, params, hbelow.trans hsuffix, hbuilt⟩

/-- While its height is the next one, the proposal builds no other block. -/
theorem Backed.blockHash_eq (h : Backed support chain proposal)
    (hnumber : proposal.number = chain.length + 1)
    (hbuild : support.buildBlock chain (blockParams support proposal) = .ok params) :
    params.blockHash = proposal.blockHash := by
  obtain ⟨below, params', hbelow, hheight, hbuild', hhash⟩ := h
  have hlength : below.length = chain.length := Nat.succ.inj (hheight.symm.trans hnumber)
  rw [hbelow.eq_of_length hlength, hbuild] at hbuild'
  rw [Except.ok.inj hbuild']
  exact hhash

theorem Verifier.getVerifiedTxs_eq {executedNumber : BlockNumber} {txs : List Transaction}
    {set : List Hash} {fullTxs : List FullTransaction}
    (h : Consensus.Verifier.getVerifiedTxs (support.verifierSupport chain executedNumber) txs set =
      .ok fullTxs) :
    fullTxs = Stream.convertTxs support txs := by
  induction txs generalizing set fullTxs with
  | nil =>
      cases h
      rfl
  | cons tx txs ih =>
      obtain ⟨set', -, h⟩ := Result.bind_eq_ok.1 h
      obtain ⟨rest, hrest, h⟩ := Result.bind_eq_ok.1 h
      cases h
      rw [ih hrest]
      rfl

/-- A proposal that passes verification is for the next height, and it builds
the block that it names. -/
theorem Verifier.backed_of_verifyProposal {executedNumber : BlockNumber}
    (h : verifyProposal support chain executedNumber proposal = .ok params) :
    Backed support chain proposal := by
  obtain ⟨_, _, h⟩ := Result.bind_eq_ok.1 h
  obtain ⟨confirmedHeader, hbest, h⟩ := Result.bind_eq_ok.1 h
  obtain ⟨_, _, h⟩ := Result.bind_eq_ok.1 h
  obtain ⟨txs, hbody, h⟩ := Result.bind_eq_ok.1 h
  obtain ⟨metaTxs, hmeta, hbody⟩ := Result.bind_eq_ok.1 hbody
  obtain ⟨payloadTxs, hpayload, hbody⟩ := Result.bind_eq_ok.1 hbody
  cases hbody
  simp only [getVerifiedTxs_eq hmeta, getVerifiedTxs_eq hpayload] at h
  obtain ⟨-, hnumber, -⟩ := Consensus.Verifier.verifyBest_eq_ok_iff.1 hbest
  obtain ⟨hbuild, hhash⟩ := Consensus.Verifier.verifyHeader_eq_ok_iff.1 h
  exact ⟨chain, params, List.suffix_rfl, hnumber, hbuild, hhash⟩

end Backed

/-- What a refresh leaves has the same proposal, or none. -/
theorem Storage.proposal_of_mem_refreshDbs {chain : Chain} {db db' : Db}
    (h : db' ∈ refreshDbs chain db) : db'.proposal = db.proposal ∨ db'.proposal = some none := by
  have hterm : ∀ db term, (fixCurrentTerm db term).proposal = db.proposal := by
    intro db term
    unfold fixCurrentTerm
    split <;> rfl
  have hindex : ∀ db index, (fixCommitLogIndex db index).proposal = db.proposal := by
    intro db index
    unfold fixCommitLogIndex
    split <;> rfl
  have hlogs : ∀ db index, (fixLogs db index).proposal = db.proposal := by
    intro db index
    unfold fixLogs
    split <;> rfl
  have hproposal : ∀ db, (fixProposal db).proposal = db.proposal ∨
      (fixProposal db).proposal = some none := by
    intro db
    unfold fixProposal
    split
    · exact Or.inl rfl
    · exact Or.inr rfl
  simp only [refreshDbs, List.mem_cons, List.not_mem_nil, or_false] at h
  rcases h with rfl | rfl | rfl | rfl
  · have hlast := hproposal (fixLogs (fixCommitLogIndex (fixCurrentTerm db (basePosition chain).2)
      (basePosition chain).1) (basePosition chain).1)
    rwa [hlogs, hindex, hterm] at hlast
  · exact Or.inl ((hlogs _ _).trans ((hindex _ _).trans (hterm _ _)))
  · exact Or.inl ((hindex _ _).trans (hterm _ _))
  · exact Or.inl (hterm _ _)

/-! ## Committing -/

namespace Stream

section Commit

variable {support : Support} {s : Stream} {blockHash : Hash}

/-- The kept block or the stored proposal is for this block. -/
def Accordant (s : Stream) (blockHash : Hash) : Prop :=
  s.commitBlockParams.map CommitBlockParams.blockHash = some blockHash ∨
    s.storage.proposal.map Proposal.blockHash = some blockHash

instance (s : Stream) (blockHash : Hash) : Decidable (s.Accordant blockHash) :=
  inferInstanceAs (Decidable (_ ∨ _))

/-- The log has a block to commit, and the node commits one. -/
structure CommitsAs (support : Support) (s : Stream) (blockHash : Hash) (block : ConfirmedBlock) :
    Prop where
  found : committedBlockHash s.storage = some blockHash
  chain : (s.onLogUpdated support).storage.chain = block :: s.storage.chain

/-- A node that commits has a stored proposal, and takes the block that is kept
or built. -/
theorem CommitsAs.taken {block : ConfirmedBlock} (h : s.CommitsAs support blockHash block) :
    ∃ proposal params proof, s.storage.proposal = some proposal ∧
      s.takeCommitBlockParams support blockHash proposal = .ok params ∧
      support.commitBlock s.storage.chain params proof = .ok (block :: s.storage.chain) := by
  have hchain := h.chain
  have hstays : ∀ {s' : Stream}, s'.storage.chain = s.storage.chain →
      s'.storage.chain = block :: s.storage.chain → False := fun hsame hgrown =>
    List.cons_ne_self block s.storage.chain (hgrown.symm.trans hsame)
  unfold onLogUpdated at hchain
  rw [h.found] at hchain
  simp only at hchain
  cases hproposal : s.storage.proposal with
  | none =>
      simp only [hproposal] at hchain
      exact absurd hchain (hstays rfl)
  | some proposal =>
      simp only [hproposal] at hchain
      cases hparams : s.takeCommitBlockParams support blockHash proposal with
      | error e =>
          simp only [hparams] at hchain
          exact absurd hchain (hstays rfl)
      | ok params =>
          simp only [hparams] at hchain
          split at hchain
          · exact absurd hchain (hstays rfl)
          · next chain hcommit =>
            have hgrown : chain = block :: s.storage.chain := hchain
            rw [hgrown] at hcommit
            exact ⟨proposal, params, _, rfl, hparams, hcommit⟩

/-- The committed block is the block of the log if and only if the kept block
or the stored proposal is for it. -/
theorem CommitsAs.blockHash_eq_iff {block : ConfirmedBlock}
    (h : s.CommitsAs support blockHash block)
    (hbacked : ∀ proposal ∈ s.storage.proposal, Backed support s.storage.chain proposal) :
    block.blockHash = blockHash ↔ s.Accordant blockHash := by
  obtain ⟨proposal, params, proof, hproposal, htaken, hcommit⟩ := h.taken
  obtain ⟨hnumber, hblock⟩ := number_of_commitBlock hcommit
  have hhash : block.blockHash = params.blockHash :=
    congrArg ConfirmedBlock.blockHash (List.cons.inj hblock).1
  rw [hhash, Accordant, hproposal]
  unfold takeCommitBlockParams at htaken
  cases hkept : s.commitBlockParams.filter fun params => params.blockHash = blockHash with
  | some kept =>
      rw [hkept] at htaken
      cases htaken
      obtain ⟨hsome, hsame⟩ := Option.filter_eq_some_iff.1 hkept
      have hsame : params.blockHash = blockHash := of_decide_eq_true hsame
      rw [hsome]
      exact ⟨fun _ => Or.inl (congrArg some hsame), fun _ => hsame⟩
  | none =>
      rw [hkept] at htaken
      have hbuild :
          support.buildBlock s.storage.chain (blockParams support proposal) = .ok params := htaken
      have hheight := (Consensus.Support.buildBlock_eq_ok hbuild).2.1.symm.trans hnumber
      have hbuilt : params.blockHash = proposal.blockHash :=
        (hbacked proposal hproposal).blockHash_eq hheight hbuild
      have hother : s.commitBlockParams.map CommitBlockParams.blockHash ≠ some blockHash := by
        intro hsame
        obtain ⟨kept, hsome, hsame⟩ := Option.map_eq_some_iff.1 hsame
        have hnone := Option.filter_eq_none_iff.1 hkept kept hsome
        simp [hsame] at hnone
      rw [hbuilt]
      constructor
      · intro heq
        exact Or.inr (congrArg some heq)
      · intro hor
        exact Option.some.inj (hor.resolve_left hother)

end Commit

end Stream

/-! ## What is stored -/

/-- What is stored, and what the run has recorded. -/
structure Ledger where
  storage : Storage
  history : List Snapshot
  trace : List Record

def Stream.ledger (s : Stream) : Ledger where
  storage := s.storage
  history := s.history
  trace := s.trace

/-- Every proposal on disk, now or after some write, is backed, and the records
that have been made are good ones. -/
structure Stream.Lasting (support : Support) (Good : Record → Prop) (s : Stream) : Prop where
  db : ∀ proposal ∈ s.storage.db.proposal.getD none, Backed support s.storage.chain proposal
  history : ∀ x ∈ s.history, ∀ proposal ∈ x.db.proposal.getD none, Backed support x.chain proposal
  trace : ∀ r ∈ s.trace, Good r
  traces : ∀ x ∈ s.history, ∀ r ∈ x.trace, Good r

/-- So is the stored proposal. -/
structure Stream.Sound (support : Support) (Good : Record → Prop) (s : Stream) : Prop extends
    s.Lasting support Good where
  proposal : ∀ proposal ∈ s.storage.proposal, Backed support s.storage.chain proposal

/-- Only commits are judged. -/
def OnlyCommits (Good : Record → Prop) : Prop :=
  ∀ r : Record, (∀ blockHash number, r.action ≠ .commit blockHash number) → Good r

/-- The hashes of the transactions of the pool are their own. -/
def Oracle.Hashed (support : Support) (oracle : Oracle) : Prop :=
  ∀ t ∈ oracle.metaTxs ++ oracle.payloadTxs, t.txHash = support.hashTransaction t.tx

/-- The block that the leader drafts is backed by its proposal. -/
theorem LeaderState.backed_of_prepareBlock {support : Support} {oracle : Oracle} {chain : Chain}
    {timestamp : Nat} {build : BuildBlockParams} {params : CommitBlockParams}
    (hhashed : oracle.Hashed support)
    (hprepare : prepareBlock support oracle chain timestamp = .ok build)
    (hbuild : support.buildBlock chain build = .ok params) :
    Backed support chain
      { blockHash := params.blockHash
        number := build.number
        timestamp := build.timestamp
        metaTxs := build.metaTxs.map FullTransaction.tx
        payloadTxs := build.payloadTxs.map FullTransaction.tx
        executionNumber := build.executionNumber } := by
  have hconvert : ∀ txs : List FullTransaction,
      (∀ t ∈ txs, t.txHash = support.hashTransaction t.tx) →
        Stream.convertTxs support (txs.map FullTransaction.tx) = txs := by
    intro txs htxs
    unfold Stream.convertTxs
    rw [List.map_map]
    refine (List.map_congr_left fun t ht => ?_).trans (List.map_id txs)
    rw [Function.comp_apply, ← htxs t ht]
    rfl
  obtain ⟨hmeta, hpayload⟩ := List.forall_mem_append.1 hhashed
  unfold prepareBlock at hprepare
  simp only at hprepare
  split at hprepare
  · cases hprepare
  · cases hprepare
    refine ⟨chain, params, List.suffix_rfl, rfl, ?_, rfl⟩
    rw [blockParams, hconvert _ hmeta, hconvert _ hpayload]
    exact hbuild

namespace Stream

open LeaderState (backed_of_prepareBlock)

section Sound

variable {support : Support} {oracle : Oracle} {Good : Record → Prop} {s s' : Stream}

theorem Sound.of_ledger (h : s.Sound support Good) (heq : s'.ledger = s.ledger) :
    s'.Sound support Good := by
  have hstorage : s'.storage = s.storage := congrArg Ledger.storage heq
  have hhistory : s'.history = s.history := congrArg Ledger.history heq
  have htrace : s'.trace = s.trace := congrArg Ledger.trace heq
  refine ⟨⟨?_, ?_, ?_, ?_⟩, ?_⟩
  · rw [hstorage]
    exact h.db
  · rw [hhistory]
    exact h.history
  · rw [htrace]
    exact h.trace
  · rw [hhistory]
    exact h.traces
  · rw [hstorage]
    exact h.proposal

theorem Sound.note (h : s.Sound support Good) {action : Action}
    (hgood : Good { action, storage := s.storage }) : (s.note action).Sound support Good where
  proposal := h.proposal
  db := h.db
  history := h.history
  trace := List.forall_mem_cons.2 ⟨hgood, h.trace⟩
  traces := h.traces

/-- A write of a storage whose proposals are backed. -/
theorem Sound.setStorage (h : s.Sound support Good) {storage : Storage}
    (hproposal : ∀ proposal ∈ storage.proposal, Backed support storage.chain proposal)
    (hdb : ∀ proposal ∈ storage.db.proposal.getD none, Backed support storage.chain proposal) :
    (s.setStorage storage).Sound support Good where
  proposal := hproposal
  db := hdb
  history := List.forall_mem_cons.2 ⟨hdb, h.history⟩
  trace := h.trace
  traces := List.forall_mem_cons.2 ⟨h.trace, h.traces⟩

theorem Sound.updateProposal (h : s.Sound support Good) {proposal : Option Proposal}
    (hproposal : ∀ p ∈ proposal, Backed support s.storage.chain p) :
    (s.setStorage (s.storage.updateProposal proposal)).Sound support Good :=
  h.setStorage hproposal hproposal

/-- The chain has grown. -/
theorem Sound.grow (h : s.Sound support Good) {chain : Chain} (hchain : s.storage.chain <:+ chain) :
    (s.setStorage { s.storage with chain }).Sound support Good :=
  h.setStorage (fun p hp => (h.proposal p hp).mono hchain) fun p hp => (h.db p hp).mono hchain

theorem Sound.updateState (h : s.Sound support Good) (state : State) :
    (s.updateState state).Sound support Good := h.of_ledger rfl

theorem Sound.updateTermVote (h : s.Sound support Good) (currentTerm : Nat)
    (currentVotedFor : Option Address) :
    (s.updateTermVote currentTerm currentVotedFor).Sound support Good :=
  let h' : (s.setStorage (s.storage.updateCurrentTerm currentTerm)).Sound support Good :=
    h.setStorage h.proposal h.db
  h'.setStorage h.proposal h.db

theorem ledger_requestTo (s : Stream) (address : Address) (message : Nat → RaftMessage) :
    (s.requestTo address message).1.ledger = s.ledger := by
  unfold requestTo
  split
  · rfl
  · rfl

theorem ledger_registerValidator (s : Stream) (peerId : PeerId) :
    (s.registerValidator support peerId).ledger = s.ledger := by
  unfold registerValidator
  split
  · rfl
  · rfl

/-! ### Proposals and entries -/

theorem Sound.onProposal (h : s.Sound support Good) (proposal : Proposal) :
    (s.onProposal support oracle proposal).1.Sound support Good := by
  unfold Stream.onProposal
  split
  · next params hverify =>
    have hbacked := Verifier.backed_of_verifyProposal hverify
    exact Sound.updateProposal (s := { s with commitBlockParams := some params }) (h.of_ledger rfl)
      fun p hp => Option.some.inj hp ▸ hbacked
  · exact h.of_ledger rfl
  · exact h
  · exact h

theorem Sound.clearDiscordant (h : s.Sound support Good) (blockHash : Hash) :
    (s.clearDiscordant blockHash).Sound support Good := by
  have hcleared : (s.setStorage (s.storage.updateProposal none)).Sound support Good :=
    h.updateProposal nofun
  unfold Stream.clearDiscordant
  simp only
  by_cases hstored : s.storage.proposal.map Proposal.blockHash = some blockHash
  · rw [if_pos hstored]
    split
    · exact h
    · exact h.of_ledger rfl
  · rw [if_neg hstored]
    split
    · exact hcleared
    · exact hcleared.of_ledger rfl

theorem Sound.verifyPending (h : s.Sound support Good) :
    (s.verifyPending support oracle).1.Sound support Good := by
  unfold Stream.verifyPending
  split
  · exact h
  · next proposal _ =>
    exact Sound.onProposal (s := { s with pendingProposal := none }) (h.of_ledger rfl) proposal

theorem Sound.reportLog (h : s.Sound support Good) (hgood : OnlyCommits Good)
    (req : AppendEntriesReq) (success : Bool) (term : Nat) (lastLog : Nat × Nat) :
    (s.reportLog req success term lastLog).1.Sound support Good :=
  h.note (hgood _ nofun)

theorem Sound.storeEntries (h : s.Sound support Good) (hgood : OnlyCommits Good)
    (address : Address) (req : AppendEntriesReq) :
    (s.storeEntries address req).1.Sound support Good := by
  have hstored : (s.setStorage (s.storage.appendLogEntries req.entries)).Sound support Good :=
    h.setStorage h.proposal h.db
  unfold Stream.storeEntries
  refine Sound.reportLog ?_ hgood _ _ _ _
  exact hstored.of_ledger rfl

theorem Sound.awaitProposal (h : s.Sound support Good) (hgood : OnlyCommits Good)
    (address : Address) (req : AppendEntriesReq) :
    (s.awaitProposal oracle address req).1.Sound support Good := by
  unfold Stream.awaitProposal
  simp only
  split
  · refine Sound.reportLog ?_ hgood _ _ _ _
    exact h.of_ledger (ledger_requestTo s address _)
  · exact h.reportLog hgood _ _ _ _

theorem Sound.performAppendEntries (h : s.Sound support Good) (hgood : OnlyCommits Good)
    (address : Address) (req : AppendEntriesReq) :
    (s.performAppendEntries support oracle address req).1.Sound support Good := by
  unfold Stream.performAppendEntries
  split
  · exact h.storeEntries hgood address req
  · next blockHash _ =>
    have hverified : (((s.clearDiscordant blockHash).verifyPending support oracle).1).Sound
        support Good := (h.clearDiscordant blockHash).verifyPending
    split
    · next hpending =>
      rw [hpending] at hverified
      exact hverified
    · next hpending =>
      rw [hpending] at hverified
      split
      · exact hverified.storeEntries hgood address req
      · exact hverified.awaitProposal hgood address req

theorem Sound.followLeader (h : s.Sound support Good) (hgood : OnlyCommits Good)
    (address : Address) (req : AppendEntriesReq) :
    (s.followLeader address req).Sound support Good := by
  have hnoted := h.note (hgood { action := .follow address req, storage := s.storage } nofun)
  have hwritten : ((s.note (.follow address req)).setStorage
      (s.storage.updateCommitLogIndex req.commitLogIndex)).Sound support Good :=
    hnoted.setStorage h.proposal h.db
  have hraised := hwritten.updateTermVote req.term none
  unfold Stream.followLeader
  simp only
  split
  · exact hraised.of_ledger rfl
  · exact hwritten.of_ledger rfl

theorem Sound.onReqAppendEntries (h : s.Sound support Good) (hgood : OnlyCommits Good)
    (address : Address) (req : AppendEntriesReq) :
    (s.onReqAppendEntries support oracle address req).1.Sound support Good := by
  have hfollows := h.followLeader hgood address req
  unfold Stream.onReqAppendEntries
  simp only
  split
  · exact h.reportLog hgood _ _ _ _
  · split
    · exact hfollows.reportLog hgood _ _ _ _
    · split
      · exact hfollows.reportLog hgood _ _ _ _
      · split
        · refine Sound.performAppendEntries ?_ hgood _ _
          exact hfollows.of_ledger rfl
        · split
          · exact hfollows.reportLog hgood _ _ _ _
          · have hcut : ((s.followLeader address req).setStorage
                ((s.followLeader address req).storage.deleteLogEntries
                  (wrapAdd 64 req.prevLogIndex 1))).Sound support Good :=
              hfollows.setStorage hfollows.proposal hfollows.db
            refine Sound.performAppendEntries ?_ hgood _ _
            exact hcut.of_ledger rfl

/-! ### Votes, commits and messages -/

theorem Sound.onReqRequestVote (h : s.Sound support Good) (hgood : OnlyCommits Good)
    (address : Address) (req : RequestVoteReq) :
    (s.onReqRequestVote oracle address req).1.Sound support Good := by
  have hgrant {s' : Stream} (h' : s'.Sound support Good) :
      (s'.note (.grant address (req.lastLogIndex, req.lastLogTerm))).Sound support Good :=
    h'.note (hgood _ nofun)
  have hraised : (if s.storage.currentTerm < req.term then
      (s.updateState .follower).updateTermVote req.term none else s).Sound support Good := by
    split
    · exact (h.updateState .follower).updateTermVote req.term none
    · exact h
  unfold Stream.onReqRequestVote
  simp only
  split
  · exact h
  · split
    · exact h
    · generalize (if s.storage.currentTerm < req.term then
        (s.updateState .follower).updateTermVote req.term none else s) = s' at hraised
      split
      · exact hraised
      · split
        · split
          · exact hgrant hraised
          · exact hraised
        · refine hgrant ?_
          exact (hraised.updateState .follower).setStorage hraised.proposal hraised.db

/-- A commit is recorded if the log has a block to commit, and only then the
chain grows. -/
theorem Sound.onLogUpdated (h : s.Sound support Good)
    (hgood : ∀ blockHash block, s.CommitsAs support blockHash block →
      Good { action := .commit block.blockHash block.header.number, storage := s.storage }) :
    (s.onLogUpdated support).Sound support Good := by
  unfold Stream.onLogUpdated
  split
  · exact h
  · next blockHash hfound =>
    split
    · exact h
    · next proposal hproposal =>
      simp only
      split
      · exact h.of_ledger rfl
      · next params htaken =>
        split
        · exact h.of_ledger rfl
        · next chain hcommit =>
          obtain ⟨-, hchain⟩ := number_of_commitBlock hcommit
          have hcommits : s.CommitsAs support blockHash
              { blockHash := params.blockHash, header := params.header
                proof := RaftProof.new support.basic params.blockHash s.storage.lastLog.1
                  s.storage.lastLog.2 s.secretKey } := by
            refine ⟨hfound, ?_⟩
            unfold Stream.onLogUpdated
            simp only [hfound, hproposal, htaken, hcommit]
            exact hchain
          have hnoted := h.note (hgood _ _ hcommits)
          have hextends : s.storage.chain <:+ chain := hchain ▸ List.suffix_cons _ _
          have hgrown := hnoted.grow hextends
          exact hgrown.of_ledger rfl

theorem Sound.onInternalMessage (h : s.Sound support Good) (message : InternalMessage)
    (hgood : message = .logUpdated → ∀ blockHash block, s.CommitsAs support blockHash block →
      Good { action := .commit block.blockHash block.header.number, storage := s.storage }) :
    (s.onInternalMessage support message).Sound support Good := by
  cases message with
  | logUpdated => exact h.onLogUpdated (hgood rfl)
  | requestVoteRes address res => exact h
  | appendEntriesRes address res => exact h
  | generate => exact h
  | authoritiesUpdated authorities => exact h

/-- A refresh keeps the proposal on disk or drops it. -/
theorem Lasting.refresh (h : s.Lasting support Good) : s.refresh.Sound support Good := by
  have hkept : ∀ db ∈ Storage.refreshDbs s.storage.chain s.storage.db,
      ∀ proposal ∈ db.proposal.getD none, Backed support s.storage.chain proposal := by
    intro db hdb proposal hproposal
    rcases Storage.proposal_of_mem_refreshDbs hdb with hsame | hdropped
    · rw [hsame] at hproposal
      exact h.db proposal hproposal
    · rw [hdropped] at hproposal
      cases hproposal
  have hhead := hkept _ List.mem_cons_self
  refine ⟨⟨hhead, ?_, h.trace, ?_⟩, hhead⟩
  · refine List.forall_mem_append.2 ⟨?_, h.history⟩
    exact List.forall_mem_map.2 hkept
  · refine List.forall_mem_append.2 ⟨?_, h.traces⟩
    exact List.forall_mem_map.2 fun _ _ => h.trace

theorem Sound.onBlockCommitted (h : s.Sound support Good) :
    (s.onBlockCommitted support).Sound support Good := by
  have hrefreshed := h.toLasting.refresh
  unfold Stream.onBlockCommitted
  simp only
  split
  · exact hrefreshed.of_ledger rfl
  · exact hrefreshed

theorem Sound.onResRequestProposal (h : s.Sound support Good) (res : RequestProposalRes) :
    (s.onResRequestProposal support oracle res).Sound support Good := by
  unfold Stream.onResRequestProposal
  split
  · exact h
  · exact h.onProposal _

theorem ledger_onReqRegisterValidator (s : Stream) (peerId : PeerId) (req : RegisterValidatorReq) :
    (s.onReqRegisterValidator support peerId req).1.ledger = s.ledger := by
  unfold onReqRegisterValidator
  split
  · rfl
  · split
    · rfl
    · split
      · rfl
      · rfl

theorem ledger_onReqRequestProposal (s : Stream) (peerId : PeerId) (address : Address)
    (req : RequestProposalReq) : (s.onReqRequestProposal peerId address req).ledger = s.ledger := by
  unfold onReqRequestProposal
  split
  · rfl
  · simp only
    split
    · rfl
    · rfl

theorem Sound.onNetworkMessage (h : s.Sound support Good) (hgood : OnlyCommits Good)
    (peerId : PeerId) (message : RaftMessage) :
    (s.onNetworkMessage support oracle peerId message).Sound support Good := by
  unfold Stream.onNetworkMessage
  split
  · next req =>
    have hledger := @ledger_onReqRegisterValidator support s peerId req
    split
    · next herror =>
      rw [herror] at hledger
      exact h.of_ledger hledger
    · next hok =>
      rw [hok] at hledger
      exact h.of_ledger hledger
  · next req address _ =>
    have happended := @Sound.onReqAppendEntries support oracle Good s h hgood address req
    split
    · next herror =>
      rw [herror] at happended
      exact happended
    · next hok =>
      rw [hok] at happended
      exact happended.of_ledger rfl
  · exact h.of_ledger rfl
  · next req address _ =>
    have hvoted := @Sound.onReqRequestVote support oracle Good s h hgood address req
    exact hvoted.of_ledger rfl
  · exact h.of_ledger rfl
  · next req address _ => exact h.of_ledger (ledger_onReqRequestProposal s peerId address req)
  · exact h.onResRequestProposal _
  · exact h

/-! ### The leader -/

theorem Sound.onMaybeCommit (h : s.Sound support Good) (hgood : OnlyCommits Good) :
    (LeaderState.onMaybeCommit s).Sound support Good := by
  unfold LeaderState.onMaybeCommit
  simp only
  split
  · have hnoted {commitLogIndex : Nat} : (s.note (.raise commitLogIndex)).Sound support Good :=
      h.note (hgood _ nofun)
    have hwritten {commitLogIndex : Nat} : ((s.note (.raise commitLogIndex)).setStorage
        (s.storage.updateCommitLogIndex commitLogIndex)).Sound support Good :=
      hnoted.setStorage h.proposal h.db
    exact hwritten.of_ledger rfl
  · exact h

theorem Sound.onUpdateMatchIndex (h : s.Sound support Good) (hgood : OnlyCommits Good)
    (address : Address) (matchIndex : Nat) :
    (LeaderState.onUpdateMatchIndex s address matchIndex).Sound support Good := by
  unfold LeaderState.onUpdateMatchIndex
  refine Sound.onMaybeCommit ?_ hgood
  split
  · exact h.of_ledger rfl
  · exact h

theorem Sound.appendEntry (h : s.Sound support Good) (hgood : OnlyCommits Good)
    (data : EntryData) : (LeaderState.appendEntry s data).Sound support Good := by
  have happended (entry : Entry) : ((s.note (.append entry)).setStorage
      (s.storage.appendLogEntries [entry])).Sound support Good := by
    have hnoted : (s.note (.append entry)).Sound support Good := h.note (hgood _ nofun)
    exact hnoted.setStorage h.proposal h.db
  unfold LeaderState.appendEntry
  simp only
  split
  · exact (happended _).onUpdateMatchIndex hgood _ _
  · exact happended _

theorem Sound.work (h : s.Sound support Good) (hgood : OnlyCommits Good)
    (hhashed : oracle.Hashed support) (timestamp : Nat) :
    (LeaderState.work support oracle s timestamp).Sound support Good := by
  unfold LeaderState.work
  split
  · exact h
  · split
    · exact h
    · next params hprepare =>
      split
      · exact h
      · next commitBlockParams hbuild =>
        refine Sound.appendEntry ?_ hgood _
        have hkept : { s with commitBlockParams := some commitBlockParams }.Sound support Good :=
          h.of_ledger rfl
        refine hkept.updateProposal fun proposal hproposal => ?_
        rw [← Option.some.inj hproposal]
        exact backed_of_prepareBlock hhashed hprepare hbuild

theorem ledger_sendReplicationIn (s : Stream) (address : Address)
    (message : ReplicationInMessage) :
    (LeaderState.sendReplicationIn s address message).ledger = s.ledger := by
  unfold LeaderState.sendReplicationIn
  split
  · rfl
  · rfl

theorem Sound.onReplicationOutMessage (h : s.Sound support Good) (hgood : OnlyCommits Good)
    (message : ReplicationOutMessage) :
    (LeaderState.onReplicationOutMessage s message).Sound support Good := by
  cases message with
  | appendEntriesReq address req =>
      simp only [LeaderState.onReplicationOutMessage]
      split
      · refine Sound.of_ledger h ?_
        rw [ledger_sendReplicationIn]
        exact ledger_requestTo s address _
      · exact h
  | updateMatchIndex address matchIndex => exact h.onUpdateMatchIndex hgood address matchIndex
  | updateState state => exact h.updateState state

theorem Sound.startLeader (h : s.Sound support Good) (hgood : OnlyCommits Good) :
    (LeaderState.start s).Sound support Good := by
  have hnoted : (s.note (.lead s.candidate.voters)).Sound support Good := h.note (hgood _ nofun)
  unfold LeaderState.start
  refine Sound.appendEntry ?_ hgood _
  exact hnoted.of_ledger rfl

/-! ### The candidate -/

theorem ledger_onMaybeBecomeLeader (s : Stream) :
    (CandidateState.onMaybeBecomeLeader s).ledger = s.ledger := by
  unfold CandidateState.onMaybeBecomeLeader
  split
  · rfl
  · rfl

theorem ledger_requestVoteFrom (term : Nat) (lastLog : Nat × Nat) (s : Stream)
    (address : Address) :
    (CandidateState.requestVoteFrom term lastLog s address).ledger = s.ledger := by
  unfold CandidateState.requestVoteFrom
  simp only
  split
  · exact ledger_requestTo s address _
  · exact ledger_requestTo s address _

theorem ledger_requestVote (s : Stream) : (CandidateState.requestVote s).ledger = s.ledger := by
  have hfoldl (term : Nat) (lastLog : Nat × Nat) (targets : List Address) (s : Stream) :
      (targets.foldl (CandidateState.requestVoteFrom term lastLog) s).ledger = s.ledger := by
    induction targets generalizing s with
    | nil => rfl
    | cons target targets ih => exact (ih _).trans (ledger_requestVoteFrom term lastLog s target)
  unfold CandidateState.requestVote
  simp only
  split
  · exact ledger_onMaybeBecomeLeader s
  · exact hfoldl _ _ _ s

theorem Sound.startCandidate (h : s.Sound support Good) (hgood : OnlyCommits Good) :
    (CandidateState.start s).Sound support Good := by
  unfold CandidateState.start
  simp only
  refine Sound.of_ledger ?_ (ledger_requestVote _)
  refine Sound.note ?_ (hgood _ nofun)
  refine Sound.updateTermVote ?_ _ _
  exact h.of_ledger rfl

theorem Sound.onResRequestVote (h : s.Sound support Good) (address : Address)
    (res : RequestVoteRes) :
    (CandidateState.onResRequestVote s address res).Sound support Good := by
  unfold CandidateState.onResRequestVote
  split
  · exact h
  · simp only
    split
    · refine Sound.updateTermVote ?_ _ _
      exact h.of_ledger rfl
    · split
      · refine Sound.of_ledger ?_ (ledger_onMaybeBecomeLeader _)
        split
        · exact h.of_ledger rfl
        · exact h.of_ledger rfl
      · exact h.of_ledger rfl

/-! ### Events -/

/-- A commit on an event is recorded as a good one. -/
def CommitsGood (support : Support) (Good : Record → Prop) (s : Stream) (event : Event) : Prop :=
  event = .internal → ∀ internal, s.internal = .logUpdated :: internal → ∀ blockHash block,
    { s with internal }.CommitsAs support blockHash block →
      Good { action := .commit block.blockHash block.header.number, storage := s.storage }

theorem ledger_onAuthoritiesUpdated (s : Stream) (authorities : List Address) :
    (LeaderState.onAuthoritiesUpdated s authorities).ledger = s.ledger ∧
      (FollowerState.onAuthoritiesUpdated s authorities).ledger = s.ledger ∧
      (ObserverState.onAuthoritiesUpdated s authorities).ledger = s.ledger := by
  refine ⟨?_, ?_, ?_⟩
  · unfold LeaderState.onAuthoritiesUpdated
    split
    · rfl
    · rfl
  · unfold FollowerState.onAuthoritiesUpdated
    split
    · rfl
    · rfl
  · unfold ObserverState.onAuthoritiesUpdated
    split
    · rfl
    · rfl

theorem ledger_update (s : Stream) (target : Address)
    (f : ReplicationStream → ReplicationStream × List ReplicationOutMessage) :
    (ReplicationStream.update s target f).ledger = s.ledger := by
  unfold ReplicationStream.update
  split
  · rfl
  · rfl

theorem Sound.handleInternal (h : s.Sound support Good) (hgood : OnlyCommits Good)
    (hhashed : oracle.Hashed support) (message : InternalMessage)
    (hcommits : message = .logUpdated → ∀ blockHash block, s.CommitsAs support blockHash block →
      Good { action := .commit block.blockHash block.header.number, storage := s.storage }) :
    (s.handleInternal support oracle message).Sound support Good := by
  unfold Stream.handleInternal
  split
  · exact h.of_ledger (ledger_sendReplicationIn s _ _)
  · exact h.work hgood hhashed _
  · exact h.of_ledger (ledger_onAuthoritiesUpdated s _).1
  · exact h.onResRequestVote _ _
  · exact h.of_ledger (ledger_onAuthoritiesUpdated s _).2.1
  · exact h.of_ledger (ledger_onAuthoritiesUpdated s _).2.1
  · exact h.of_ledger (ledger_onAuthoritiesUpdated s _).2.2
  · exact h.onInternalMessage _ hcommits

theorem Sound.handle (h : s.Sound support Good) (hgood : OnlyCommits Good)
    (hhashed : oracle.Hashed support) (event : Event)
    (hcommits : s.CommitsGood support Good event) :
    (s.handle support oracle event).Sound support Good := by
  cases event with
  | election =>
      simp only [Stream.handle]
      split
      · exact h.updateState _
      · exact h.startCandidate hgood
      · exact h
  | schedule timestamp =>
      simp only [Stream.handle]
      split
      · exact h.work hgood hhashed timestamp
      · exact h
  | internal =>
      simp only [Stream.handle]
      split
      · exact h
      · next message internal hfirst =>
        have hpopped : { s with internal }.Sound support Good := h.of_ledger rfl
        exact hpopped.handleInternal hgood hhashed message fun hmessage =>
          hcommits rfl internal (hfirst.trans (congrArg (· :: internal) hmessage))
  | replicationOut =>
      simp only [Stream.handle]
      split
      · refine Sound.onReplicationOutMessage ?_ hgood _
        exact h.of_ledger rfl
      · exact h
  | replicate target =>
      simp only [Stream.handle]
      split
      · exact h.of_ledger (ledger_update s target _)
      · exact h
  | replicationIn target =>
      simp only [Stream.handle]
      split
      · exact h.of_ledger (ledger_update s target _)
      · exact h
  | «open» peerId localNonce remoteNonce =>
      refine h.of_ledger ?_
      exact ledger_registerValidator _ peerId
  | close peerId => exact h.of_ledger rfl
  | message peerId message =>
      cases message with
      | none => exact h
      | some message => exact h.onNetworkMessage hgood peerId message
  | blockCommitted =>
      simp only [Stream.handle]
      split
      · exact h
      · refine Sound.onBlockCommitted ?_
        exact h.of_ledger rfl
  | generate => exact h.of_ledger rfl
  | shutdown => exact h.updateState _
  | restart => exact h
  | sync block => exact h

theorem Sound.enter (h : s.Sound support Good) (hgood : OnlyCommits Good) :
    s.enter.Sound support Good := by
  unfold Stream.enter
  split
  · exact h
  · split
    · exact h.startLeader hgood
    · have hstarted := h.startCandidate hgood
      simp only
      split
      · exact hstarted.startLeader hgood
      · exact hstarted
    · exact h.of_ledger rfl
    · exact h.of_ledger rfl
    · exact h.of_ledger rfl

theorem Lasting.spawn (h : s.Lasting support Good) (hgood : OnlyCommits Good) :
    (s.spawn support).Sound support Good := by
  have hrefreshed := h.refresh
  unfold Stream.spawn
  refine Sound.enter ?_ hgood
  exact hrefreshed.of_ledger rfl

theorem Sound.syncBlock (h : s.Sound support Good) (block : ConfirmedBlock) :
    (s.syncBlock support block).Sound support Good := by
  unfold Stream.syncBlock
  split
  · split
    · next chain hcommit =>
      obtain ⟨-, hchain⟩ := number_of_commitBlock hcommit
      have hgrown : (s.setStorage { s.storage with chain }).Sound support Good :=
        h.grow (hchain ▸ List.suffix_cons _ _)
      exact hgrown.of_ledger rfl
    · exact h
  · exact h

theorem Sound.step (h : s.Sound support Good) (hgood : OnlyCommits Good)
    (hhashed : oracle.Hashed support) (event : Event)
    (hcommits : s.CommitsGood support Good event) :
    (s.step support oracle event).Sound support Good := by
  have hhandled := (h.handle hgood hhashed event hcommits).enter hgood
  unfold Stream.step
  split
  · exact h.toLasting.spawn hgood
  · exact h.syncBlock _
  · split
    · exact h
    · exact hhandled

/-- What the process leaves when it stops between two writes. -/
theorem Sound.stopped (h : s.Sound support Good) (hgood : OnlyCommits Good)
    (hhashed : oracle.Hashed support) (event : Event)
    (hcommits : s.CommitsGood support Good event) (k : Nat) :
    (s.stopped support oracle event k).Lasting support Good := by
  have hstep := h.step hgood hhashed event hcommits
  unfold Stream.stopped
  split
  · exact h.toLasting
  · next snapshot rest hdrop =>
    have hwritten : ∀ x ∈ snapshot :: rest, x ∈ (s.step support oracle event).history := by
      intro x hx
      rw [← hdrop] at hx
      exact List.mem_of_mem_take (List.mem_of_mem_drop hx)
    have hfirst := hwritten snapshot List.mem_cons_self
    constructor
    · exact hstep.history snapshot hfirst
    · refine List.forall_mem_append.2 ⟨fun x hx => ?_, h.history⟩
      exact hstep.history x (hwritten x hx)
    · exact hstep.traces snapshot hfirst
    · refine List.forall_mem_append.2 ⟨fun x hx => ?_, h.traces⟩
      exact hstep.traces x (hwritten x hx)

end Sound

end Stream

/-! ## Runs -/

section Runs

variable {support : Support} {secretKey : SecretKey} {P : Oracle → Stream → Event → Prop}
  {Good : Record → Prop} {s : Stream}

theorem CrashRun.sound (h : CrashRun support secretKey P s) (hgood : OnlyCommits Good)
    (hp : ∀ oracle s event, P oracle s event → oracle.Hashed support ∧
      (s.Sound support Good → s.CommitsGood support Good event)) : s.Sound support Good := by
  induction h with
  | start =>
      have hblank : (Stream.blank support secretKey).Lasting support Good := by
        constructor
        · exact nofun
        · exact nofun
        · exact List.forall_mem_nil Good
        · exact nofun
      exact hblank.spawn hgood
  | step _ oracle event hstep ih =>
      obtain ⟨hhashed, hcommits⟩ := hp _ _ _ hstep
      exact ih.step hgood hhashed event (hcommits ih)
  | crash _ oracle event hstep k ih =>
      obtain ⟨hhashed, hcommits⟩ := hp _ _ _ hstep
      exact (ih.stopped hgood hhashed event (hcommits ih) k).spawn hgood

/-- When a task with a proposal is told of its log, the kept block or the
proposal is for the block to commit. -/
def Stream.Heeds (s : Stream) (event : Event) : Prop :=
  event = .internal → s.internal.head? = some .logUpdated → s.storage.proposal.isSome →
    ∀ blockHash ∈ Stream.committedBlockHash s.storage, s.Accordant blockHash

instance (s : Stream) (event : Event) : Decidable (s.Heeds event) :=
  inferInstanceAs (Decidable (_ → _ → _ → _))

instance (support : Support) (oracle : Oracle) : Decidable (oracle.Hashed support) :=
  inferInstanceAs (Decidable (∀ t ∈ _, _))

/-- A commit is of the block of the log. -/
def Record.Agreed (r : Record) : Prop :=
  ∀ blockHash number, r.action = .commit blockHash number →
    Stream.committedBlockHash r.storage = some blockHash

/-- In every state of a run the block that a node commits is the one of its log
if and only if the kept block or the stored proposal is for it. A run that
always finds it so commits only blocks of the log. -/
theorem commits_agreed_iff (support : Support) (secretKey : SecretKey) (s : Stream) :
    (CrashRun support secretKey (fun oracle _ _ => oracle.Hashed support) s →
        ∀ blockHash block, s.CommitsAs support blockHash block →
          (block.blockHash = blockHash ↔ s.Accordant blockHash)) ∧
      (CrashRun support secretKey (fun oracle s event => oracle.Hashed support ∧ s.Heeds event) s →
        ∀ r ∈ s.trace, r.Agreed) := by
  constructor
  · intro h blockHash block hcommits
    have hsound : s.Sound support fun _ => True :=
      h.sound (fun _ _ => trivial) fun _ _ _ hhashed => ⟨hhashed, fun _ _ _ _ _ _ _ => trivial⟩
    exact hcommits.blockHash_eq_iff hsound.proposal
  · intro h
    have hsound : s.Sound support Record.Agreed := by
      refine h.sound (fun r hother blockHash number hcommit =>
        absurd hcommit (hother blockHash number)) ?_
      intro oracle s event hp
      obtain ⟨hhashed, hheeds⟩ := hp
      refine ⟨hhashed, fun hsound hinternal internal hfirst blockHash block hcommits => ?_⟩
      obtain ⟨proposal, -, -, hproposal, -⟩ := hcommits.taken
      have haccordant : { s with internal }.Accordant blockHash :=
        hheeds hinternal (congrArg List.head? hfirst) (Option.isSome_of_eq_some hproposal) blockHash
          hcommits.found
      have hsame := (hcommits.blockHash_eq_iff hsound.proposal).2 haccordant
      intro _ _ haction
      cases haction
      rw [hsame]
      exact hcommits.found
    exact hsound.trace

end Runs

namespace Sample

/-- A request of validator `1` as the leader of term `1`. -/
def append (commitLogIndex : Nat) (entries : List Entry) : Event :=
  .message [1] (some (.appendEntriesReq
    { requestId := 0, term := 1, prevLogIndex := 0, prevLogTerm := 0, commitLogIndex, entries }))

/-- A proposal of validator `1`, asked for or not. -/
def propose (timestamp : Nat) : Event :=
  .message [1] (some (.requestProposalRes
    { requestId := 0
      proposal := some
        { blockHash := ⟨[1, UInt8.ofNat timestamp]⟩, number := 1, timestamp, metaTxs := []
          payloadTxs := [], executionNumber := 0 } }))

/-- The log of validator `1` is for its first proposal, which another one may
follow. -/
def proposed (others : List Event) : List Event :=
  register 1 ++ [propose 1, append 0 [{ term := 1, index := 1, data := .proposal ⟨[1, 1]⟩ }]] ++
    others ++ [append 1 []]

/-- The block of a proposal, as validator `0` commits it. -/
def block (timestamp : Nat) : ConfirmedBlock where
  blockHash := ⟨[1, UInt8.ofNat timestamp]⟩
  header :=
    { genesisHeader with
      number := 1, timestamp, parentHash := ⟨[0, 0]⟩, payloadExecutionGap := 1 }
  proof := { logIndex := 1, logTerm := 1, publicKey := ⟨[0]⟩, signature := ⟨[0]⟩ }

end Sample

theorem commits_agreed_proposed :
    ((Sample.node 4 (Sample.proposed [])).CommitsAs (Sample.support 4) ⟨[1, 1]⟩ (Sample.block 1) ∧
        ((Sample.block 1).blockHash = ⟨[1, 1]⟩ ↔
          (Sample.node 4 (Sample.proposed [])).Accordant ⟨[1, 1]⟩)) ∧
      (∀ r ∈ (Sample.node 4 (Sample.proposed [] ++ [.internal])).trace, r.Agreed) ∧
        (Sample.node 4 (Sample.proposed [] ++ [.internal])).storage.chain = [Sample.block 1] := by
  have hcommits : (Sample.node 4 (Sample.proposed [])).CommitsAs (Sample.support 4) ⟨[1, 1]⟩
      (Sample.block 1) := ⟨by decide +kernel, by decide +kernel⟩
  have hrun : CrashRun (Sample.support 4) ⟨[0]⟩ (fun oracle _ _ => oracle.Hashed (Sample.support 4))
      (Sample.node 4 (Sample.proposed [])) :=
    (Sample.run_validator (by decide +kernel)).crashRun
  have hheeding : CrashRun (Sample.support 4) ⟨[0]⟩
      (fun oracle s event => oracle.Hashed (Sample.support 4) ∧ s.Heeds event)
      (Sample.node 4 (Sample.proposed [] ++ [.internal])) :=
    (Sample.run_validator (by decide +kernel)).crashRun
  exact ⟨⟨hcommits, (commits_agreed_iff _ _ _).1 hrun _ _ hcommits⟩,
    (commits_agreed_iff _ _ _).2 hheeding, by decide +kernel⟩

/-- A second proposal takes the place of the one that the entry of the log is
for, and its block is committed. -/
theorem commits_not_agreed :
    (CrashRun (Sample.support 4) ⟨[0]⟩ (fun oracle _ _ => oracle.Hashed (Sample.support 4))
        (Sample.node 4 (Sample.proposed [Sample.propose 2])) ∧
      (Sample.node 4 (Sample.proposed [Sample.propose 2])).CommitsAs (Sample.support 4) ⟨[1, 1]⟩
        (Sample.block 2)) ∧
      (Sample.block 2).blockHash ≠ ⟨[1, 1]⟩ := by
  have hrun : CrashRun (Sample.support 4) ⟨[0]⟩ (fun oracle _ _ => oracle.Hashed (Sample.support 4))
      (Sample.node 4 (Sample.proposed [Sample.propose 2])) :=
    (Sample.run_validator (by decide +kernel)).crashRun
  have hcommits : (Sample.node 4 (Sample.proposed [Sample.propose 2])).CommitsAs
      (Sample.support 4) ⟨[1, 1]⟩ (Sample.block 2) := ⟨by decide +kernel, by decide +kernel⟩
  exact ⟨⟨hrun, hcommits⟩, by decide +kernel⟩

end Finastate.Raft
