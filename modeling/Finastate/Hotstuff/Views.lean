import Mathlib.Tactic.NormNum
import Finastate.Hotstuff.Run

/-!
# Views and locks over a run

The view of a node is written by timeout messages and by the refresh of its
storage. A timeout message moves it to the view of a certificate, whatever the
current view is, so it can fall; `view_monotone` says which messages have to
stay out of a run for the view never to fall. The certificates of the prepare
and the pre-commit phase are stored as they come in the same way;
`locks_monotone` is the statement for them.
-/

namespace Finastate.Hotstuff

/-! ## Views -/

def Action.timeout? : Action → Option (TimeoutMessage × Address)
  | .timeout message address => some (message, address)
  | _ => none

/-- A timeout message on which the view does not fall. The certificate of a
decide message is not older than the view before this one; a new timeout
message with a newer certificate does not complete an older one by itself. The
view after the largest `u64` is `0`, so no certificate of that view is attached
or completed. -/
def Entry.KeepsViewOn (support : Support) (e : Entry) (message : TimeoutMessage)
    (address : Address) : Prop :=
  (message.messageType = .decide →
    ∀ tc ∈ message.justify, verifyTc support.basic tc e.authorities = .ok () →
      e.storage.view ≤ tc.view + 1 ∧ tc.view + 1 < 2 ^ 64) ∧
  (message.messageType = .newTimeout → message.SignedBy support address →
    (TimeoutMessageCollector.Completes e.authorities e.timeouts message address →
      message.view + 1 < 2 ^ 64) ∧
      ∀ tc ∈ message.justify, e.storage.view ≤ tc.view →
        verifyTc support.basic tc e.authorities = .ok () →
        tc.view + 1 < 2 ^ 64 ∧
          (tc.view ≤ message.view ∨
            e.authorities.aloneWeight address < e.authorities.quorum))

instance (support : Support) (e : Entry) (message : TimeoutMessage) (address : Address) :
    Decidable (e.KeepsViewOn support message address) :=
  haveI : Decidable (TimeoutMessageCollector.Completes e.authorities e.timeouts message
      address → message.view + 1 < 2 ^ 64) := inferInstance
  inferInstanceAs (Decidable (_ ∧ (_ → _ → _ ∧ _)))

def Entry.KeepsView (support : Support) (e : Entry) : Prop :=
  ∀ p ∈ e.action.timeout?, e.KeepsViewOn support p.1 p.2

instance (support : Support) (e : Entry) : Decidable (e.KeepsView support) :=
  inferInstanceAs (Decidable (∀ p ∈ e.action.timeout?, _))

/-- The views that the storage has had never fall. -/
def Core.ViewsSorted (c : Core) : Prop :=
  (c.storage :: c.history).Pairwise fun later earlier => earlier.view ≤ later.view

theorem Core.ViewsSorted.setStorage {c : Core} (h : c.ViewsSorted) {storage : Storage}
    (hle : c.storage.view ≤ storage.view) : (c.setStorage storage).ViewsSorted := by
  obtain ⟨hhead, htail⟩ := List.pairwise_cons.1 h
  have hall : ∀ earlier ∈ c.history, earlier.view ≤ storage.view :=
    fun earlier hearlier => (hhead earlier hearlier).trans hle
  refine List.pairwise_cons.2 ⟨?_, List.pairwise_cons.2 ⟨hall, htail⟩⟩
  intro earlier hearlier
  rcases List.mem_cons.1 hearlier with rfl | hearlier
  · exact le_rfl
  · exact hall earlier hearlier

/-- The view on disk is the one in memory, and as long as every message keeps
the view it has never fallen. -/
structure Core.ViewInv (support : Support) (c : Core) : Prop where
  dbView : c.storage.db.view.getD 0 = c.storage.view
  sorted : (∀ e ∈ c.trace, e.KeepsView support) → c.ViewsSorted

/-- A write that leaves the view as it is. -/
theorem Core.ViewInv.setStorage {support : Support} {c : Core} (h : c.ViewInv support)
    (storage : Storage) (hview : storage.view = c.storage.view)
    (hdb : storage.db.view = c.storage.db.view) :
    (c.setStorage storage).ViewInv support where
  dbView := by
    have hold := h.dbView
    rw [← hdb, ← hview] at hold
    exact hold
  sorted := fun htrace => (h.sorted htrace).setStorage hview.ge

theorem Core.ViewInv.note {support : Support} {c : Core} (h : c.ViewInv support)
    (action : Action) : (c.note action).ViewInv support where
  dbView := h.dbView
  sorted := fun htrace => h.sorted fun e he => htrace e (List.mem_cons_of_mem _ he)

theorem CommonAct.viewInv {support : Support} {c c' : Core} (h : CommonAct support c c')
    (hc : c.ViewInv support) : c'.ViewInv support := by
  cases h with
  | note action h => exact hc.note action
  | queue queued h => exact ⟨hc.dbView, hc.sorted⟩
  | params params built => exact ⟨hc.dbView, hc.sorted⟩
  | putProposal proposal x p built number parent hash =>
      have hparams : { c with commitBlockParams := some x }.ViewInv support :=
        ⟨hc.dbView, hc.sorted⟩
      exact hparams.setStorage (c.storage.putProposal proposal) rfl rfl

theorem LeaderAct.viewInv {support : Support} {c c' : Core} (h : LeaderAct support c c')
    (hc : c.ViewInv support) : c'.ViewInv support := by
  cases h with
  | common c' h => exact h.viewInv hc
  | work l h => exact ⟨hc.dbView, hc.sorted⟩
  | propose node highQc pm signal acting fresh pmNode idle => exact ⟨hc.dbView, hc.sorted⟩
  | ownVote t message pm leaderAddress phase leader type view proposed node own =>
      exact ⟨hc.dbView, hc.sorted⟩
  | remoteVote t message pm address s phase other received type view sig signer valid
      proposed node => exact ⟨hc.dbView, hc.sorted⟩
  | prepareQc order qc message collected fresh =>
      have hwrite := hc.setStorage (c.storage.updatePrepareQc qc) rfl rfl
      exact ⟨hwrite.dbView, hwrite.sorted⟩
  | preCommitQc order qc message collected fresh =>
      have hwrite := hc.setStorage (c.storage.updateLockedQc qc) rfl rfl
      exact ⟨hwrite.dbView, hwrite.sorted⟩
  | decide order qc chain collected decides =>
      have hwrite := hc.setStorage { c.storage with chain } rfl rfl
      exact ⟨hwrite.dbView, hwrite.sorted⟩

theorem ReplicaAct.viewInv {support : Support} {c c' : Core}
    (h : ReplicaAct support c c') (hc : c.ViewInv support) : c'.ViewInv support := by
  cases h with
  | common c' h => exact h.viewInv hc
  | vote message address leaderAddress t view node justify acting received current casts
      leader =>
      have hprepare := hc.setStorage (c.storage.updatePrepareQc justify) rfl rfl
      have hlocked := hc.setStorage (c.storage.updateLockedQc justify) rfl rfl
      cases t with
      | preCommit => exact ⟨hprepare.dbView, hprepare.sorted⟩
      | commit => exact ⟨hlocked.dbView, hlocked.sorted⟩
      | newView => exact ⟨hc.dbView, hc.sorted⟩
      | prepare => exact ⟨hc.dbView, hc.sorted⟩
      | decide => exact ⟨hc.dbView, hc.sorted⟩
  | decide message address qc chain acting received type justify valid decides =>
      have hwrite := hc.setStorage { c.storage with chain } rfl rfl
      exact ⟨hwrite.dbView, hwrite.sorted⟩

/-- What acting on a message puts into the trace. -/
theorem Core.Acting.mem {c : Core} {action : Action} (h : c.Acting action) :
    c.entry action ∈ c.trace :=
  List.mem_of_mem_head? h

/-- A refresh only raises the view. -/
theorem Storage.Refreshed.le_view {support : Support} {chain : Chain} {db : Db}
    {storage : Storage} {genesisQc : QC}
    (h : Refreshed support chain db storage genesisQc) : db.view.getD 0 ≤ storage.view := by
  rw [h.view]
  split
  · next hlt => exact hlt.le
  · exact le_rfl

theorem Core.ViewInv.timeoutFirst {support : Support} {c : Core} (hc : c.ViewInv support)
    {first : Option TC}
    (hfirst : ∀ tc ∈ first, (∀ e ∈ c.trace, e.KeepsView support) →
      c.storage.view ≤ wrapAdd 64 tc.view 1) :
    (c.timeoutFirst first).ViewInv support := by
  cases first with
  | none => exact hc
  | some tc => exact ⟨rfl, fun htrace => (hc.sorted htrace).setStorage (hfirst tc rfl htrace)⟩

theorem Core.ViewInv.timeoutSecond {support : Support} {c : Core} (hc : c.ViewInv support)
    {message : TimeoutMessage} {second : Bool}
    (hsecond : second = true → (∀ e ∈ c.trace, e.KeepsView support) →
      c.storage.view ≤ wrapAdd 64 message.view 1) :
    (c.timeoutSecond message second).ViewInv support := by
  cases second with
  | false => exact hc
  | true => exact ⟨rfl, fun htrace => (hc.sorted htrace).setStorage (hsecond rfl htrace)⟩

@[simp] theorem Core.timeoutFirst_trace (c : Core) (first : Option TC) :
    (c.timeoutFirst first).trace = c.trace := by
  cases first <;> rfl

/-- The two moves of the view on a new timeout message go upwards. -/
theorem Entry.KeepsViewOn.newTimeout {support : Support} {c : Core}
    {message : TimeoutMessage} {address : Address}
    (hkeeps : (c.entry (.timeout message address)).KeepsViewOn support message address)
    (htype : message.messageType = .newTimeout) (hsigned : message.SignedBy support address)
    (hview : c.storage.view ≤ message.view) {first : Option TC} {second : Bool}
    (hattached : ∀ tc ∈ first, message.justify = some tc ∧ c.storage.view ≤ tc.view ∧
      verifyTc support.basic tc c.authorities = .ok ())
    (halone : second = true → ∀ tc ∈ first, message.view < tc.view →
      c.authorities.quorum ≤ c.authorities.aloneWeight address)
    (hcomplete : second = true →
      TimeoutMessageCollector.Completes c.authorities c.timeouts message address) :
    (∀ tc ∈ first, c.storage.view ≤ wrapAdd 64 tc.view 1) ∧
      (second = true →
        (c.timeoutFirst first).storage.view ≤ wrapAdd 64 message.view 1) := by
  obtain ⟨hlast, hjustify⟩ := hkeeps.2 htype hsigned
  have hsucc (hsecond : second = true) : wrapAdd 64 message.view 1 = message.view + 1 :=
    wrapAdd_of_lt (hlast (hcomplete hsecond))
  cases first with
  | none =>
      refine ⟨by simp, fun hsecond => ?_⟩
      rw [hsucc hsecond]
      exact hview.trans (Nat.le_succ _)
  | some tc =>
      obtain ⟨hattach, hold, hvalid⟩ := hattached tc rfl
      obtain ⟨htc, hcase⟩ := hjustify tc hattach hold hvalid
      have hnext : (c.timeoutFirst (some tc)).storage.view = tc.view + 1 :=
        wrapAdd_of_lt htc
      constructor
      · rintro tc' htc'
        cases htc'
        rw [wrapAdd_of_lt htc]
        exact hold.trans (Nat.le_succ _)
      · intro hsecond
        -- the certificate of an older view would have to be completed alone
        have hle : tc.view ≤ message.view := by
          rcases hcase with hle | hweight
          · exact hle
          · by_contra hgt
            exact absurd (halone hsecond tc rfl (not_le.1 hgt)) (not_le.2 hweight)
        rw [hnext, hsucc hsecond]
        exact Nat.succ_le_succ hle

theorem Act.viewInv {support : Support} {event : Event} {c c' : Core}
    (h : Act support event c c')
    (hc : c.ViewInv support) : c'.ViewInv support := by
  cases h with
  | common c' h => exact h.viewInv hc
  | leader c' state view h => exact h.viewInv hc
  | replica c' state h => exact h.viewInv hc
  | receive peerId message h => exact ⟨hc.dbView, hc.sorted⟩
  | sign message h => exact ⟨hc.dbView, hc.sorted⟩
  | timeouts timeouts byView => exact ⟨hc.dbView, hc.sorted⟩
  | newTimeout message address first second acting type signed view attached alone
      complete =>
      have hkeeps (htrace : ∀ e ∈ c.trace, e.KeepsView support) :=
        (htrace _ acting.mem (message, address) rfl).newTimeout type signed view attached
          alone complete
      refine (hc.timeoutFirst ?_).timeoutSecond ?_
      · exact fun tc htc htrace => (hkeeps htrace).1 tc htc
      · intro hsecond htrace
        rw [Core.timeoutFirst_trace] at htrace
        exact (hkeeps htrace).2 hsecond
  | decideTimeout message address tc acting type attached valid =>
      refine ⟨rfl, fun htrace => (hc.sorted htrace).setStorage ?_⟩
      obtain ⟨hle, hlt⟩ :=
        (htrace _ acting.mem (message, address) rfl).1 type tc attached valid
      exact hle.trans_eq (wrapAdd_of_lt hlt).symm
  | refresh storage h =>
      obtain ⟨genesisQc, hr⟩ := Storage.refreshed_of_refresh h
      exact ⟨hr.dbView, fun htrace => (hc.sorted htrace).setStorage
        (hc.dbView.symm.trans_le hr.le_view)⟩
  | restart storage h =>
      obtain ⟨genesisQc, hr⟩ := Storage.refreshed_of_refresh h
      exact ⟨hr.dbView, fun htrace => (hc.sorted htrace).setStorage
        (hc.dbView.symm.trans_le hr.le_view)⟩
  | runView state leader own other => exact ⟨hc.dbView, hc.sorted⟩
  | sync block params chain h hash header commits =>
      have hnote := hc.note (.sync block)
      exact hnote.setStorage { c.storage with chain } rfl rfl

/-- The view never falls in a run whose timeout messages keep it. -/
theorem view_monotone {support : Support} {secretKey : SecretKey} {s : Stream}
    (hrun : Run support secretKey s) (hkeeps : ∀ e ∈ s.trace, e.KeepsView support) :
    (s.storage :: s.history).Pairwise fun later earlier => earlier.view ≤ later.view := by
  have hinv : s.core.ViewInv support :=
    hrun.core_induction ⟨rfl, fun _ => List.pairwise_singleton _ _⟩
      fun hact _ hc => hact.viewInv hc
  exact hinv.sorted hkeeps

/-- A single validator times out and moves on by itself. -/
theorem view_monotone_timeout :
    ((Sample.node 1 [.timeout, .timeout]).storage ::
      (Sample.node 1 [.timeout, .timeout]).history).Pairwise
        (fun later earlier => earlier.view ≤ later.view) ∧
      (Sample.node 1 [.timeout, .timeout]).storage.view = 3 := by
  refine ⟨view_monotone (Sample.run_node 1 _) ?_, by decide +kernel⟩
  decide +kernel

/-- Decide messages of validator `1`: the certificate of view `5` comes first,
then the one of view `2`. -/
def lateCertificates : List Event :=
  Sample.register 1 ++
    [5, 2].map fun view =>
      .message [1] (some (.timeoutMessage
        { requestId := 0, messageType := .decide, view := 10,
          justify := some
            { view, sig := Sample.signatures [1, 2, 3] (.timeout .newTimeout view) },
          sig := none }))

/-- The view falls from `6` to `3`. -/
theorem view_lateCertificates :
    Run (Sample.support 4) ⟨[0]⟩ (Sample.node 4 lateCertificates) ∧
      ¬ ((Sample.node 4 lateCertificates).storage ::
        (Sample.node 4 lateCertificates).history).Pairwise
          fun later earlier => earlier.view ≤ later.view := by
  refine ⟨Sample.run_node 4 _, ?_⟩
  decide +kernel

/-! ## Locks -/

/-- The certificate of a block that the chain may get now. -/
def Entry.commitQc? (support : Support) (e : Entry) : Option QC :=
  match e.action with
  | .phase message _ =>
      if message.messageType = .decide then
        message.justify.filter fun qc =>
          (verifyQc support.basic qc (some .commit) e.authorities).isOk
      else none
  | .sync block => some block.commitQc
  | _ => none

/-- What is acted on keeps the certificates in order: the justify of a
pre-commit (commit) vote is not older than the stored prepare (locked)
certificate and not newer than the current view, and the view after a commit
certificate does not wrap. -/
def Entry.KeepsLock (support : Support) (e : Entry) : Prop :=
  (∀ vote ∈ e.replicaVote support,
    (vote.1 = .preCommit → e.storage.prepareQc.view ≤ vote.2.2.2.view ∧
      vote.2.2.2.view ≤ e.storage.view) ∧
    (vote.1 = .commit → e.storage.lockedQc.view ≤ vote.2.2.2.view ∧
      vote.2.2.2.view ≤ e.storage.view)) ∧
  ∀ qc ∈ e.commitQc? support, qc.view + 1 < 2 ^ 64 ∨ qc.view ≤ e.storage.view

instance (support : Support) (e : Entry) : Decidable (e.KeepsLock support) :=
  inferInstanceAs (Decidable (_ ∧ _))

/-- Both certificates lie between the base certificate and the view. -/
structure Storage.Bounded (storage : Storage) : Prop where
  base_le_prepare : storage.baseCommitQc.view ≤ storage.prepareQc.view
  base_le_locked : storage.baseCommitQc.view ≤ storage.lockedQc.view
  prepare_le_view : storage.prepareQc.view ≤ storage.view
  locked_le_view : storage.lockedQc.view ≤ storage.view

/-- The certificates of the present storage and of all the ones before. -/
structure LocksSorted (present : Storage) (history : List Storage) : Prop where
  sorted : (present :: history).Pairwise fun later earlier =>
    earlier.prepareQc.view ≤ later.prepareQc.view ∧
      earlier.lockedQc.view ≤ later.lockedQc.view
  bounded : ∀ storage ∈ present :: history, storage.Bounded
  committed : ∀ block ∈ present.chain,
    block.commitQc.view + 1 < 2 ^ 64 ∨ block.commitQc.view ≤ present.view

theorem LocksSorted.next {present : Storage} {history : List Storage}
    (h : LocksSorted present history) {storage : Storage}
    (hprepare : present.prepareQc.view ≤ storage.prepareQc.view)
    (hlocked : present.lockedQc.view ≤ storage.lockedQc.view)
    (hbounded : storage.Bounded)
    (hcommitted : ∀ block ∈ storage.chain,
      block.commitQc.view + 1 < 2 ^ 64 ∨ block.commitQc.view ≤ storage.view) :
    LocksSorted storage (storage :: history) := by
  obtain ⟨hhead, htail⟩ := List.pairwise_cons.1 h.sorted
  have hall : ∀ earlier ∈ history, earlier.prepareQc.view ≤ storage.prepareQc.view ∧
      earlier.lockedQc.view ≤ storage.lockedQc.view :=
    fun earlier hearlier => ⟨(hhead earlier hearlier).1.trans hprepare,
      (hhead earlier hearlier).2.trans hlocked⟩
  refine ⟨List.pairwise_cons.2 ⟨?_, List.pairwise_cons.2 ⟨hall, htail⟩⟩, ?_, hcommitted⟩
  · intro earlier hearlier
    rcases List.mem_cons.1 hearlier with rfl | hearlier
    · exact ⟨le_rfl, le_rfl⟩
    · exact hall earlier hearlier
  · intro st hst
    rcases List.mem_cons.1 hst with rfl | hst
    · exact hbounded
    · rcases List.mem_cons.1 hst with rfl | hst
      · exact hbounded
      · exact h.bounded st (List.mem_cons_of_mem _ hst)

/-- The certificates on disk are the ones in memory, and as long as everything
acted on keeps the view and the locks they are in order. -/
structure Core.LockInv (support : Support) (c : Core) : Prop where
  collected : c.Collected
  dbPrepareQc : ∀ qc : QC, qc.view = 0 →
    (c.storage.db.prepareQc.getD qc).view = c.storage.prepareQc.view
  dbLockedQc : ∀ qc : QC, qc.view = 0 →
    (c.storage.db.lockedQc.getD qc).view = c.storage.lockedQc.view
  dbView : c.storage.db.view.getD 0 = c.storage.view
  sorted : (∀ e ∈ c.trace, e.KeepsView support ∧ e.KeepsLock support) →
    LocksSorted c.storage c.history

section

variable {support : Support} {event : Event} {c : Core}

/-- A write that leaves the view and the certificates as they are. -/
theorem Core.LockInv.setChain (h : c.LockInv support) (storage : Storage)
    (hview : storage.view = c.storage.view) (hdbView : storage.db.view = c.storage.db.view)
    (hbase : storage.baseCommitQc = c.storage.baseCommitQc)
    (hprepare : storage.prepareQc = c.storage.prepareQc)
    (hdbPrepare : storage.db.prepareQc = c.storage.db.prepareQc)
    (hlocked : storage.lockedQc = c.storage.lockedQc)
    (hdbLocked : storage.db.lockedQc = c.storage.db.lockedQc)
    (hchain : (∀ e ∈ c.trace, e.KeepsView support ∧ e.KeepsLock support) →
      LocksSorted c.storage c.history → ∀ block ∈ storage.chain,
        block.commitQc.view + 1 < 2 ^ 64 ∨ block.commitQc.view ≤ c.storage.view) :
    (c.setStorage storage).LockInv support where
  collected := h.collected
  dbPrepareQc := by
    have hold := h.dbPrepareQc
    rw [← hdbPrepare, ← hprepare] at hold
    exact hold
  dbLockedQc := by
    have hold := h.dbLockedQc
    rw [← hdbLocked, ← hlocked] at hold
    exact hold
  dbView := by
    have hold := h.dbView
    rw [← hdbView, ← hview] at hold
    exact hold
  sorted := by
    intro htrace
    have hsorted := h.sorted htrace
    have hbounded := hsorted.bounded c.storage List.mem_cons_self
    have hnow : storage.Bounded :=
      ⟨by rw [hbase, hprepare]; exact hbounded.base_le_prepare,
        by rw [hbase, hlocked]; exact hbounded.base_le_locked,
        by rw [hprepare, hview]; exact hbounded.prepare_le_view,
        by rw [hlocked, hview]; exact hbounded.locked_le_view⟩
    have hblocks := hchain htrace hsorted
    rw [← hview] at hblocks
    exact hsorted.next (congrArg QC.view hprepare).ge (congrArg QC.view hlocked).ge hnow
      hblocks

theorem Core.LockInv.updatePrepareQc (h : c.LockInv support) (qc : QC)
    (hqc : (∀ e ∈ c.trace, e.KeepsView support ∧ e.KeepsLock support) →
      LocksSorted c.storage c.history → c.storage.prepareQc.view ≤ qc.view ∧ qc.view ≤ c.storage.view) :
    (c.setStorage (c.storage.updatePrepareQc qc)).LockInv support where
  collected := h.collected
  dbPrepareQc := fun _ _ => rfl
  dbLockedQc := h.dbLockedQc
  dbView := h.dbView
  sorted := by
    intro htrace
    have hsorted := h.sorted htrace
    have hbounded := hsorted.bounded c.storage List.mem_cons_self
    obtain ⟨hold, hnew⟩ := hqc htrace hsorted
    exact hsorted.next hold le_rfl
      ⟨hbounded.base_le_prepare.trans hold, hbounded.base_le_locked, hnew,
        hbounded.locked_le_view⟩ hsorted.committed

theorem Core.LockInv.updateLockedQc (h : c.LockInv support) (qc : QC)
    (hqc : (∀ e ∈ c.trace, e.KeepsView support ∧ e.KeepsLock support) →
      LocksSorted c.storage c.history → c.storage.lockedQc.view ≤ qc.view ∧ qc.view ≤ c.storage.view) :
    (c.setStorage (c.storage.updateLockedQc qc)).LockInv support where
  collected := h.collected
  dbPrepareQc := h.dbPrepareQc
  dbLockedQc := fun _ _ => rfl
  dbView := h.dbView
  sorted := by
    intro htrace
    have hsorted := h.sorted htrace
    have hbounded := hsorted.bounded c.storage List.mem_cons_self
    obtain ⟨hold, hnew⟩ := hqc htrace hsorted
    exact hsorted.next le_rfl hold
      ⟨hbounded.base_le_prepare, hbounded.base_le_locked.trans hold,
        hbounded.prepare_le_view, hnew⟩ hsorted.committed

theorem Core.LockInv.updateView (h : c.LockInv support) {view : Nat}
    (hview : (∀ e ∈ c.trace, e.KeepsView support ∧ e.KeepsLock support) →
      c.storage.view ≤ view) :
    (c.setStorage (c.storage.updateView view)).LockInv support where
  collected := h.collected
  dbPrepareQc := h.dbPrepareQc
  dbLockedQc := h.dbLockedQc
  dbView := rfl
  sorted := by
    intro htrace
    have hsorted := h.sorted htrace
    have hbounded := hsorted.bounded c.storage List.mem_cons_self
    have hle := hview htrace
    exact hsorted.next le_rfl le_rfl
      ⟨hbounded.base_le_prepare, hbounded.base_le_locked,
        hbounded.prepare_le_view.trans hle, hbounded.locked_le_view.trans hle⟩
      fun block hblock => (hsorted.committed block hblock).imp_right fun h => h.trans hle

theorem Storage.view_of_getGenesisQc {chain : Chain} {genesisQc : QC}
    (h : getGenesisQc support chain = some genesisQc) : genesisQc.view = 0 := by
  unfold getGenesisQc at h
  split at h
  · cases h
  · cases h
    rfl

theorem Storage.view_getD {stored : Option QC} {genesisQc qc : QC} {x : QC}
    (h : stored.getD genesisQc = x) (hview : genesisQc.view = qc.view) :
    (stored.getD qc).view = x.view := by
  cases stored with
  | none => exact hview.symm.trans (congrArg QC.view h)
  | some y => exact congrArg QC.view h

/-- A repaired certificate is not older than before, nor than the base one. -/
theorem Storage.le_view_ite {base old qc : QC}
    (h : qc = if old.view ≤ base.view then base else old) {view : Nat}
    (hbase : base.view ≤ view) (hold : old.view ≤ view) :
    old.view ≤ qc.view ∧ base.view ≤ qc.view ∧ qc.view ≤ view := by
  split at h
  · next hle =>
    subst h
    exact ⟨hle, le_rfl, hbase⟩
  · next hlt =>
    subst h
    exact ⟨le_rfl, (not_le.1 hlt).le, hold⟩

/-- A refresh keeps the certificates in order. -/
theorem Core.LockInv.refresh (h : c.LockInv support) {storage : Storage} {genesisQc : QC}
    (hr : Storage.Refreshed support c.storage.chain c.storage.db storage genesisQc) :
    (c.setStorage storage).LockInv support := by
  have hgenesis : genesisQc.view = 0 := Storage.view_of_getGenesisQc hr.genesis
  have hview : c.storage.view ≤ storage.view := h.dbView.symm.trans_le hr.le_view
  refine ⟨h.collected, ?_, ?_, hr.dbView, fun htrace => ?_⟩
  · exact fun qc hqc => Storage.view_getD hr.dbPrepareQc (hgenesis.trans hqc.symm)
  · exact fun qc hqc => Storage.view_getD hr.dbLockedQc (hgenesis.trans hqc.symm)
  · have hsorted := h.sorted htrace
    have hbounded := hsorted.bounded c.storage List.mem_cons_self
    have hbase : storage.baseCommitQc.view ≤ storage.view := by
      have hcases : storage.baseCommitQc.view + 1 < 2 ^ 64 ∨
          storage.baseCommitQc.view ≤ c.storage.view := by
        rw [hr.baseCommitQc]
        cases hchain : c.storage.chain with
        | nil =>
            left
            rw [Storage.confirmedQc, hgenesis]
            norm_num
        | cons block blocks =>
            exact hsorted.committed block (by rw [hchain]; exact List.mem_cons_self)
      rcases hcases with hlt | hle
      · have hnext := hr.view
        rw [wrapAdd_of_lt hlt] at hnext
        split at hnext
        · omega
        · omega
      · exact hle.trans hview
    have hprepare := Storage.le_view_ite hr.prepareQc hbase
      ((h.dbPrepareQc genesisQc hgenesis).trans_le (hbounded.prepare_le_view.trans hview))
    have hlocked := Storage.le_view_ite hr.lockedQc hbase
      ((h.dbLockedQc genesisQc hgenesis).trans_le (hbounded.locked_le_view.trans hview))
    refine hsorted.next ?_ ?_ ⟨hprepare.2.1, hlocked.2.1, hprepare.2.2, hlocked.2.2⟩ ?_
    · exact (h.dbPrepareQc genesisQc hgenesis).symm.trans_le hprepare.1
    · exact (h.dbLockedQc genesisQc hgenesis).symm.trans_le hlocked.1
    · intro block (hblock : block ∈ storage.chain)
      rw [hr.chain] at hblock
      exact (hsorted.committed block hblock).imp_right fun h => h.trans hview

theorem Support.commitBlock_eq_ok {chain chain' : Chain} {params : CommitBlockParams}
    {commitQc : QC} (h : support.commitBlock chain params commitQc = .ok chain') :
    chain' = { blockHash := params.blockHash, header := params.header, commitQc } :: chain ∧
      params.header.number = chain.length + 1 ∧
      params.header.parentHash = support.confirmedBlockHash chain := by
  unfold Support.commitBlock at h
  split at h
  · cases h
  · split at h
    · next hbest =>
      cases h
      exact ⟨rfl, hbest⟩
    · cases h

/-- A new block whose certificate does not wrap the view. -/
theorem Core.LockInv.addBlock (h : c.LockInv support) {params : CommitBlockParams}
    {qc : QC} {chain : Chain}
    (hcommit : support.commitBlock c.storage.chain params qc = .ok chain)
    (hqc : (∀ e ∈ c.trace, e.KeepsView support ∧ e.KeepsLock support) →
      qc.view + 1 < 2 ^ 64 ∨ qc.view ≤ c.storage.view) :
    (c.setStorage { c.storage with chain }).LockInv support := by
  refine h.setChain { c.storage with chain } rfl rfl rfl rfl rfl rfl rfl fun htrace hsorted block hblock => ?_
  obtain ⟨rfl, -, -⟩ := Support.commitBlock_eq_ok hcommit
  rcases List.mem_cons.1 hblock with rfl | hblock
  · exact hqc htrace
  · exact hsorted.committed block hblock

theorem Core.LockInv.decide (h : c.LockInv support) {qc : QC} {chain : Chain}
    (hdecides : c.Decides support qc chain)
    (hqc : (∀ e ∈ c.trace, e.KeepsView support ∧ e.KeepsLock support) →
      qc.view + 1 < 2 ^ 64 ∨ qc.view ≤ c.storage.view) :
    (c.decide chain).LockInv support := by
  obtain ⟨proposal, params, -, -, -, hcommit⟩ := hdecides
  have hadd := h.addBlock hcommit hqc
  exact { hadd with }

theorem Core.LockInv.note (h : c.LockInv support) (action : Action) :
    (c.note action).LockInv support :=
  { h with
    sorted := fun htrace => h.sorted fun e he => htrace e (List.mem_cons_of_mem _ he) }

theorem CommonAct.lockInv {c' : Core} (h : CommonAct support c c')
    (hc : c.LockInv support) : c'.LockInv support := by
  cases h with
  | note action h => exact hc.note action
  | queue queued h => exact { hc with }
  | params params built =>
      exact { hc with }
  | putProposal proposal x p built number parent hash =>
      have hput := hc.setChain (c.storage.putProposal proposal) rfl rfl rfl rfl
        rfl rfl rfl fun _ hsorted => hsorted.committed
      exact { hput with }

theorem LeaderAct.lockInv {c' : Core} (h : LeaderAct support c c')
    (hview : c.storage.view = c.currentView) (hc : c.LockInv support) :
    c'.LockInv support := by
  have hcollected := h.collected hview hc.collected
  cases h with
  | common c' h => exact h.lockInv hc
  | work l h =>
      exact { hc with collected := hcollected }
  | propose node highQc pm signal acting fresh pmNode idle =>
      exact { hc with collected := hcollected }
  | ownVote t message pm leaderAddress phase leader type view proposed node own =>
      exact { hc with collected := hcollected }
  | remoteVote t message pm address s phase other received type view sig signer valid
      proposed node =>
      exact { hc with collected := hcollected }
  | prepareQc order qc message collected fresh =>
      -- the votes that make a certificate are of the current view
      have hqc : qc.view = c.storage.view :=
        (hc.collected.of_getQc (t := .prepare) collected).2.1.trans hview.symm
      have hwrite := hc.updatePrepareQc qc fun _ hsorted => by
        rw [hqc]
        exact ⟨(hsorted.bounded c.storage List.mem_cons_self).prepare_le_view, le_rfl⟩
      exact { hwrite with collected := hcollected }
  | preCommitQc order qc message collected fresh =>
      have hqc : qc.view = c.storage.view :=
        (hc.collected.of_getQc (t := .preCommit) collected).2.1.trans hview.symm
      have hwrite := hc.updateLockedQc qc fun _ hsorted => by
        rw [hqc]
        exact ⟨(hsorted.bounded c.storage List.mem_cons_self).locked_le_view, le_rfl⟩
      exact { hwrite with collected := hcollected }
  | decide order qc chain collected decides =>
      have hqc : qc.view = c.storage.view :=
        (hc.collected.of_getQc (t := .commit) collected).2.1.trans hview.symm
      exact hc.decide decides fun _ => Or.inr hqc.le

theorem ReplicaAct.lockInv {c' : Core} (h : ReplicaAct support c c')
    (hc : c.LockInv support) : c'.LockInv support := by
  cases h with
  | common c' h => exact h.lockInv hc
  | vote message address leaderAddress t view node justify acting received current casts
      leader =>
      have hkeeps (htrace : ∀ e ∈ c.trace, e.KeepsView support ∧ e.KeepsLock support) :=
        (htrace _ acting.mem).2.1 _ casts
      cases t with
      | preCommit =>
          have hwrite := hc.updatePrepareQc justify fun htrace _ => (hkeeps htrace).1 rfl
          exact { hwrite with }
      | commit =>
          have hwrite := hc.updateLockedQc justify fun htrace _ => (hkeeps htrace).2 rfl
          exact { hwrite with }
      | newView => exact { hc with }
      | prepare => exact { hc with }
      | decide => exact { hc with }
  | decide message address qc chain acting received type justify valid decides =>
      refine hc.decide decides fun htrace => (htrace _ acting.mem).2.2 qc ?_
      simp [Entry.commitQc?, Core.entry, type, justify, valid, Except.isOk, Except.toBool]

theorem Act.lockInv {c' : Core} (h : Act support event c c') (hc : c.LockInv support) :
    c'.LockInv support := by
  have hcollected := h.collected hc.collected
  cases h with
  | common c' h => exact h.lockInv hc
  | leader c' state view h => exact h.lockInv view hc
  | replica c' state h => exact h.lockInv hc
  | receive peerId message h => exact { hc with }
  | sign message h => exact { hc with }
  | timeouts timeouts byView =>
      exact { hc with }
  | newTimeout message address first second acting type signed view attached alone
      complete =>
      have hkeeps (htrace : ∀ e ∈ c.trace, e.KeepsView support ∧ e.KeepsLock support) :=
        ((htrace _ acting.mem).1 (message, address) rfl).newTimeout type signed view attached
          alone complete
      have hfirst : (c.timeoutFirst first).LockInv support := by
        cases first with
        | none => exact hc
        | some tc => exact hc.updateView fun htrace => (hkeeps htrace).1 tc rfl
      cases second with
      | false => exact hfirst
      | true =>
          refine hfirst.updateView fun htrace => ?_
          rw [Core.timeoutFirst_trace] at htrace
          exact (hkeeps htrace).2 rfl
  | decideTimeout message address tc acting type attached valid =>
      refine hc.updateView fun htrace => ?_
      obtain ⟨hle, hlt⟩ :=
        ((htrace _ acting.mem).1 (message, address) rfl).1 type tc attached valid
      exact hle.trans_eq (wrapAdd_of_lt hlt).symm
  | refresh storage h =>
      obtain ⟨genesisQc, hr⟩ := Storage.refreshed_of_refresh h
      have hrefresh := hc.refresh hr
      exact { hrefresh with }
  | restart storage h =>
      obtain ⟨genesisQc, hr⟩ := Storage.refreshed_of_refresh h
      have hrefresh := hc.refresh hr
      exact { hrefresh with collected := hcollected }
  | runView state leader own other =>
      exact { hc with collected := hcollected }
  | sync block params chain h hash header commits =>
      exact (hc.note (.sync block)).addBlock commits fun htrace =>
        (htrace _ List.mem_cons_self).2.2 block.commitQc rfl

end

/-- The prepare and the locked certificate never get older in a run in which
what is acted on keeps the view and the locks, and they always lie between the
base certificate and the view. -/
theorem locks_monotone {support : Support} {secretKey : SecretKey} {s : Stream}
    (hrun : Run support secretKey s)
    (hkeeps : ∀ e ∈ s.trace, e.KeepsView support ∧ e.KeepsLock support) :
    ((s.storage :: s.history).Pairwise fun later earlier =>
      earlier.prepareQc.view ≤ later.prepareQc.view ∧
        earlier.lockedQc.view ≤ later.lockedQc.view) ∧
      ∀ storage ∈ s.storage :: s.history,
        storage.baseCommitQc.view ≤ storage.prepareQc.view ∧
        storage.baseCommitQc.view ≤ storage.lockedQc.view ∧
        storage.prepareQc.view ≤ storage.view ∧ storage.lockedQc.view ≤ storage.view := by
  have hinv : s.core.LockInv support := by
    refine hrun.core_induction ?_ fun hact _ hc => hact.lockInv hc
    refine ⟨fun t p hp => ?_, fun qc hqc => hqc, fun qc hqc => hqc, rfl, fun _ => ?_⟩
    · simp [Stream.core, Stream.blank] at hp
    · refine ⟨List.pairwise_singleton _ _, ?_, ?_⟩
      · intro storage hstorage
        rw [List.mem_singleton.1 hstorage]
        exact ⟨le_rfl, le_rfl, le_rfl, le_rfl⟩
      · intro block hblock
        cases hblock
  obtain ⟨hsorted, hbounded, -⟩ := hinv.sorted hkeeps
  exact ⟨hsorted, fun storage hstorage =>
    ⟨(hbounded storage hstorage).base_le_prepare, (hbounded storage hstorage).base_le_locked,
      (hbounded storage hstorage).prepare_le_view,
      (hbounded storage hstorage).locked_le_view⟩⟩

/-- A single validator commits a block and refreshes its storage. -/
theorem locks_monotone_commit :
    (((Sample.node 1 [.schedule 5, .blockCommitted]).storage ::
      (Sample.node 1 [.schedule 5, .blockCommitted]).history).Pairwise
        fun later earlier =>
          earlier.prepareQc.view ≤ later.prepareQc.view ∧
            earlier.lockedQc.view ≤ later.lockedQc.view) ∧
      (Sample.node 1 [.schedule 5, .blockCommitted]).storage.baseCommitQc.view = 1 ∧
      (Sample.node 1 [.schedule 5, .blockCommitted]).storage.lockedQc.view = 1 := by
  refine ⟨(locks_monotone (Sample.run_node 1 _) ?_).1, ?_⟩
  · decide +kernel
  · decide +kernel

/-- A commit message of the current view with this justify. -/
def Sample.commitMessage (view : Nat) (justify : QC) : ConsensusMessage where
  requestId := 0
  messageType := .commit
  view
  node := none
  justify := some justify
  sig := none

/-- The validators `1`, `2` and `3` pre-commit a node in view `1`; then a
certificate of view `0` comes that nobody has signed. -/
def forgottenLock : List Event :=
  let node : Node := { parentHash := (Sample.support 4).genesisHash, blockHash := ⟨[9]⟩ }
  let genuine : QC :=
    { messageType := .preCommit, view := 1, node, leaderAddress := ⟨[1]⟩,
      sig := Sample.signatures [1, 2, 3] (.vote .preCommit 1 (some node) ⟨[1]⟩) }
  let forged : QC :=
    { messageType := .preCommit, view := 0, node, leaderAddress := ⟨[1]⟩, sig := [] }
  Sample.register 1 ++ Sample.deliver 1 (Sample.commitMessage 1 genuine) ++
    Sample.deliver 1 (Sample.commitMessage 1 forged)

/-- The locked certificate of view `1` is replaced by one of view `0`. -/
theorem lockedQc_forgottenLock :
    Run (Sample.support 4) ⟨[0]⟩ (Sample.node 4 forgottenLock) ∧
      ¬ ((Sample.node 4 forgottenLock).storage ::
        (Sample.node 4 forgottenLock).history).Pairwise fun later earlier =>
          earlier.lockedQc.view ≤ later.lockedQc.view := by
  refine ⟨Sample.run_node 4 _, ?_⟩
  decide +kernel

end Finastate.Hotstuff
