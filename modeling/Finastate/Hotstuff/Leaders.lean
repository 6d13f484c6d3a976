import Mathlib.Tactic.IntervalCases
import Finastate.Library.RoundRobin
import Finastate.Hotstuff.Frame
import Finastate.Hotstuff.Network

/-!
# The leader of a view

The leader of a view is found by counting on from the leader of the commit
certificate of the confirmed block, or from the end of the list when the block
has changed the authorities. `leaderAt` is this choice as a function of the
chain alone. A node follows it as long as it is told of every block that changes
the authorities before the next one is committed: the authorities before the last
block are not read from the chain but kept from the notice before, and two blocks
with one refresh leave them wrong.
-/

namespace Finastate.Hotstuff

variable {support : Support} {genesisQc : QC}

/-- The authorities after the last block of a chain. -/
def Support.authoritiesOf (support : Support) (chain : Chain) : Authorities :=
  aggregateAuthorities (support.getAuthorities chain)

def Support.addresses (support : Support) (chain : Chain) : List Address :=
  (support.authoritiesOf chain).members.map Prod.fst

theorem Support.nodup_addresses (support : Support) (chain : Chain) :
    (support.addresses chain).Nodup :=
  nodup_aggregateAuthorities _

/-- The position that the views after the last block are counted from. -/
def lastLeaderIndex (support : Support) (genesisQc : QC) (chain : Chain) : Option Nat :=
  if support.authoritiesOf chain.tail = support.authoritiesOf chain then
    (support.addresses chain).findIdx? fun address =>
      address = (Storage.confirmedQc genesisQc chain).leaderAddress
  else some ((support.addresses chain).length - 1)

/-- The leader of a view on top of a chain. -/
def leaderAt (support : Support) (genesisQc : QC) (chain : Chain) (view : Nat) :
    Option Address :=
  (lastLeaderIndex support genesisQc chain).bind fun i =>
    RoundRobin.turn (support.addresses chain)
      (i + (view - (Storage.confirmedQc genesisQc chain).view))

/-- The commit certificate of every block names the leader of its view, and the
views of the certificates grow. -/
def Rotated (support : Support) (genesisQc : QC) : Chain → Prop
  | [] => True
  | block :: chain =>
      leaderAt support genesisQc chain block.commitQc.view =
          some block.commitQc.leaderAddress ∧
        (Storage.confirmedQc genesisQc chain).view < block.commitQc.view ∧
        Rotated support genesisQc chain

instance (support : Support) (genesisQc : QC) :
    (chain : Chain) → Decidable (Rotated support genesisQc chain)
  | [] => inferInstanceAs (Decidable True)
  | _ :: chain =>
      have := instDecidableRotated support genesisQc chain
      inferInstanceAs (Decidable (_ ∧ _ ∧ _))

/-- The certificates that two chains have for the last block that changed the
authorities are of one view. -/
def SameTurn (support : Support) : Chain → Chain → Prop
  | block :: chain, block' :: chain' =>
      if support.authoritiesOf chain = support.authoritiesOf (block :: chain) then
        SameTurn support chain chain'
      else block.commitQc.view = block'.commitQc.view
  | _, _ => True

theorem Support.addresses_eq {chain chain' : Chain}
    (h : support.authoritiesOf chain = support.authoritiesOf chain') :
    support.addresses chain = support.addresses chain' := by
  rw [Support.addresses, Support.addresses, h]

/-- After a block that leaves the authorities as they are, the position is the
one of the leader of the view of the block. -/
theorem lastLeaderIndex_cons {block : ConfirmedBlock} {chain : Chain}
    (hrotated : Rotated support genesisQc (block :: chain))
    (hsame : support.authoritiesOf chain = support.authoritiesOf (block :: chain)) :
    ∃ i, lastLeaderIndex support genesisQc chain = some i ∧
      lastLeaderIndex support genesisQc (block :: chain) =
        some ((i + (block.commitQc.view - (Storage.confirmedQc genesisQc chain).view)) %
          (support.addresses chain).length) := by
  have hleader := hrotated.1
  unfold leaderAt at hleader
  obtain ⟨i, hi, hturn⟩ := Option.bind_eq_some_iff.1 hleader
  have hindex := RoundRobin.findIdx?_of_turn (support.nodup_addresses chain) hturn
  refine ⟨i, hi, ?_⟩
  rw [lastLeaderIndex, List.tail_cons, if_pos hsame, ← Support.addresses_eq hsame]
  exact hindex

instance (support : Support) :
    (chain chain' : Chain) → Decidable (SameTurn support chain chain')
  | [], _ => inferInstanceAs (Decidable True)
  | _ :: _, [] => inferInstanceAs (Decidable True)
  | block :: chain, block' :: chain' =>
      have := instDecidableSameTurn support chain chain'
      inferInstanceAs (Decidable
        (if support.authoritiesOf chain = support.authoritiesOf (block :: chain) then
          SameTurn support chain chain'
        else block.commitQc.view = block'.commitQc.view))

/-- A block that leaves the authorities as they are does not change the leader
of any later view. -/
theorem leaderAt_cons {block : ConfirmedBlock} {chain : Chain}
    (hrotated : Rotated support genesisQc (block :: chain))
    (hsame : support.authoritiesOf chain = support.authoritiesOf (block :: chain))
    {view : Nat} (hview : block.commitQc.view ≤ view) :
    leaderAt support genesisQc (block :: chain) view =
      leaderAt support genesisQc chain view := by
  obtain ⟨i, hi, hlast⟩ := lastLeaderIndex_cons hrotated hsame
  have hlt := hrotated.2.1
  have hviews : i + (block.commitQc.view - (Storage.confirmedQc genesisQc chain).view) +
      (view - block.commitQc.view) =
        i + (view - (Storage.confirmedQc genesisQc chain).view) := by omega
  rw [leaderAt, leaderAt, hlast, hi, Option.bind_some, Option.bind_some,
    ← Support.addresses_eq hsame, Storage.confirmedQc, RoundRobin.turn_mod, hviews]

/-- The same blocks, and so the same authorities after each of them. -/
def SameBlocks (chain chain' : Chain) : Prop :=
  chain.map ConfirmedBlock.blockHash = chain'.map ConfirmedBlock.blockHash

/-- The authorities are part of the state after a block. -/
def Support.Determined (support : Support) : Prop :=
  ∀ chain chain', SameBlocks chain chain' →
    support.getAuthorities chain = support.getAuthorities chain'

theorem Support.Determined.authoritiesOf (h : support.Determined) {chain chain' : Chain}
    (hsame : SameBlocks chain chain') :
    support.authoritiesOf chain = support.authoritiesOf chain' := by
  rw [Support.authoritiesOf, Support.authoritiesOf, h chain chain' hsame]

/-- Chains with the same blocks have the same leaders, whatever certificates
they keep for them. -/
theorem leaderAt_congr (hdet : support.Determined) {chain chain' : Chain}
    (hsame : SameBlocks chain chain') (hrotated : Rotated support genesisQc chain)
    (hrotated' : Rotated support genesisQc chain')
    (hturn : SameTurn support chain chain') {view : Nat}
    (hview : (Storage.confirmedQc genesisQc chain).view ≤ view)
    (hview' : (Storage.confirmedQc genesisQc chain').view ≤ view) :
    leaderAt support genesisQc chain view = leaderAt support genesisQc chain' view := by
  induction chain generalizing chain' with
  | nil =>
      cases chain' with
      | nil => rfl
      | cons block' chain' => simp [SameBlocks] at hsame
  | cons block chain ih =>
      cases chain' with
      | nil => simp [SameBlocks] at hsame
      | cons block' chain' =>
          have htail : SameBlocks chain chain' := (List.cons.inj hsame).2
          have hauth := hdet.authoritiesOf hsame
          have hauthTail := hdet.authoritiesOf htail
          rw [SameTurn] at hturn
          by_cases hunchanged :
              support.authoritiesOf chain = support.authoritiesOf (block :: chain)
          · rw [if_pos hunchanged] at hturn
            have hunchanged' : support.authoritiesOf chain' =
                support.authoritiesOf (block' :: chain') := by
              rw [← hauth, ← hauthTail, hunchanged]
            rw [leaderAt_cons hrotated hunchanged hview,
              leaderAt_cons hrotated' hunchanged' hview']
            exact ih htail hrotated.2.2 hrotated'.2.2 hturn
              (hrotated.2.1.le.trans hview) (hrotated'.2.1.le.trans hview')
          · rw [if_neg hunchanged] at hturn
            have hchanged' : ¬ support.authoritiesOf chain' =
                support.authoritiesOf (block' :: chain') := by
              rw [← hauth, ← hauthTail]
              exact hunchanged
            have haddresses := Support.addresses_eq hauth
            have hlast : lastLeaderIndex support genesisQc (block :: chain) =
                lastLeaderIndex support genesisQc (block' :: chain') := by
              rw [lastLeaderIndex, lastLeaderIndex, List.tail_cons, List.tail_cons,
                if_neg hunchanged, if_neg hchanged', haddresses]
            rw [leaderAt, leaderAt, hlast, haddresses, Storage.confirmedQc,
              Storage.confirmedQc, hturn]

/-- A chain that continues another one with the authorities unchanged. -/
def Continued (support : Support) (chain chain' : Chain) : Prop :=
  ∃ n, SameBlocks chain (chain'.drop n) ∧ SameTurn support chain (chain'.drop n) ∧
    ∀ i < n,
      support.authoritiesOf (chain'.drop (i + 1)) = support.authoritiesOf (chain'.drop i)

theorem Rotated.tail {block : ConfirmedBlock} {chain : Chain}
    (h : Rotated support genesisQc (block :: chain)) : Rotated support genesisQc chain :=
  h.2.2

theorem leaderAt_drop {chain : Chain} (hrotated : Rotated support genesisQc chain) {n : Nat}
    (hunchanged : ∀ i < n,
      support.authoritiesOf (chain.drop (i + 1)) = support.authoritiesOf (chain.drop i))
    {view : Nat} (hview : (Storage.confirmedQc genesisQc chain).view ≤ view) :
    Rotated support genesisQc (chain.drop n) ∧
      (Storage.confirmedQc genesisQc (chain.drop n)).view ≤ view ∧
      leaderAt support genesisQc chain view =
        leaderAt support genesisQc (chain.drop n) view := by
  induction n generalizing chain with
  | zero => exact ⟨hrotated, hview, rfl⟩
  | succ n ih =>
      cases chain with
      | nil => exact ⟨hrotated, hview, rfl⟩
      | cons block chain =>
          have htop : support.authoritiesOf chain = support.authoritiesOf (block :: chain) :=
            hunchanged 0 (Nat.succ_pos n)
          obtain ⟨hdrop, hle, heq⟩ := ih hrotated.tail
            (fun i hi => hunchanged (i + 1) (Nat.succ_lt_succ hi))
            (hrotated.2.1.le.trans hview)
          exact ⟨hdrop, hle, (leaderAt_cons hrotated htop hview).trans heq⟩

theorem Continued.leaderAt_eq (hdet : support.Determined) {chain chain' : Chain}
    (h : Continued support chain chain') (hrotated : Rotated support genesisQc chain)
    (hrotated' : Rotated support genesisQc chain') {view : Nat}
    (hview : (Storage.confirmedQc genesisQc chain).view ≤ view)
    (hview' : (Storage.confirmedQc genesisQc chain').view ≤ view) :
    leaderAt support genesisQc chain' view = leaderAt support genesisQc chain view := by
  obtain ⟨n, hsame, hturn, hunchanged⟩ := h
  obtain ⟨hdrop, hle, heq⟩ := leaderAt_drop hrotated' hunchanged hview'
  rw [heq]
  exact (leaderAt_congr hdet hsame hrotated hdrop hturn hview hle).symm

/-! ## Chains of a node -/

/-- Every block is the hash of its header and stands on the one below. -/
def Support.Linked (support : Support) : Chain → Prop
  | [] => True
  | block :: chain =>
      block.blockHash = support.basic.hash block.header ∧
        block.header.number = chain.length + 1 ∧
        block.header.parentHash = support.confirmedBlockHash chain ∧ Linked support chain

theorem Support.Linked.drop {chain : Chain} (h : support.Linked chain) (n : Nat) :
    support.Linked (chain.drop n) := by
  induction n generalizing chain with
  | zero => exact h
  | succ n ih =>
      cases chain with
      | nil => exact h
      | cons block chain => exact ih h.2.2.2

/-- Without collisions the last block determines the ones below. -/
theorem Support.Linked.sameBlocks (hinj : Function.Injective support.basic.hash)
    (hgenesis : support.genesisHeader.number = 0) {chain chain' : Chain}
    (h : support.Linked chain) (h' : support.Linked chain')
    (hsame : support.confirmedBlockHash chain = support.confirmedBlockHash chain') :
    SameBlocks chain chain' := by
  induction chain generalizing chain' with
  | nil =>
      cases chain' with
      | nil => rfl
      | cons block' chain' =>
          have hheader := hinj (hsame.trans h'.1)
          have hnumber := congrArg Header.number hheader
          rw [hgenesis, h'.2.1] at hnumber
          exact absurd hnumber.symm (Nat.succ_ne_zero _)
  | cons block chain ih =>
      cases chain' with
      | nil =>
          have hheader := hinj (h.1.symm.trans hsame)
          have hnumber := congrArg Header.number hheader
          rw [hgenesis, h.2.1] at hnumber
          exact absurd hnumber (Nat.succ_ne_zero _)
      | cons block' chain' =>
          have hheader : block.header = block'.header :=
            hinj (h.1.symm.trans (hsame.trans h'.1))
          have hparent := congrArg Header.parentHash hheader
          rw [h.2.2.1, h'.2.2.1] at hparent
          have hblock : block.blockHash = block'.blockHash := hsame
          have htail : SameBlocks chain chain' := ih h.2.2.2 h'.2.2.2 hparent
          rw [SameBlocks, List.map_cons, List.map_cons, hblock, htail]

/-- The chain is linked, and so is the block that waits to be committed. -/
structure Core.ChainInv (support : Support) (c : Core) : Prop where
  linked : support.Linked c.storage.chain
  params : ∀ x ∈ c.commitBlockParams, x.blockHash = support.basic.hash x.header

variable {c c' : Core}

theorem Core.ChainInv.commit (h : c.ChainInv support) {params : CommitBlockParams} {qc : QC}
    {chain : Chain} (hparams : params.blockHash = support.basic.hash params.header)
    (hcommit : support.commitBlock c.storage.chain params qc = .ok chain) :
    support.Linked chain := by
  obtain ⟨rfl, hnumber, hparent⟩ := Support.commitBlock_eq_ok hcommit
  exact ⟨hparams, hnumber, hparent, h.linked⟩

theorem Core.ChainInv.decide (h : c.ChainInv support) {qc : QC} {chain : Chain}
    (hdecides : c.Decides support qc chain) : (c.decide chain).ChainInv support := by
  obtain ⟨proposal, params, -, hparams, -, hcommit⟩ := hdecides
  exact ⟨h.commit (h.params params hparams) hcommit, nofun⟩

theorem CommonAct.chainInv (h : CommonAct support c c') (hc : c.ChainInv support) :
    c'.ChainInv support := by
  cases h with
  | note action h => exact ⟨hc.linked, hc.params⟩
  | queue queued h => exact ⟨hc.linked, hc.params⟩
  | params params built =>
      refine ⟨hc.linked, fun x hx => ?_⟩
      obtain ⟨p, hbuilt⟩ := built x hx
      exact (Consensus.Support.buildBlock_eq_ok hbuilt).1
  | putProposal proposal x p built number parent hash =>
      refine ⟨hc.linked, ?_⟩
      rintro y ⟨⟩
      exact (Consensus.Support.buildBlock_eq_ok built).1

theorem Act.chainInv {event : Event} (h : Act support event c c')
    (hc : c.ChainInv support) : c'.ChainInv support := by
  cases h with
  | common c' h => exact h.chainInv hc
  | leader c' state view h =>
      cases h with
      | common c' h => exact h.chainInv hc
      | decide order qc chain collected decides => exact hc.decide decides
      | _ => exact ⟨hc.linked, hc.params⟩
  | replica c' state h =>
      cases h with
      | common c' h => exact h.chainInv hc
      | vote message address leaderAddress t view node justify acting received current casts
          leader => cases t <;> exact ⟨hc.linked, hc.params⟩
      | decide message address qc chain acting received type justify valid decides =>
          exact hc.decide decides
  | newTimeout message address first second acting type signed view attached alone =>
      cases first <;> cases second <;> exact ⟨hc.linked, hc.params⟩
  | refresh storage h =>
      obtain ⟨genesisQc, hr⟩ := Storage.refreshed_of_refresh h
      exact ⟨hr.chain ▸ hc.linked, hc.params⟩
  | restart storage h =>
      obtain ⟨genesisQc, hr⟩ := Storage.refreshed_of_refresh h
      exact ⟨hr.chain ▸ hc.linked, nofun⟩
  | sync block params chain h hash header commits =>
      exact ⟨hc.commit hash commits, hc.params⟩
  | _ => exact ⟨hc.linked, hc.params⟩

theorem Run.linked {secretKey : SecretKey} {s : Stream} (h : Run support secretKey s) :
    support.Linked s.storage.chain :=
  (h.core_induction (P := Core.ChainInv support) ⟨trivial, nofun⟩
    (fun hact _ hc => hact.chainInv hc)).linked

/-! ## The node and its chain -/

/-- What a node knows of the blocks it has been told of. -/
structure Root where
  authorities : Authorities
  lastAuthorities : Authorities
  baseCommitQc : QC
  confirmed : Chain

namespace Stream

variable {oracle : Oracle}

def root (s : Stream) : Root where
  authorities := s.authorities
  lastAuthorities := s.lastAuthorities
  baseCommitQc := s.storage.baseCommitQc
  confirmed := s.confirmed

theorem root_of_ground {s s' : Stream} (h : s'.ground = s.ground) : s'.root = s.root := by
  have hroot : ∀ s : Stream, s.root = ⟨s.ground.authorities, s.ground.lastAuthorities,
      s.ground.baseCommitQc, s.ground.confirmed⟩ := fun _ => rfl
  rw [hroot, hroot, h]

theorem root_of_still {s s' : Stream} (h : s'.still = s.still) : s'.root = s.root := by
  have hroot : ∀ s : Stream, s.root = ⟨s.still.authorities, s.still.lastAuthorities,
      s.still.baseCommitQc, s.still.confirmed⟩ := fun _ => rfl
  rw [hroot, hroot, h]

@[simp] theorem root_logged (r : Stream × Outcome) : (logged r).root = r.1.root := by
  unfold logged
  split
  · rfl
  · rfl

@[simp] theorem root_fatal (r : Stream × Outcome) : (fatal r).root = r.1.root := by
  unfold fatal
  split
  · rfl
  · rfl

@[simp] theorem root_runView (s : Stream) : (s.runView support oracle).1.root = s.root := by
  unfold runView
  split
  · rfl
  · simp only
    split
    · rw [root_of_still (still_start _)]
      rfl
    · rw [root_of_still (still_of_frame (ReplicaState.frame_sendNewView _))]
      rfl
    · rfl

@[simp] theorem root_syncBlock (s : Stream) (block : ConfirmedBlock) :
    (s.syncBlock support block).root = s.root := by
  unfold syncBlock
  split
  · next chain _ hcommit =>
    have hconfirmed : chain.drop (s.unread + 1) = s.confirmed := confirmed_commit hcommit
    simp only [root, confirmed, setStorage, note]
    rw [hconfirmed]
    rfl
  · rfl

theorem root_handle (s : Stream) {event : Event} (h : event ≠ .blockCommitted) :
    (s.handle support oracle event).root = s.root := by
  cases event with
  | timeout =>
      simp only [handle]
      split
      · rfl
      · rw [root_fatal, root_of_ground (ground_onTimeout s)]
  | schedule timestamp =>
      simp only [handle]
      split
      · rw [root_logged, root_of_ground (ground_of_frame
          (LeaderState.frame_tryWork s (some timestamp) none))]
      · rfl
  | internal =>
      simp only [handle]
      split
      · rfl
      · rw [root_logged, root_of_still (still_onInternalMessage _ _)]
        rfl
  | «open» peerId localNonce remoteNonce =>
      exact root_of_ground (ground_registerValidator _ peerId)
  | close peerId => rfl
  | message peerId message =>
      cases message with
      | none => rfl
      | some message =>
          simp only [handle]
          rw [root_logged, root_of_ground (ground_onNetworkMessage s peerId message)]
  | blockCommitted => exact absurd rfl h
  | restart => rfl
  | sync block => rfl

theorem getHotstuffAuthorities_length (chain : Chain) :
    support.getHotstuffAuthorities chain chain.length = support.authoritiesOf chain := by
  simp [Support.getHotstuffAuthorities, Support.authoritiesOf]

theorem getHotstuffAuthorities_pred (chain : Chain) :
    support.getHotstuffAuthorities chain (chain.length - 1) =
      support.authoritiesOf chain.tail := by
  cases chain with
  | nil => rfl
  | cons block chain => simp [Support.getHotstuffAuthorities, Support.authoritiesOf]

theorem getGenesisQc_eq (chain : Chain) :
    getGenesisQc support chain = getGenesisQc support [] := by
  simp [getGenesisQc, Support.getHotstuffAuthorities]

/-- A refreshed storage has the certificate of the last block as its base. -/
theorem refresh_eq_some (hgenesis : getGenesisQc support [] = some genesisQc) (chain : Chain)
    (db : Db) :
    ∃ storage, Storage.refresh support chain db = some storage ∧ storage.chain = chain ∧
      storage.baseCommitQc = Storage.confirmedQc genesisQc chain := by
  cases hrefresh : Storage.refresh support chain db with
  | none =>
      unfold Storage.refresh at hrefresh
      rw [getGenesisQc_eq, hgenesis] at hrefresh
      cases hrefresh
  | some storage =>
      obtain ⟨genesisQc', hr⟩ := Storage.refreshed_of_refresh hrefresh
      have hsame := hr.genesis
      rw [getGenesisQc_eq, hgenesis] at hsame
      cases hsame
      exact ⟨storage, rfl, hr.chain, hr.baseCommitQc⟩

/-- The stream that a restart gives to the first `run_view`. -/
def restarted? (support : Support) (s : Stream) : Option Stream :=
  (Storage.new support s.storage.chain s.storage.db).map fun storage =>
    { s.setStorage storage with
      peers := []
      knownValidators := []
      nextRequestId := 0
      currentLeader := none
      state := .observer
      leader := LeaderState.new
      authorities := support.getHotstuffAuthorities storage.chain storage.chain.length
      lastAuthorities :=
        support.getHotstuffAuthorities storage.chain (storage.chain.length - 1)
      internal := []
      notices := 0
      unread := 0
      commitBlockParams := none
      pendingConsensusMessages := []
      pendingNewViewMessages := []
      timeoutMessageCollector := []
      timeoutTc := none
      halted := false }

theorem spawn_eq (s : Stream) :
    s.spawn support oracle =
      match s.restarted? support with
      | none => { s with halted := true }
      | some s' => fatal (s'.runView support oracle) := by
  unfold spawn restarted?
  cases Storage.new support s.storage.chain s.storage.db with
  | none => rfl
  | some storage => rfl

/-- A restarted node knows its whole chain. -/
theorem restarted?_eq_some (hgenesis : getGenesisQc support [] = some genesisQc) (s : Stream) :
    ∃ s', s.restarted? support = some s' ∧
      s'.root =
        { authorities := support.authoritiesOf s.storage.chain
          lastAuthorities := support.authoritiesOf s.storage.chain.tail
          baseCommitQc := Storage.confirmedQc genesisQc s.storage.chain
          confirmed := s.storage.chain } := by
  obtain ⟨storage, hnew, hchain, hbase⟩ :=
    refresh_eq_some hgenesis s.storage.chain s.storage.db
  unfold restarted?
  rw [Storage.new, hnew]
  refine ⟨_, rfl, ?_⟩
  simp only [root, confirmed, setStorage, List.drop_zero, hbase,
    getHotstuffAuthorities_length, getHotstuffAuthorities_pred, hchain]

/-- A node that is told of a block looks at its whole chain. -/
theorem root_onBlockCommitted (hgenesis : getGenesisQc support [] = some genesisQc)
    (s : Stream) :
    (s.onBlockCommitted support).1.root =
      { authorities := support.authoritiesOf s.storage.chain
        lastAuthorities := s.authorities
        baseCommitQc := Storage.confirmedQc genesisQc s.storage.chain
        confirmed := s.storage.chain } := by
  obtain ⟨storage, hrefresh, hchain, hbase⟩ :=
    refresh_eq_some hgenesis s.storage.chain s.storage.db
  unfold onBlockCommitted
  simp only [hrefresh, done, root, confirmed, setStorage, List.drop_zero, hbase,
    getHotstuffAuthorities_length, hchain]

/-- What a step does to what the node knows of its blocks. -/
theorem root_step (hgenesis : getGenesisQc support [] = some genesisQc) (oracle : Oracle)
    (s : Stream) (event : Event) :
    (s.step support oracle event).root = s.root ∨
    (event = .blockCommitted ∧ s.notices ≠ 0 ∧ (s.step support oracle event).root =
      { authorities := support.authoritiesOf s.storage.chain
        lastAuthorities := s.authorities
        baseCommitQc := Storage.confirmedQc genesisQc s.storage.chain
        confirmed := s.storage.chain }) ∨
    (event = .restart ∧ (s.step support oracle event).root =
      { authorities := support.authoritiesOf s.storage.chain
        lastAuthorities := support.authoritiesOf s.storage.chain.tail
        baseCommitQc := Storage.confirmedQc genesisQc s.storage.chain
        confirmed := s.storage.chain }) := by
  have hhandle (heq : (s.step support oracle event).root =
      (s.handle support oracle event).root) :
      (s.step support oracle event).root = s.root ∨
      (event = .blockCommitted ∧ s.notices ≠ 0 ∧ (s.step support oracle event).root =
        { authorities := support.authoritiesOf s.storage.chain
          lastAuthorities := s.authorities
          baseCommitQc := Storage.confirmedQc genesisQc s.storage.chain
          confirmed := s.storage.chain }) := by
    rw [heq]
    by_cases hevent : event = .blockCommitted
    · subst hevent
      by_cases hzero : s.notices = 0
      · refine Or.inl ?_
        simp only [handle, hzero, if_true]
      · refine Or.inr ⟨rfl, hzero, ?_⟩
        simp only [handle, hzero, if_false, root_logged]
        exact root_onBlockCommitted hgenesis _
    · exact Or.inl (root_handle s hevent)
  rcases step_cases support oracle s event with
    ⟨rfl, hstep⟩ | ⟨block, rfl, hstep⟩ | ⟨-, hstep⟩ | ⟨-, -, hstep⟩ | ⟨-, -, hstep⟩
  · obtain ⟨s', hs', hroot⟩ := restarted?_eq_some hgenesis s
    refine Or.inr (Or.inr ⟨rfl, ?_⟩)
    rw [hstep, spawn_eq, hs']
    simp only [root_fatal, root_runView]
    exact hroot
  · rw [hstep]
    exact Or.inl (root_syncBlock s block)
  · rw [hstep]
    exact Or.inl rfl
  · have := hhandle (by rw [hstep])
    exact this.imp_right Or.inl
  · have := hhandle (by rw [hstep, root_fatal, root_runView])
    exact this.imp_right Or.inl

end Stream

/-- The authorities of the node are those of its confirmed blocks, and it knows
whether the last of them has changed the authorities. -/
structure Root.Tracked (support : Support) (genesisQc : QC) (r : Root) : Prop where
  baseCommitQc : r.baseCommitQc = Storage.confirmedQc genesisQc r.confirmed
  authorities : r.authorities = support.authoritiesOf r.confirmed
  changed : r.lastAuthorities = r.authorities ↔
    support.authoritiesOf r.confirmed.tail = support.authoritiesOf r.confirmed

/-- When the storage is refreshed for a notice, the blocks that it has not read yet
change the authorities exactly when the last block of the chain does. One block alone
always meets this. -/
def Stream.Paced (support : Support) (_oracle : Oracle) (s : Stream) (event : Event) : Prop :=
  event = .blockCommitted → s.notices ≠ 0 →
    (support.authoritiesOf s.confirmed = support.authoritiesOf s.storage.chain ↔
      support.authoritiesOf s.storage.chain.tail = support.authoritiesOf s.storage.chain)

instance (support : Support) (oracle : Oracle) (s : Stream) (event : Event) :
    Decidable (s.Paced support oracle event) :=
  inferInstanceAs (Decidable (_ → _ → (_ ↔ _)))

theorem Root.Tracked.step (hgenesis : getGenesisQc support [] = some genesisQc)
    {oracle : Oracle} {s : Stream} (h : s.root.Tracked support genesisQc) {event : Event}
    (hpaced : s.Paced support oracle event) :
    (s.step support oracle event).root.Tracked support genesisQc := by
  rcases Stream.root_step hgenesis oracle s event with
    hroot | ⟨hevent, hne, hroot⟩ | ⟨-, hroot⟩
  · rw [hroot]
    exact h
  · have hknown : s.authorities = support.authoritiesOf s.confirmed := h.authorities
    rw [hroot]
    refine ⟨rfl, rfl, ?_⟩
    rw [hknown]
    exact hpaced hevent hne
  · rw [hroot]
    exact ⟨rfl, rfl, Iff.rfl⟩

theorem RunWith.tracked (hgenesis : getGenesisQc support [] = some genesisQc)
    {secretKey : SecretKey} {s : Stream}
    (h : RunWith support secretKey (Stream.Paced support) s) :
    s.root.Tracked support genesisQc := by
  induction h with
  | start oracle =>
      obtain ⟨s', hs', hroot⟩ :=
        Stream.restarted?_eq_some hgenesis (Stream.blank support secretKey)
      rw [Stream.spawn_eq, hs']
      simp only [Stream.root_fatal, Stream.root_runView]
      rw [hroot]
      exact ⟨rfl, rfl, Iff.rfl⟩
  | step h oracle event hp ih => exact ih.step hgenesis hp

/-! ## The leader of a node -/

theorem head?_of_getGenesisQc (hgenesis : getGenesisQc support [] = some genesisQc) :
    (support.addresses []).head? = some genesisQc.leaderAddress := by
  unfold getGenesisQc at hgenesis
  split at hgenesis
  · cases hgenesis
  · next member members hmembers =>
    cases hgenesis
    have hmembers : (support.authoritiesOf []).members = member :: members := hmembers
    rw [Support.addresses, hmembers]
    rfl

/-- On a rotated chain the last leader is always found. -/
theorem lastLeaderIndex_isSome (hgenesis : getGenesisQc support [] = some genesisQc)
    {chain : Chain} (hrotated : Rotated support genesisQc chain) :
    ∃ i, lastLeaderIndex support genesisQc chain = some i ∧
      i ≤ (support.addresses chain).length - 1 := by
  have hle : ∀ i, lastLeaderIndex support genesisQc chain = some i →
      i ≤ (support.addresses chain).length - 1 := by
    intro i hi
    unfold lastLeaderIndex at hi
    split at hi
    · obtain ⟨hlt, -⟩ := List.findIdx?_eq_some_iff_getElem.1 hi
      omega
    · cases hi
      exact le_rfl
  suffices h : ∃ i, lastLeaderIndex support genesisQc chain = some i by
    obtain ⟨i, hi⟩ := h
    exact ⟨i, hi, hle i hi⟩
  cases chain with
  | nil =>
      have hhead := head?_of_getGenesisQc hgenesis
      obtain ⟨rest, hrest⟩ := List.head?_eq_some_iff.1 hhead
      refine ⟨0, ?_⟩
      rw [lastLeaderIndex, List.tail_nil, if_pos rfl, hrest, Storage.confirmedQc,
        List.findIdx?_cons, decide_eq_true rfl]
      rfl
  | cons block chain =>
      by_cases hsame : support.authoritiesOf chain = support.authoritiesOf (block :: chain)
      · obtain ⟨i, -, hlast⟩ := lastLeaderIndex_cons hrotated hsame
        exact ⟨_, hlast⟩
      · refine ⟨(support.addresses (block :: chain)).length - 1, ?_⟩
        rw [lastLeaderIndex, List.tail_cons, if_neg hsame]

/-- A state in which counting views does not wrap, on certificates of the
leaders of their views. -/
structure Stream.Regular (support : Support) (genesisQc : QC) (s : Stream) : Prop where
  rotated : Rotated support genesisQc s.confirmed
  above : s.storage.baseCommitQc.view < s.storage.view
  bound : s.storage.view + s.authorities.members.length ≤ 2 ^ 64

/-- The end of `compute_leader` without the wrapping of machine integers. -/
theorem Stream.Regular.getElem?_leaderIndex {s : Stream}
    (h : s.Regular support genesisQc) {i : Nat} (hi : i < s.authorities.members.length) :
    s.authorities.members[wrapAdd 64 i (wrapSub 64 s.storage.view
        s.storage.baseCommitQc.view) % s.authorities.members.length]?.map Prod.fst =
      RoundRobin.turn (s.authorities.members.map Prod.fst)
        (i + (s.storage.view - s.storage.baseCommitQc.view)) := by
  have habove := h.above
  have hbound := h.bound
  rw [wrapSub_of_le (by omega) habove.le, wrapAdd_of_lt (by omega), RoundRobin.turn,
    List.getElem?_map, List.length_map]

theorem Stream.computeLeader_eq
    (hgenesis : getGenesisQc support [] = some genesisQc) {s : Stream}
    (htracked : s.root.Tracked support genesisQc) (hregular : s.Regular support genesisQc) :
    s.computeLeader =
      match leaderAt support genesisQc s.confirmed s.storage.view with
      | none => .error (.panic "remainder by zero")
      | some address => .ok address := by
  obtain ⟨hbase, hauthorities, hchanged⟩ :
      s.storage.baseCommitQc = Storage.confirmedQc genesisQc s.confirmed ∧
        s.authorities = support.authoritiesOf s.confirmed ∧
        (s.lastAuthorities = s.authorities ↔
          support.authoritiesOf s.confirmed.tail = support.authoritiesOf s.confirmed) :=
    ⟨htracked.baseCommitQc, htracked.authorities, htracked.changed⟩
  obtain ⟨i, hi, hle⟩ := lastLeaderIndex_isSome hgenesis hregular.rotated
  have hmembers : s.authorities.members.map Prod.fst = support.addresses s.confirmed := by
    rw [hauthorities, Support.addresses]
  have hlength : s.authorities.members.length = (support.addresses s.confirmed).length := by
    rw [← hmembers, List.length_map]
  have hturn : leaderAt support genesisQc s.confirmed s.storage.view =
      RoundRobin.turn (s.authorities.members.map Prod.fst)
        (i + (s.storage.view - s.storage.baseCommitQc.view)) := by
    rw [leaderAt, hi, hmembers, hbase, Option.bind_some]
  have hindex : (if s.lastAuthorities = s.authorities then
      (s.authorities.members.map Prod.fst).findIdx? fun address =>
        address = s.storage.baseCommitQc.leaderAddress
      else some (wrapSub 64 s.authorities.members.length 1)) = some i ∧
        i < s.authorities.members.length ∨
      s.authorities.members = [] ∧ s.lastAuthorities ≠ s.authorities := by
    rw [hmembers, hbase]
    unfold lastLeaderIndex at hi
    by_cases hsame : support.authoritiesOf s.confirmed.tail =
        support.authoritiesOf s.confirmed
    · rw [if_pos hsame] at hi
      rw [if_pos (hchanged.2 hsame), hlength]
      obtain ⟨hlt, -⟩ := List.findIdx?_eq_some_iff_getElem.1 hi
      exact Or.inl ⟨hi, hlt⟩
    · rw [if_neg hsame] at hi
      have hne : s.lastAuthorities ≠ s.authorities := fun heq => hsame (hchanged.1 heq)
      have hbound := hregular.bound
      have habove := hregular.above
      rw [if_neg hne]
      cases hi
      rcases Nat.eq_zero_or_pos s.authorities.members.length with hzero | hpos
      · exact Or.inr ⟨List.length_eq_zero_iff.1 hzero, hne⟩
      · rw [wrapSub_of_le (by omega) hpos, hlength]
        exact Or.inl ⟨rfl, by omega⟩
  rw [hturn]
  unfold Stream.computeLeader
  rcases hindex with ⟨hindex, hlt⟩ | ⟨hnil, hne⟩
  · have hget := hregular.getElem?_leaderIndex hlt
    simp only [hindex]
    rw [← hget]
    cases s.authorities.members[wrapAdd 64 i (wrapSub 64 s.storage.view
        s.storage.baseCommitQc.view) % s.authorities.members.length]? with
    | none => rfl
    | some member => rfl
  · simp only [if_neg hne, hnil]
    simp [RoundRobin.turn]

/-- The leaders as nodes that see every change of the authorities compute them.
Two nodes with the same confirmed block in the same view have the same leader.
In as many consecutive views as there are members, on chains that go on from
one block with the authorities unchanged, the leaders are the members, each of
them once. -/
theorem leader_agreement (hgenesis : getGenesisQc support [] = some genesisQc)
    (hdet : support.Determined) (hinj : Function.Injective support.basic.hash)
    (hnumber : support.genesisHeader.number = 0) :
    (∀ {secretKey secretKey' : SecretKey} {s s' : Stream},
      RunWith support secretKey (Stream.Paced support) s →
      RunWith support secretKey' (Stream.Paced support) s' →
      s.Regular support genesisQc → s'.Regular support genesisQc →
      SameTurn support s.confirmed s'.confirmed →
      support.confirmedBlockHash s.confirmed = support.confirmedBlockHash s'.confirmed →
      s.storage.view = s'.storage.view → s.computeLeader = s'.computeLeader) ∧
    ∀ {chain : Chain} {view : Nat} {secretKey : Nat → SecretKey} {s : Nat → Stream},
      Rotated support genesisQc chain → (Storage.confirmedQc genesisQc chain).view < view →
      (∀ i < (support.addresses chain).length,
        RunWith support (secretKey i) (Stream.Paced support) (s i) ∧
          (s i).Regular support genesisQc ∧
          Continued support chain (s i).confirmed ∧ (s i).storage.view = view + i) →
      ((List.range (support.addresses chain).length).map fun i => (s i).computeLeader).Perm
        ((support.addresses chain).map .ok) := by
  constructor
  · intro secretKey secretKey' s s' hrun hrun' hreg hreg' hturn hblock hview
    have htracked := hrun.tracked hgenesis
    have htracked' := hrun'.tracked hgenesis
    have hsame : SameBlocks s.confirmed s'.confirmed :=
      Support.Linked.sameBlocks hinj hnumber (hrun.run.linked.drop _)
        (hrun'.run.linked.drop _) hblock
    have habove := hreg.above
    have habove' := hreg'.above
    rw [show s.storage.baseCommitQc = _ from htracked.baseCommitQc] at habove
    rw [show s'.storage.baseCommitQc = _ from htracked'.baseCommitQc, ← hview] at habove'
    rw [Stream.computeLeader_eq hgenesis htracked hreg,
      Stream.computeLeader_eq hgenesis htracked' hreg',
      ← hview, leaderAt_congr hdet hsame hreg.rotated hreg'.rotated hturn habove.le habove'.le]
  · intro chain view secretKey s hrotated hview hall
    obtain ⟨j, hj, -⟩ := lastLeaderIndex_isSome hgenesis hrotated
    have hleader : ∀ i ∈ List.range (support.addresses chain).length,
        (s i).computeLeader =
          match RoundRobin.turn (support.addresses chain)
              (j + (view - (Storage.confirmedQc genesisQc chain).view) + i) with
          | none => .error (.panic "remainder by zero")
          | some address => .ok address := by
      intro i hi
      obtain ⟨hrun, hreg, hcontinued, hviewi⟩ := hall i (List.mem_range.1 hi)
      have htracked := hrun.tracked hgenesis
      have habove := hreg.above
      rw [show (s i).storage.baseCommitQc = _ from htracked.baseCommitQc, hviewi] at habove
      have hturn : j + (view + i - (Storage.confirmedQc genesisQc chain).view) =
          j + (view - (Storage.confirmedQc genesisQc chain).view) + i := by omega
      rw [Stream.computeLeader_eq hgenesis htracked hreg, hviewi,
        hcontinued.leaderAt_eq hdet hrotated hreg.rotated (by omega) habove.le, leaderAt, hj,
        Option.bind_some, hturn]
    rw [List.map_congr_left hleader]
    have hturns := RoundRobin.map_range_turn (support.addresses chain)
      (j + (view - (Storage.confirmedQc genesisQc chain).view))
    have hmap := congrArg (List.map fun turn : Option Address =>
      match turn with
      | none => (.error (.panic "remainder by zero") : Except Stop Address)
      | some address => .ok address) hturns
    rw [List.map_map, List.map_map] at hmap
    refine (List.Perm.of_eq hmap).trans ?_
    exact (List.rotate_perm _ _).map _

namespace Sample

/-- A block on top of a chain, committed in a view with a leader and signed by
the validators `1`, `2` and `3`. -/
def signedBlock (chain : Chain) (view : Nat) (leader : UInt8) : ConfirmedBlock :=
  let parentHash := (Sample.support 4).confirmedBlockHash chain
  let header := { genesisHeader with number := chain.length + 1, parentHash }
  let node : Node := { parentHash, blockHash := basic.hash header }
  { blockHash := basic.hash header
    header
    commitQc :=
      { messageType := .commit
        view
        node
        leaderAddress := ⟨[leader]⟩
        sig := signatures [1, 2, 3] (.vote .commit view (some node) ⟨[leader]⟩) } }

/-- Two blocks of the leaders of the views `1` and `4`. -/
def block1 : ConfirmedBlock := signedBlock [] 1 1

def block2 : ConfirmedBlock := signedBlock [block1] 4 0

/-- Validator `1` sends a timeout certificate. -/
def moveTo (view : Nat) : List Event :=
  register 1 ++
    [.message [1] (some (.timeoutMessage
      { requestId := 0, messageType := .decide, view := 10,
        justify := some { view, sig := signatures [1, 2, 3] (.timeout .newTimeout view) },
        sig := none }))]

/-- Validator `3` leaves with the second block. -/
def shrinking : Support :=
  { Sample.support 4 with
    getAuthorities := fun chain =>
      (Sample.support (if chain.length < 2 then 4 else 3)).getAuthorities chain }

/-- A validator of the shrinking network. -/
def shrinkingNode (key : UInt8) (events : List Event) : Stream :=
  ((Stream.blank shrinking ⟨[key]⟩).spawn shrinking oracle).steps shrinking oracle events

theorem run_shrinkingNode (key : UInt8) (events : List Event) :
    Run shrinking ⟨[key]⟩ (shrinkingNode key events) :=
  (Run.start oracle).steps oracle events

end Sample

/-- Two validators learn two blocks, one of them in a batch, and agree on the leader, and
the leaders of four views in a row are the four validators. -/
theorem leader_agreement_four :
    (Sample.validator 4 0 [.sync Sample.block1, .sync Sample.block2, .blockCommitted,
          .blockCommitted]).computeLeader =
        (Sample.validator 4 2 [.sync Sample.block1, .blockCommitted, .sync Sample.block2,
          .blockCommitted]).computeLeader ∧
      ((List.range 4).map fun i => (Sample.node 4 (Sample.moveTo i)).computeLeader).Perm
        (((Sample.support 4).addresses []).map .ok) := by
  have hinj : Function.Injective (Sample.support 4).basic.hash :=
    fun header header' h => Sample.encodeHeader_injective (Hash.mk.inj h)
  obtain ⟨hagree, hrotate⟩ :=
    @leader_agreement (Sample.support 4) _ rfl (fun _ _ _ => rfl) hinj rfl
  have hpaced (key : UInt8) (events : List Event)
      (h : ((Stream.blank (Sample.support 4) ⟨[key]⟩).spawn (Sample.support 4)
        Sample.oracle).StepsWith (Sample.support 4) Sample.oracle
          (Stream.Paced (Sample.support 4)) events) :
      RunWith (Sample.support 4) ⟨[key]⟩ (Stream.Paced (Sample.support 4))
        (Sample.validator 4 key events) :=
    (RunWith.start Sample.oracle).steps h
  constructor
  · refine hagree (hpaced 0 _ (by decide +kernel)) (hpaced 2 _ (by decide +kernel)) ?_ ?_ ?_
      (by decide +kernel) (by decide +kernel)
    · exact ⟨by decide +kernel, by decide +kernel, by decide +kernel⟩
    · exact ⟨by decide +kernel, by decide +kernel, by decide +kernel⟩
    · decide +kernel
  · refine @hrotate [] 1 (fun _ => ⟨[0]⟩) (fun i => Sample.node 4 (Sample.moveTo i)) trivial
      (by decide +kernel) ?_
    intro i hi
    have hi : i < 4 := hi
    have hsteps : ((Stream.blank (Sample.support 4) ⟨[0]⟩).spawn (Sample.support 4)
        Sample.oracle).StepsWith (Sample.support 4) Sample.oracle
          (Stream.Paced (Sample.support 4)) (Sample.moveTo i) := by
      interval_cases i <;> decide +kernel
    have hchain : (Sample.node 4 (Sample.moveTo i)).confirmed = [] := by
      interval_cases i <;> decide +kernel
    have hview : (Sample.node 4 (Sample.moveTo i)).storage.view = 1 + i ∧
        (Sample.node 4 (Sample.moveTo i)).storage.baseCommitQc.view = 0 ∧
        (Sample.node 4 (Sample.moveTo i)).authorities.members.length = 4 := by
      interval_cases i <;> decide +kernel
    obtain ⟨hview, hbase, hlength⟩ := hview
    refine ⟨hpaced 0 _ hsteps, ⟨?_, ?_, ?_⟩, ⟨0, ?_, ?_, nofun⟩, hview⟩
    · rw [hchain]
      trivial
    · rw [hview, hbase]
      omega
    · rw [hview, hlength]
      omega
    · rw [hchain]
      rfl
    · rw [hchain]
      trivial

/-- One validator is told of the blocks one by one, the other one only after the
second: they have the same block and the same view, and different leaders. -/
theorem leader_disagreement :
    ∃ s s' : Stream, Run Sample.shrinking ⟨[0]⟩ s ∧ Run Sample.shrinking ⟨[1]⟩ s' ∧
      s.notices = 0 ∧ s'.notices = 0 ∧ s.storage.chain = s'.storage.chain ∧
      s.storage.view = s'.storage.view ∧ s.computeLeader = .ok ⟨[0]⟩ ∧
      s'.computeLeader = .ok ⟨[1]⟩ := by
  refine ⟨_, _, Sample.run_shrinkingNode 0
    [.sync Sample.block1, .blockCommitted, .sync Sample.block2, .blockCommitted],
    Sample.run_shrinkingNode 1
      [.sync Sample.block1, .sync Sample.block2, .blockCommitted, .blockCommitted], ?_⟩
  decide +kernel

end Finastate.Hotstuff
