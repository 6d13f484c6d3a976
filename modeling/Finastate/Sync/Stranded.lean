import Finastate.Sync.System

/-!
# No stranded block

A block that is downloading waits for its peer, and the peer answers for the range
that it was asked for. The two maps keep one half of this each. A handler that
changes the entry of a peer has to release the blocks that wait for it, and two
of them do not: a response releases the blocks it contains and no others, and a
peer that opens again gets a new entry.
-/

namespace Finastate.Sync

open Chain Executor Relation
open Coordinator (BlockData)

/-- The peer has been asked for the block under this request. -/
def PeerInfo.Serves (info : PeerInfo) (requestId : RequestId) (number : BlockNumber) : Prop :=
  ∃ start count, info.state = .downloading requestId start count ∧ start ≤ number ∧
    number < start + count

namespace ChainSync

/-- Every block that is downloading waits for a peer that has been asked for
it. -/
def Held (sync : ChainSync) : Prop :=
  ∀ number source requestId, (number, .downloading source requestId) ∈ sync.pendingBlocks →
    ∃ info, AssocMap.get? sync.peers source = some info ∧ info.Serves requestId number

/-- The blocks are held, and no peer has two entries. -/
structure Attended (sync : ChainSync) : Prop where
  nodup : (sync.peers.map Prod.fst).Nodup
  held : sync.Held

variable {sync sync' : ChainSync}

@[simp] theorem peers_send (message : Out) : (sync.send message).peers = sync.peers := rfl

@[simp] theorem pendingBlocks_send (message : Out) :
    (sync.send message).pendingBlocks = sync.pendingBlocks := rfl

@[simp] theorem peers_notifyLatency (oldLatency newLatency : BlockNumber) :
    (sync.notifyLatency oldLatency newLatency).peers = sync.peers := by
  unfold notifyLatency
  split <;> rfl

@[simp] theorem pendingBlocks_notifyLatency (oldLatency newLatency : BlockNumber) :
    (sync.notifyLatency oldLatency newLatency).pendingBlocks = sync.pendingBlocks := by
  unfold notifyLatency
  split <;> rfl

@[simp] theorem peers_append (maxPendingNumber maxToAppend : BlockNumber) :
    (sync.append maxPendingNumber maxToAppend).peers = sync.peers := by
  unfold append
  split <;> rfl

theorem get?_modifyPeer (peerId source : PeerId) (f : PeerInfo → PeerInfo) :
    AssocMap.get? (sync.modifyPeer peerId f).peers source =
      (AssocMap.get? sync.peers source).map fun info => if source = peerId then f info else info :=
  AssocMap.get?_mapValues (fun id info => if id = peerId then f info else info) sync.peers source

theorem mem_mapPending {f : BlockNumber → PendingBlockState → PendingBlockState}
    {number : BlockNumber} {state : PendingBlockState} :
    (number, state) ∈ (sync.mapPending f).pendingBlocks ↔
      ∃ before, (number, before) ∈ sync.pendingBlocks ∧ f number before = state :=
  AssocMap.mem_mapValues

/-- The blocks stay held if those that still wait have waited before, and if their
peers are still asked for them. -/
theorem Held.mono (h : sync.Held)
    (hkept : ∀ number source requestId,
      (number, .downloading source requestId) ∈ sync'.pendingBlocks →
      (number, .downloading source requestId) ∈ sync.pendingBlocks ∧
        ∀ info, AssocMap.get? sync.peers source = some info → info.Serves requestId number →
          ∃ info', AssocMap.get? sync'.peers source = some info' ∧ info'.state = info.state) :
    sync'.Held := by
  intro number source requestId hmem
  obtain ⟨hbefore, hpeer⟩ := hkept number source requestId hmem
  obtain ⟨info, hinfo, hserves⟩ := h number source requestId hbefore
  obtain ⟨info', hinfo', hstate⟩ := hpeer info hinfo hserves
  refine ⟨info', hinfo', ?_⟩
  simpa only [PeerInfo.Serves, hstate] using hserves

/-- The same with the same peers. -/
theorem Held.of_pending (h : sync.Held) (hpeers : sync'.peers = sync.peers)
    (hpending : ∀ number source requestId,
      (number, .downloading source requestId) ∈ sync'.pendingBlocks →
      (number, .downloading source requestId) ∈ sync.pendingBlocks) : sync'.Held := by
  refine h.mono fun number source requestId hmem => ⟨hpending _ _ _ hmem, ?_⟩
  intro info hinfo hserves
  exact ⟨info, hpeers ▸ hinfo, rfl⟩

namespace Attended

variable (h : sync.Attended)
include h

theorem onProtocolOpen {peerId : PeerId}
    (hfree : ∀ p ∈ sync.pendingBlocks, p.2.awaited ≠ some peerId)
    (nonce : Nat) (handshake : Handshake) :
    (sync.onProtocolOpen peerId nonce handshake).Attended where
  nodup := AssocMap.nodup_keys_insert _ _ h.nodup
  held := by
    refine h.held.mono fun number source requestId hmem => ⟨hmem, ?_⟩
    intro info hinfo hserves
    have hne : source ≠ peerId := by
      rintro rfl
      exact hfree _ hmem rfl
    refine ⟨info, ?_, rfl⟩
    simp only [ChainSync.onProtocolOpen, AssocMap.get?_insert, if_neg hne, hinfo]

theorem onProtocolClose (peerId : PeerId) : (sync.onProtocolClose peerId).Attended where
  nodup := h.nodup.sublist (List.filter_sublist.map Prod.fst)
  held := by
    refine h.held.mono fun number source requestId hmem => ?_
    rw [ChainSync.onProtocolClose] at hmem
    obtain ⟨state, hstate, heq⟩ := mem_mapPending.1 hmem
    obtain ⟨rfl, hsource⟩ := PendingBlockState.release_eq_downloading.1 heq
    refine ⟨hstate, fun info hinfo hserves => ⟨info, ?_, rfl⟩⟩
    change AssocMap.get? (AssocMap.erase sync.peers peerId) source = some info
    rw [AssocMap.get?_erase, if_neg (of_decide_eq_false hsource), hinfo]

theorem onBlockAnnounce (peerId : PeerId) (announce : BlockAnnounce) :
    (sync.onBlockAnnounce peerId announce).Attended where
  nodup := by simpa [ChainSync.onBlockAnnounce, modifyPeer] using h.nodup
  held := by
    refine h.held.mono fun number source requestId hmem => ⟨hmem, ?_⟩
    intro info hinfo hserves
    refine ⟨_, (get?_modifyPeer _ _ _).trans (congrArg _ hinfo), ?_⟩
    split <;> rfl

theorem onBlockRequestTimeout {peerId : PeerId} {requestId : RequestId}
    (hdownloads : sync.Downloads peerId requestId) :
    (sync.onBlockRequestTimeout peerId requestId).Attended where
  nodup := by simpa [ChainSync.onBlockRequestTimeout, modifyPeer, mapPending] using h.nodup
  held := by
    refine h.held.mono fun number source requestId' hmem => ?_
    rw [ChainSync.onBlockRequestTimeout, pendingBlocks_send] at hmem
    obtain ⟨state, hstate, heq⟩ := mem_mapPending.1 hmem
    obtain ⟨rfl, hrequest⟩ := PendingBlockState.release_eq_downloading.1 heq
    refine ⟨hstate, fun info hinfo hserves => ?_⟩
    have hsource : source ≠ peerId := by
      rintro rfl
      obtain ⟨start, count, hdownloading, -⟩ := hserves
      simp only [Downloads, hinfo, Option.bind_some, hdownloading, PeerState.requestId?,
        Option.some.injEq] at hdownloads
      exact of_decide_eq_false hrequest hdownloads
    have hget := @get?_modifyPeer sync peerId source fun info => { info with state := .vacant }
    refine ⟨info, hget.trans ?_, rfl⟩
    rw [hinfo, Option.map_some, if_neg hsource]

omit h in
theorem peers_foldl_receive (peerId : PeerId) (blocks : List BlockData) (sync : ChainSync) :
    (blocks.foldl (fun sync blockData => sync.receive peerId blockData) sync).peers =
      sync.peers := by
  induction blocks generalizing sync with
  | nil => rfl
  | cons blockData blocks ih => exact ih _

omit h in
/-- The blocks that still wait after a response are not in it. -/
theorem mem_foldl_receive {peerId source : PeerId} {blocks : List BlockData} {sync : ChainSync}
    {number : BlockNumber} {requestId : RequestId}
    (hmem : (number, .downloading source requestId) ∈
      (blocks.foldl (fun sync blockData => sync.receive peerId blockData) sync).pendingBlocks) :
    (number, .downloading source requestId) ∈ sync.pendingBlocks ∧
      ∀ blockData ∈ blocks, blockData.number ≠ number := by
  induction blocks generalizing sync with
  | nil => exact ⟨hmem, nofun⟩
  | cons blockData blocks ih =>
      obtain ⟨hreceived, hblocks⟩ := ih hmem
      obtain ⟨state, hstate, heq⟩ := mem_mapPending.1 hreceived
      split at heq
      · exact absurd heq PendingBlockState.receive_ne_downloading
      · next hnumber =>
        subst heq
        exact ⟨hstate, List.forall_mem_cons.2 ⟨Ne.symm hnumber, hblocks⟩⟩

theorem onBlockResponse {peerId : PeerId} {blocks : List BlockData}
    (hanswered : ∀ p ∈ sync.pendingBlocks, p.2.awaited = some peerId →
      ∃ blockData ∈ blocks, blockData.number = p.1) :
    (sync.onBlockResponse peerId blocks).Attended where
  nodup := by
    simpa [ChainSync.onBlockResponse, modifyPeer, peers_foldl_receive] using h.nodup
  held := by
    refine h.held.mono fun number source requestId hmem => ?_
    obtain ⟨hbefore, hblocks⟩ := mem_foldl_receive hmem
    refine ⟨hbefore, fun info hinfo hserves => ?_⟩
    have hsource : source ≠ peerId := by
      rintro rfl
      obtain ⟨blockData, hblockData, hnumber⟩ := hanswered _ hbefore rfl
      exact hblocks blockData hblockData hnumber
    refine ⟨info, (get?_modifyPeer _ _ _).trans ?_, rfl⟩
    rw [peers_foldl_receive, hinfo, Option.map_some, if_neg hsource]

theorem removePending (number : BlockNumber) : (sync.removePending number).Attended where
  nodup := h.nodup
  held := h.held.of_pending rfl fun _ _ _ hmem => (List.mem_filter.1 hmem).1

theorem insertPending (number : BlockNumber) (source : PeerId) (blockData : BlockData) :
    (sync.insertPending number (.downloaded source blockData)).Attended where
  nodup := h.nodup
  held := by
    refine h.held.of_pending rfl fun number' source' requestId hmem => ?_
    rcases SortedMap.mem_insert hmem with heq | hmem
    · cases heq
    · exact hmem

theorem resetSource (peerId : PeerId) : (sync.resetSource peerId).Attended where
  nodup := h.nodup
  held := by
    refine h.held.of_pending rfl fun number source requestId hmem => ?_
    rw [ChainSync.resetSource, pendingBlocks_send] at hmem
    obtain ⟨state, hstate, heq⟩ := mem_mapPending.1 hmem
    rwa [PendingBlockState.reset_eq_downloading.1 heq] at hstate

theorem append (maxPendingNumber maxToAppend : BlockNumber) :
    (sync.append maxPendingNumber maxToAppend).Attended where
  nodup := by simpa using h.nodup
  held := by
    refine h.held.of_pending (peers_append _ _) fun number source requestId hmem => ?_
    unfold ChainSync.append at hmem
    split at hmem
    · rcases SortedMap.mem_extend hmem with hmem | hmem
      · exact hmem
      · simp at hmem
    · exact (List.mem_filter.1 hmem).1

theorem announceBlock (blockHash : Hash) (header : Header) :
    (sync.announceBlock blockHash header).Attended where
  nodup := by simpa [ChainSync.announceBlock] using h.nodup
  held := by
    refine h.held.mono fun number source requestId hmem => ⟨hmem, ?_⟩
    intro info hinfo hserves
    have hget := AssocMap.get?_mapValues (fun _ info => PeerInfo.putKnown info blockHash)
      sync.peers source
    exact ⟨_, hget.trans (congrArg _ hinfo), rfl⟩

theorem of_eq (hpeers : sync'.peers = sync.peers)
    (hpending : sync'.pendingBlocks = sync.pendingBlocks) : sync'.Attended where
  nodup := hpeers ▸ h.nodup
  held := h.held.of_pending hpeers fun _ _ _ hmem => hpending ▸ hmem

theorem notifyLatency (oldLatency newLatency : BlockNumber) :
    (sync.notifyLatency oldLatency newLatency).Attended :=
  h.of_eq (peers_notifyLatency _ _) (pendingBlocks_notifyLatency _ _)

omit h in
/-- The peer that is chosen is vacant. -/
theorem vacant_of_choosePeer (h : sync.Attended) {number : BlockNumber} {size : Nat}
    {peerId : PeerId} (hpeer : sync.choosePeer number size = some peerId) :
    ∃ info, AssocMap.get? sync.peers peerId = some info ∧ info.state = .vacant := by
  obtain ⟨p, hp, rfl⟩ := Option.map_eq_some_iff.1 hpeer
  obtain ⟨hmem, hvacant⟩ := List.mem_filter.1 (List.argmin_mem hp)
  refine ⟨p.2, (AssocMap.get?_eq_some_iff h.nodup).2 hmem, ?_⟩
  simp only [decide_eq_true_eq] at hvacant
  exact hvacant.1

theorem request (group : BlockNumber × Nat) : (sync.request group).Attended := by
  unfold ChainSync.request
  split
  · exact h
  · next peerId hpeer =>
    obtain ⟨info, hinfo, hvacant⟩ := h.vacant_of_choosePeer hpeer
    constructor
    case nodup => simpa [modifyPeer, mapPending] using h.nodup
    case held =>
      intro number source requestId hmem
      have hmapped : (number, PendingBlockState.downloading source requestId) ∈
          (sync.mapPending fun number state =>
            if group.1 ≤ number ∧ number < group.1 + group.2 then
              .downloading peerId sync.nextRequestId
            else state).pendingBlocks :=
        hmem
      obtain ⟨state, hstate, heq⟩ := mem_mapPending.1 hmapped
      have hget : ∀ source', AssocMap.get? (ChainSync.modifyPeer sync peerId fun info =>
          { info with state := .downloading sync.nextRequestId group.1 group.2 }).peers source' =
            (AssocMap.get? sync.peers source').map fun info =>
              if source' = peerId then
                { info with state := .downloading sync.nextRequestId group.1 group.2 }
              else info :=
        fun source' => get?_modifyPeer _ _ _
      split at heq
      · next hrange =>
        -- A block of the group waits for the peer that was chosen.
        cases heq
        refine ⟨_, (hget peerId).trans (congrArg _ hinfo), group.1, group.2, ?_, hrange⟩
        simp only [if_true]
      · -- Another block does not wait for this peer, which was vacant.
        subst heq
        obtain ⟨info', hinfo', hserves⟩ := h.held number source requestId hstate
        have hsource : source ≠ peerId := by
          rintro rfl
          obtain ⟨start, count, hdownloading, -⟩ := hserves
          rw [Option.some.inj (hinfo'.symm.trans hinfo), hvacant] at hdownloading
          cases hdownloading
        refine ⟨info', (hget source).trans ?_, hserves⟩
        rw [hinfo', Option.map_some, if_neg hsource]

theorem maintainSeen : sync.maintainSeen.Attended := by
  have hfold : ∀ (groups : List (BlockNumber × Nat)) (sync : ChainSync), sync.Attended →
      (groups.foldl ChainSync.request sync).Attended := by
    intro groups
    induction groups with
    | nil => exact fun sync h => h
    | cons group groups ih => exact fun sync h => ih _ (h.request group)
  exact hfold _ _ h

end Attended

end ChainSync

/-! ## Runs -/

namespace System

variable {backend : Backend}
  {consensusVerifyProof : StateMap → Header → Proof → Except Consensus.ErrorKind Unit}
  {s s₀ : System}

@[simp] theorem sync_commitBlock (now : Nat) (params : ChainCommitBlockParams) :
    (s.commitBlock backend now params).sync = s.sync := by
  unfold commitBlock
  split <;> rfl

@[simp] theorem control_commitBlock (now : Nat) (params : ChainCommitBlockParams) :
    (s.commitBlock backend now params).control = s.control := by
  unfold commitBlock
  split <;> rfl

@[simp] theorem sync_commitExecution (now : Nat) (params : ChainCommitExecutionParams) :
    (s.commitExecution backend now params).sync = s.sync := by
  unfold commitExecution
  split <;> rfl

@[simp] theorem control_commitExecution (now : Nat) (params : ChainCommitExecutionParams) :
    (s.commitExecution backend now params).control = s.control := by
  unfold commitExecution
  split <;> rfl

theorem Attended.act (h : s.sync.Attended) (oldLatency number : BlockNumber) (source : PeerId)
    (blockData : BlockData) (action : VerifyAction) :
    (s.act oldLatency number source blockData action).sync.Attended := by
  cases action with
  | ok => exact h
  | wait => exact h.insertPending number source blockData
  | discard => exact h
  | reset => exact h.resetSource source

/-- No step of a handler strands a block. -/
theorem Attended.advance (h : s.sync.Attended) (now : Nat) :
    (s.advance backend consensusVerifyProof now).sync.Attended := by
  unfold System.advance
  split
  case h_1 => exact h
  case h_2 number blockHash oldLatency heq =>
    have hnotified := h.notifyLatency oldLatency s.latency
    split
    · exact hnotified
    · next header hheader =>
      exact (hnotified.announceBlock blockHash header).of_eq rfl rfl
  case h_3 => exact h
  case h_4 =>
    split
    · exact h
    · exact h.removePending _
  case h_5 =>
    split
    · exact h
    · exact Attended.act h _ _ _ _ _
    · exact h
  case h_6 params heq =>
    have hcommitted : (s.commitBlock backend now params).sync.Attended := by simpa using h
    split
    · exact Attended.act hcommitted _ _ _ _ _
    · exact hcommitted
  case h_7 => exact h.notifyLatency _ _
  case h_8 => split <;> exact h
  case h_9 => exact h.append _ _
  case h_10 => exact h.notifyLatency _ _
  case h_11 => exact h.maintainSeen

/-- A peer that opens is not waited for, and a response has all the blocks that
wait for it. -/
def Answered (s : System) : Event → Prop
  | .open peerId _ _ => ∀ p ∈ s.sync.pendingBlocks, p.2.awaited ≠ some peerId
  | .response peerId response =>
      s.sync.Downloads peerId response.requestId →
        ∀ p ∈ s.sync.pendingBlocks, p.2.awaited = some peerId →
          ∃ blockData ∈ response.blocks, blockData.number = p.1
  | _ => True

instance (event : Event) : Decidable (s.Answered event) :=
  match event with
  | .open .. => inferInstanceAs (Decidable (∀ p ∈ s.sync.pendingBlocks, _))
  | .response .. => inferInstanceAs (Decidable (_ → ∀ p ∈ s.sync.pendingBlocks, _))
  | .close _ | .announce .. | .timeout .. | .message | .advance _ | .commitBlock ..
  | .commitExecution .. | .reorder _ => isTrue trivial

theorem Attended.next (h : s.sync.Attended) {event : Event} (henabled : s.Enabled event)
    (hanswered : s.Answered event) :
    (s.next backend consensusVerifyProof event).sync.Attended := by
  cases event with
  | «open» peerId nonce handshake => exact h.onProtocolOpen hanswered nonce handshake
  | close peerId => exact h.onProtocolClose peerId
  | announce peerId announce => exact h.onBlockAnnounce peerId announce
  | timeout peerId requestId =>
      change (s.onTimeout peerId requestId).sync.Attended
      unfold onTimeout
      split
      · next hdownloads =>
        exact (h.onBlockRequestTimeout hdownloads).of_eq rfl rfl
      · exact h.of_eq rfl rfl
  | response peerId response =>
      change (s.onResponse peerId response).sync.Attended
      unfold onResponse
      split
      · next hdownloads => exact h.onBlockResponse (hanswered hdownloads)
      · exact h
  | message =>
      change s.onMessage.sync.Attended
      unfold onMessage
      split
      · exact h
      · next number hash messages heq => exact (h.removePending number).of_eq rfl rfl
      · exact h
  | advance now => exact Attended.advance h now
  | commitBlock now params => simpa [System.next] using h
  | commitExecution now params => simpa [System.next] using h
  | reorder peers =>
      have hperm : peers.Perm s.sync.peers := henabled
      have hnodup : (peers.map Prod.fst).Nodup := (hperm.map Prod.fst).nodup_iff.2 h.nodup
      refine ⟨hnodup, fun number source requestId hmem => ?_⟩
      obtain ⟨info, hinfo, hserves⟩ := h.held number source requestId hmem
      refine ⟨info, ?_, hserves⟩
      rw [AssocMap.get?_eq_some_iff h.nodup] at hinfo
      exact (AssocMap.get?_eq_some_iff hnodup).2 (hperm.mem_iff.2 hinfo)

/-- In a run in which every request is answered in full, no block is ever
stranded. -/
theorem held_of_answered (hopened : s₀.Opened backend)
    (hrun : ReflTransGen (Step backend consensusVerifyProof Answered) s₀ s) : s.sync.Held := by
  have hattended : s.sync.Attended := by
    induction hrun with
    | refl =>
        obtain ⟨-, -, -, hsync⟩ := hopened
        rw [hsync]
        exact ⟨List.nodup_nil, nofun⟩
    | tail hrun hstep ih =>
        obtain ⟨event, henabled, hanswered, rfl⟩ := hstep
        exact Attended.next ih henabled hanswered
  exact hattended.held

end System

/-! A peer that has one block is asked for it, and answers with an empty list. -/

namespace Sample

open Chain.Sample

def proofs (_ : StateMap) (_ : Header) (_ : Proof) : Except Consensus.ErrorKind Unit := .ok ()

def peer : PeerId := [1]

def handshake (number : BlockNumber) : Handshake := ⟨⟨[]⟩, number, ⟨[]⟩, 0⟩

def start : System where
  db := genesis
  current := state
  messages := []
  sync := .new (state.confirmedNumber, state.confirmedBlockHash)
  control := .idle

theorem opened_start : start.Opened backend :=
  ⟨⟨0, Result.eq_ok_get _ _⟩, rfl, rfl, rfl⟩

/-- The peer opens, and is asked for its blocks. -/
def asked (number : BlockNumber) : List Event :=
  .open peer 0 (handshake number) :: List.replicate 4 (.advance 0)

/-- The peer answers with these blocks, and the handler takes some steps. -/
def answered (blocks : List BlockData) (steps : Nat) : List Event :=
  .response peer ⟨0, blocks⟩ :: List.replicate steps (.advance 0)

/-- A block of which nothing but the number is known. -/
def bare (number : BlockNumber) : BlockData := ⟨number, ⟨[]⟩, none, none, none⟩

end Sample

/-- After the empty response the peer is vacant again, and the block goes on
waiting for it. -/
theorem not_held_unanswered :
    ¬ ∀ (backend : Backend)
        (consensusVerifyProof : StateMap → Header → Proof → Except Consensus.ErrorKind Unit)
        (s₀ s : System), s₀.Opened backend →
      ReflTransGen (System.Step backend consensusVerifyProof fun _ _ => True) s₀ s →
        s.sync.Held := by
  intro h
  have hruns : System.Runs Chain.Sample.backend Sample.proofs (fun _ _ => True) Sample.start
      (Sample.asked 1 ++ Sample.answered [] 7) := by
    decide +kernel
  obtain ⟨info, hinfo, start, count, hdownloading, -⟩ :=
    h _ _ _ _ Sample.opened_start hruns.reach 1 Sample.peer 0 (by decide +kernel)
  have hvacant : ((AssocMap.get? (System.run Chain.Sample.backend Sample.proofs Sample.start
      (Sample.asked 1 ++ Sample.answered [] 7)).sync.peers Sample.peer).bind
        fun info => info.state.requestId?) = none := by
    decide +kernel
  rw [hinfo, Option.bind_some, hdownloading] at hvacant
  cases hvacant

/-- The same run with a response that has the block. -/
theorem held_answered :
    (System.run Chain.Sample.backend Sample.proofs Sample.start
      (Sample.asked 1 ++ Sample.answered [Sample.bare 1] 8)).sync.Held := by
  have hruns : System.Runs Chain.Sample.backend Sample.proofs System.Answered Sample.start
      (Sample.asked 1 ++ Sample.answered [Sample.bare 1] 8) := by
    decide +kernel
  exact System.held_of_answered Sample.opened_start hruns.reach

end Finastate.Sync
