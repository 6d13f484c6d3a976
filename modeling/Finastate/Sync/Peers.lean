import Finastate.Sync.Serve
import Finastate.Sync.Stranded

/-!
# Syncing from other nodes

A node and the nodes it is connected to. Each of these has a chain of its own,
which grows, and answers the requests that it gets. Requests and answers are
under way for any time, may get lost, and arrive in any order and more than
once. Two things are assumed of the peers: one that is connected does not open
again (`Net.Allowed`), and the confirmed number that one caches does not fall
back, since a node here reads its cache from its database in one step
(`Chain.Step.refresh`).

No block of the node is ever stranded then, and every block that it has
downloaded is the one that its peer has on its chain under this number.
-/

namespace Finastate.Sync

open Chain Executor Relation
open Coordinator (BlockData)

/-- The requests of `maintain_seen`. -/
def ask (requestId : RequestId) (number : BlockNumber) (count : Nat) : BlockRequest where
  requestId := requestId
  fields := fieldsHeader + fieldsBody + fieldsProof
  blockId := .number number
  count := count
  direction := .asc

/-- A request that has been sent. -/
def Out.request : Out → Option (PeerId × BlockRequest)
  | .blockRequest peerId request => some (peerId, request)
  | _ => none

namespace ChainSync

variable (sync : ChainSync)

def requests : List (PeerId × BlockRequest) := sync.out.filterMap Out.request

/-- The requests have numbers of their own, until these start again. -/
def Numbered : Prop :=
  sync.requests.length < 2 ^ 64 →
    (sync.requests.map fun r => r.2.requestId) = List.range sync.requests.length ∧
      sync.nextRequestId = sync.requests.length

/-- What a node knows of its peers is so: `confirmed` are the blocks that they have
confirmed, and `served` is what they have on their chains. -/
structure Sourced (confirmed : PeerId → BlockNumber)
    (served : PeerId → BlockNumber → BlockData → Prop) : Prop where
  announced : ∀ p ∈ sync.peers, p.2.confirmedNumber ≤ confirmed p.1
  asked : ∀ r ∈ sync.requests, ∃ requestId start count, r.2 = ask requestId start count ∧
    ∀ number, start ≤ number → number < start + count → number ≤ confirmed r.1
  opened : ∀ p ∈ sync.peers, ∀ requestId start count,
    p.2.state = .downloading requestId start count →
      (p.1, ask requestId start count) ∈ sync.requests
  downloaded : ∀ number source blockData,
    (number, .downloaded source blockData) ∈ sync.pendingBlocks → served source number blockData

variable {sync} {sync' : ChainSync} {confirmed confirmed' : PeerId → BlockNumber}
  {served served' : PeerId → BlockNumber → BlockData → Prop}

theorem Numbered.of_eq (h : sync.Numbered) (hrequests : sync'.requests = sync.requests)
    (hnext : sync'.nextRequestId = sync.nextRequestId) : sync'.Numbered := by
  unfold Numbered
  rwa [hrequests, hnext]

/-- Two requests with one number are the same. -/
theorem Numbered.eq_of_requestId (h : sync.Numbered) (hlength : sync.requests.length < 2 ^ 64)
    {r r' : PeerId × BlockRequest} (hr : r ∈ sync.requests) (hr' : r' ∈ sync.requests)
    (hid : r.2.requestId = r'.2.requestId) : r = r' := by
  have hnodup : (sync.requests.map fun r => r.2.requestId).Nodup :=
    (h hlength).1 ▸ List.nodup_range
  exact List.inj_on_of_nodup_map hnodup hr hr' hid

namespace Sourced

theorem mono (h : sync.Sourced confirmed served)
    (hconfirmed : ∀ peerId, confirmed peerId ≤ confirmed' peerId)
    (hserved : ∀ source number blockData, served source number blockData →
      served' source number blockData) : sync.Sourced confirmed' served' where
  announced p hp := (h.announced p hp).trans (hconfirmed p.1)
  asked r hr := by
    obtain ⟨requestId, start, count, heq, hcovered⟩ := h.asked r hr
    exact ⟨requestId, start, count, heq, fun number hle hlt =>
      (hcovered number hle hlt).trans (hconfirmed r.1)⟩
  opened := h.opened
  downloaded number source blockData hmem := hserved _ _ _ (h.downloaded _ _ _ hmem)

/-- Peers may change in other ways, or stop to download. -/
theorem of_peers (h : sync.Sourced confirmed served)
    (hpeers : ∀ p ∈ sync'.peers, ∃ info, (p.1, info) ∈ sync.peers ∧
      p.2.confirmedNumber = info.confirmedNumber ∧
      (p.2.state = .vacant ∨ p.2.state = info.state))
    (hrequests : sync'.requests = sync.requests)
    (hdownloaded : ∀ number source blockData,
      (number, .downloaded source blockData) ∈ sync'.pendingBlocks →
        served source number blockData) : sync'.Sourced confirmed served where
  announced p hp := by
    obtain ⟨info, hinfo, hnumber, -⟩ := hpeers p hp
    exact hnumber ▸ h.announced (p.1, info) hinfo
  asked := hrequests ▸ h.asked
  opened p hp requestId start count hstate := by
    obtain ⟨info, hinfo, -, hvacant | hsame⟩ := hpeers p hp
    · rw [hvacant] at hstate
      cases hstate
    · rw [hrequests]
      exact h.opened (p.1, info) hinfo _ _ _ (hsame ▸ hstate)
  downloaded := hdownloaded

/-- Only the pending blocks change. -/
theorem of_pending (h : sync.Sourced confirmed served) (hpeers : sync'.peers = sync.peers)
    (hrequests : sync'.requests = sync.requests)
    (hdownloaded : ∀ number source blockData,
      (number, .downloaded source blockData) ∈ sync'.pendingBlocks →
        (number, .downloaded source blockData) ∈ sync.pendingBlocks) :
    sync'.Sourced confirmed served :=
  h.of_peers (fun p hp => ⟨p.2, hpeers ▸ hp, rfl, .inr rfl⟩) hrequests
    fun _ _ _ hmem => h.downloaded _ _ _ (hdownloaded _ _ _ hmem)

theorem requests_send_of_none {message : Out} (hmessage : message.request = none) :
    (sync.send message).requests = sync.requests := by
  simp [requests, ChainSync.send, hmessage]

theorem requests_notifyLatency (oldLatency newLatency : BlockNumber) :
    (sync.notifyLatency oldLatency newLatency).requests = sync.requests := by
  unfold ChainSync.notifyLatency
  split_ifs
  · exact requests_send_of_none rfl
  · rfl

theorem requests_append (maxPendingNumber maxToAppend : BlockNumber) :
    (sync.append maxPendingNumber maxToAppend).requests = sync.requests := by
  unfold ChainSync.append
  split_ifs <;> rfl

theorem requests_announceBlock (blockHash : Hash) (header : Header) :
    (sync.announceBlock blockHash header).requests = sync.requests := by
  have hnone : (sync.announceBlock blockHash header).requests = sync.requests ++
      ((sync.peers.filter fun p => blockHash ∉ p.2.knownBlocks).map fun p =>
        Out.blockAnnounce p.1 ⟨blockHash, header⟩).filterMap Out.request :=
    List.filterMap_append
  rw [hnone, List.filterMap_eq_nil_iff.2, List.append_nil]
  intro message hmem
  obtain ⟨p, -, rfl⟩ := List.mem_map.1 hmem
  rfl

theorem requests_foldl_receive (peerId : PeerId) (blocks : List BlockData) (sync : ChainSync) :
    (blocks.foldl (fun sync blockData => sync.receive peerId blockData) sync).requests =
      sync.requests := by
  induction blocks generalizing sync with
  | nil => rfl
  | cons blockData blocks ih => exact ih _

/-- The entries of the peers after one has changed. -/
theorem mem_modifyPeer {peerId : PeerId} {f : PeerInfo → PeerInfo} {p : PeerId × PeerInfo} :
    p ∈ (sync.modifyPeer peerId f).peers ↔
      ∃ info, (p.1, info) ∈ sync.peers ∧ (if p.1 = peerId then f info else info) = p.2 := by
  obtain ⟨id, info⟩ := p
  exact AssocMap.mem_mapValues (f := fun id info => if id = peerId then f info else info)

theorem onProtocolOpen (h : sync.Sourced confirmed served) {peerId : PeerId}
    {handshake : Handshake} (hconfirmed : handshake.confirmedNumber ≤ confirmed peerId)
    (nonce : Nat) : (sync.onProtocolOpen peerId nonce handshake).Sourced confirmed served where
  announced p hp := by
    obtain rfl | ⟨hp, -⟩ := AssocMap.mem_insert_iff.1 hp
    · exact hconfirmed
    · exact h.announced p hp
  asked := h.asked
  opened p hp requestId start count hstate := by
    obtain rfl | ⟨hp, -⟩ := AssocMap.mem_insert_iff.1 hp
    · cases hstate
    · exact h.opened p hp _ _ _ hstate
  downloaded := h.downloaded

/-- To release blocks downloads none. -/
theorem mem_of_release {p : PeerId → RequestId → Bool} {number : BlockNumber} {source : PeerId}
    {blockData : BlockData}
    (hmem : (number, .downloaded source blockData) ∈
      (sync.mapPending fun _ state => state.release p).pendingBlocks) :
    (number, .downloaded source blockData) ∈ sync.pendingBlocks := by
  obtain ⟨state, hstate, heq⟩ := mem_mapPending.1 hmem
  cases state with
  | seen => cases heq
  | downloading source' requestId =>
      simp only [PendingBlockState.release] at heq
      split at heq <;> cases heq
  | downloaded source' blockData' => exact heq ▸ hstate

theorem onProtocolClose (h : sync.Sourced confirmed served) (peerId : PeerId) :
    (sync.onProtocolClose peerId).Sourced confirmed served := by
  refine h.of_peers (fun p hp => ⟨p.2, (List.mem_filter.1 hp).1, rfl, .inr rfl⟩) rfl ?_
  intro number source blockData hmem
  exact h.downloaded _ _ _ (mem_of_release hmem)

theorem onBlockAnnounce (h : sync.Sourced confirmed served) {peerId : PeerId}
    {announce : BlockAnnounce} (hconfirmed : announce.header.number ≤ confirmed peerId) :
    (sync.onBlockAnnounce peerId announce).Sourced confirmed served where
  announced p hp := by
    obtain ⟨info, hinfo, heq⟩ := mem_modifyPeer.1 hp
    split_ifs at heq with hpeer
    · rw [← heq, hpeer]
      exact hconfirmed
    · exact heq ▸ h.announced _ hinfo
  asked := h.asked
  opened p hp requestId start count hstate := by
    obtain ⟨info, hinfo, heq⟩ := mem_modifyPeer.1 hp
    refine h.opened (p.1, info) hinfo requestId start count ?_
    split_ifs at heq with hpeer
    · rw [← heq] at hstate
      exact hstate
    · rwa [heq]
  downloaded := h.downloaded

/-- A peer that stops to download. -/
theorem mem_vacant {peerId : PeerId} {p : PeerId × PeerInfo}
    (hp : p ∈ (sync.modifyPeer peerId fun info => { info with state := .vacant }).peers) :
    ∃ info, (p.1, info) ∈ sync.peers ∧ p.2.confirmedNumber = info.confirmedNumber ∧
      (p.2.state = .vacant ∨ p.2.state = info.state) := by
  obtain ⟨info, hinfo, heq⟩ := mem_modifyPeer.1 hp
  refine ⟨info, hinfo, ?_⟩
  split_ifs at heq with hpeer
  · rw [← heq]
    exact ⟨rfl, .inl rfl⟩
  · rw [heq]
    exact ⟨rfl, .inr rfl⟩

theorem onBlockRequestTimeout (h : sync.Sourced confirmed served) (peerId : PeerId)
    (requestId : RequestId) :
    (sync.onBlockRequestTimeout peerId requestId).Sourced confirmed served := by
  refine h.of_peers (fun p hp => mem_vacant hp) (requests_send_of_none rfl) ?_
  intro number source blockData hmem
  rw [ChainSync.onBlockRequestTimeout, pendingBlocks_send] at hmem
  exact h.downloaded _ _ _ (mem_of_release hmem)

/-- What is downloaded after a response was before, or is in it. -/
theorem mem_downloaded_foldl_receive {peerId source : PeerId} {blocks : List BlockData}
    {number : BlockNumber} {blockData : BlockData}
    (hmem : (number, .downloaded source blockData) ∈
      (blocks.foldl (fun sync blockData => sync.receive peerId blockData) sync).pendingBlocks) :
    (number, .downloaded source blockData) ∈ sync.pendingBlocks ∨
      source = peerId ∧ blockData ∈ blocks ∧ blockData.number = number := by
  induction blocks generalizing sync with
  | nil => exact .inl hmem
  | cons received blocks ih =>
      obtain hmem | ⟨hsource, hblock, hnumber⟩ := ih hmem
      · obtain ⟨state, hstate, heq⟩ := mem_mapPending.1 hmem
        split at heq
        · next hnumber =>
          cases state with
          | seen => cases heq
          | downloading source' requestId =>
              cases heq
              exact .inr ⟨rfl, List.mem_cons_self, hnumber.symm⟩
          | downloaded source' blockData' =>
              cases heq
              exact .inl hstate
        · exact .inl (heq ▸ hstate)
      · exact .inr ⟨hsource, List.mem_cons_of_mem _ hblock, hnumber⟩

theorem onBlockResponse (h : sync.Sourced confirmed served) {peerId : PeerId}
    {blocks : List BlockData} (hserved : ∀ block ∈ blocks, served peerId block.number block) :
    (sync.onBlockResponse peerId blocks).Sourced confirmed served := by
  refine h.of_peers (fun p hp => ?_) (requests_foldl_receive _ _ _) ?_
  · obtain ⟨info, hinfo, hsame⟩ := mem_vacant hp
    rw [Attended.peers_foldl_receive] at hinfo
    exact ⟨info, hinfo, hsame⟩
  · intro number source blockData hmem
    obtain hmem | ⟨rfl, hblock, rfl⟩ := mem_downloaded_foldl_receive hmem
    · exact h.downloaded _ _ _ hmem
    · exact hserved _ hblock

theorem removePending (h : sync.Sourced confirmed served) (number : BlockNumber) :
    (sync.removePending number).Sourced confirmed served :=
  h.of_pending rfl rfl fun _ _ _ hmem => (List.mem_filter.1 hmem).1

theorem insertPending (h : sync.Sourced confirmed served) {number : BlockNumber}
    {source : PeerId} {blockData : BlockData} (hserved : served source number blockData) :
    (sync.insertPending number (.downloaded source blockData)).Sourced confirmed served := by
  refine h.of_peers (fun p hp => ⟨p.2, hp, rfl, .inr rfl⟩) rfl ?_
  intro number' source' blockData' hmem
  rcases SortedMap.mem_insert hmem with heq | hmem
  · cases heq
    exact hserved
  · exact h.downloaded _ _ _ hmem

theorem resetSource (h : sync.Sourced confirmed served) (peerId : PeerId) :
    (sync.resetSource peerId).Sourced confirmed served := by
  refine h.of_pending rfl (requests_send_of_none rfl) fun number source blockData hmem => ?_
  rw [ChainSync.resetSource, pendingBlocks_send] at hmem
  obtain ⟨state, hstate, heq⟩ := mem_mapPending.1 hmem
  cases state with
  | seen => cases heq
  | downloading source' requestId => cases heq
  | downloaded source' blockData' =>
      simp only [PendingBlockState.reset] at heq
      split at heq
      · cases heq
      · exact heq ▸ hstate

theorem append (h : sync.Sourced confirmed served) (maxPendingNumber maxToAppend : BlockNumber) :
    (sync.append maxPendingNumber maxToAppend).Sourced confirmed served := by
  refine h.of_pending (peers_append _ _) (requests_append _ _) fun number source blockData hmem => ?_
  unfold ChainSync.append at hmem
  split at hmem
  · rcases SortedMap.mem_extend hmem with hmem | hmem
    · exact hmem
    · simp at hmem
  · exact (List.mem_filter.1 hmem).1

theorem notifyLatency (h : sync.Sourced confirmed served) (oldLatency newLatency : BlockNumber) :
    (sync.notifyLatency oldLatency newLatency).Sourced confirmed served :=
  h.of_pending (peers_notifyLatency _ _) (requests_notifyLatency _ _) fun _ _ _ hmem => by
    rwa [pendingBlocks_notifyLatency] at hmem

theorem announceBlock (h : sync.Sourced confirmed served) (blockHash : Hash) (header : Header) :
    (sync.announceBlock blockHash header).Sourced confirmed served := by
  refine h.of_peers (fun p hp => ?_) (requests_announceBlock _ _) h.downloaded
  obtain ⟨id, announced⟩ := p
  obtain ⟨info, hinfo, heq⟩ :=
    (AssocMap.mem_mapValues (f := fun _ info => PeerInfo.putKnown info blockHash)).1 hp
  exact ⟨info, hinfo, heq ▸ rfl, .inr (heq ▸ rfl)⟩

/-- The peer that is chosen has all the blocks. -/
theorem covers_of_choosePeer (h : sync.Sourced confirmed served) {number : BlockNumber}
    {size : Nat} {peerId : PeerId} (hpeer : sync.choosePeer number size = some peerId) :
    ∀ n, number ≤ n → n < number + size → n ≤ confirmed peerId := by
  obtain ⟨p, hp, rfl⟩ := Option.map_eq_some_iff.1 hpeer
  obtain ⟨hmem, hchosen⟩ := List.mem_filter.1 (List.argmin_mem hp)
  simp only [decide_eq_true_eq] at hchosen
  intro n _ hlt
  exact ((Nat.le_sub_one_of_lt hlt).trans hchosen.2).trans (h.announced p hmem)

/-- What `maintain_seen` does for a group that a peer has. -/
theorem request_of_choosePeer {group : BlockNumber × Nat} {peerId : PeerId}
    (hpeer : sync.choosePeer group.1 group.2 = some peerId) :
    (sync.request group).requests =
        sync.requests ++ [(peerId, ask sync.nextRequestId group.1 group.2)] ∧
      (sync.request group).nextRequestId = RequestId.next sync.nextRequestId ∧
      (sync.request group).peers = (sync.modifyPeer peerId fun info =>
        { info with state := .downloading sync.nextRequestId group.1 group.2 }).peers ∧
      (sync.request group).pendingBlocks = (sync.mapPending fun number state =>
        if group.1 ≤ number ∧ number < group.1 + group.2 then
          .downloading peerId sync.nextRequestId
        else state).pendingBlocks := by
  unfold ChainSync.request
  rw [hpeer]
  exact ⟨List.filterMap_append, rfl, rfl, rfl⟩

theorem request (h : sync.Sourced confirmed served) (group : BlockNumber × Nat) :
    (sync.request group).Sourced confirmed served := by
  cases hpeer : sync.choosePeer group.1 group.2 with
  | none =>
      unfold ChainSync.request
      rwa [hpeer]
  | some peerId =>
      obtain ⟨hrequests, -, hpeers, hpending⟩ := request_of_choosePeer hpeer
      constructor
      case announced =>
        intro p hp
        obtain ⟨info, hinfo, heq⟩ := mem_modifyPeer.1 (hpeers ▸ hp)
        split_ifs at heq
        · rw [← heq]
          exact h.announced (p.1, info) hinfo
        · exact heq ▸ h.announced _ hinfo
      case asked =>
        intro r hr
        rcases List.mem_append.1 (hrequests ▸ hr) with hr | hr
        · exact h.asked r hr
        · obtain rfl := List.mem_singleton.1 hr
          exact ⟨_, _, _, rfl, h.covers_of_choosePeer hpeer⟩
      case opened =>
        intro p hp requestId start count hstate
        obtain ⟨info, hinfo, heq⟩ := mem_modifyPeer.1 (hpeers ▸ hp)
        rw [hrequests]
        split_ifs at heq with hid
        · rw [← heq] at hstate
          cases hstate
          exact List.mem_append_right _ (hid ▸ List.mem_singleton_self _)
        · exact List.mem_append_left _ (h.opened (p.1, info) hinfo _ _ _ (heq ▸ hstate))
      case downloaded =>
        intro number source blockData hmem
        obtain ⟨state, hstate, heq⟩ := mem_mapPending.1 (hpending ▸ hmem)
        split_ifs at heq
        exact h.downloaded _ _ _ (heq ▸ hstate)

theorem maintainSeen (h : sync.Sourced confirmed served) :
    sync.maintainSeen.Sourced confirmed served := by
  have hfold : ∀ (groups : List (BlockNumber × Nat)) (sync : ChainSync),
      sync.Sourced confirmed served →
        (groups.foldl ChainSync.request sync).Sourced confirmed served := by
    intro groups
    induction groups with
    | nil => exact fun sync h => h
    | cons group groups ih => exact fun sync h => ih _ (h.request group)
  exact hfold _ _ h

end Sourced

namespace Numbered

theorem request (h : sync.Numbered) (group : BlockNumber × Nat) : (sync.request group).Numbered := by
  cases hpeer : sync.choosePeer group.1 group.2 with
  | none =>
      unfold ChainSync.request
      rwa [hpeer]
  | some peerId =>
      obtain ⟨hrequests, hnext, -, -⟩ := Sourced.request_of_choosePeer hpeer
      intro hlength
      rw [hrequests, List.length_append, List.length_singleton] at hlength
      obtain ⟨hids, hid⟩ := h (Nat.lt_of_succ_lt hlength)
      rw [hrequests, hnext, hid, List.map_append, hids, List.length_append, List.length_singleton,
        List.range_succ]
      exact ⟨rfl, if_pos hlength⟩

theorem maintainSeen (h : sync.Numbered) : sync.maintainSeen.Numbered := by
  have hfold : ∀ (groups : List (BlockNumber × Nat)) (sync : ChainSync), sync.Numbered →
      (groups.foldl ChainSync.request sync).Numbered := by
    intro groups
    induction groups with
    | nil => exact fun sync h => h
    | cons group groups ih => exact fun sync h => ih _ (h.request group)
  exact hfold _ _ h

end Numbered

/-- Requests are only added. -/
theorem requests_prefix_maintainSeen (sync : ChainSync) :
    sync.requests <+: sync.maintainSeen.requests := by
  have hfold : ∀ (groups : List (BlockNumber × Nat)) (sync : ChainSync),
      sync.requests <+: (groups.foldl ChainSync.request sync).requests := by
    intro groups
    induction groups with
    | nil => exact fun sync => List.prefix_rfl
    | cons group groups ih =>
        intro sync
        refine List.IsPrefix.trans ?_ (ih (sync.request group))
        cases hpeer : sync.choosePeer group.1 group.2 with
        | none =>
            unfold ChainSync.request
            rw [hpeer]
        | some peerId =>
            rw [(Sourced.request_of_choosePeer hpeer).1]
            exact List.prefix_append ..
  exact hfold _ _

/-- No request is made. -/
structure Silent (sync' sync : ChainSync) : Prop where
  requests : sync'.requests = sync.requests
  nextRequestId : sync'.nextRequestId = sync.nextRequestId

namespace Silent

theorem refl (sync : ChainSync) : Silent sync sync := ⟨rfl, rfl⟩

theorem notifyLatency (oldLatency newLatency : BlockNumber) :
    Silent (sync.notifyLatency oldLatency newLatency) sync where
  requests := Sourced.requests_notifyLatency _ _
  nextRequestId := by
    unfold ChainSync.notifyLatency
    split_ifs <;> rfl

theorem append (maxPendingNumber maxToAppend : BlockNumber) :
    Silent (sync.append maxPendingNumber maxToAppend) sync where
  requests := Sourced.requests_append _ _
  nextRequestId := by
    unfold ChainSync.append
    split_ifs <;> rfl

theorem onBlockResponse (peerId : PeerId) (blocks : List BlockData) :
    Silent (sync.onBlockResponse peerId blocks) sync where
  requests := Sourced.requests_foldl_receive _ _ _
  nextRequestId := by
    change (blocks.foldl (fun sync blockData => sync.receive peerId blockData) sync).nextRequestId
      = _
    induction blocks generalizing sync with
    | nil => rfl
    | cons blockData blocks ih => exact ih

theorem numbered (h : Silent sync' sync) (hnumbered : sync.Numbered) : sync'.Numbered :=
  hnumbered.of_eq h.requests h.nextRequestId

end Silent

end ChainSync

namespace System

variable {backend : Backend}
  {consensusVerifyProof : StateMap → Header → Proof → Except Consensus.ErrorKind Unit}
  {s : System}

open ChainSync (Silent)

/-- The first pending block is one of them. -/
theorem mem_of_firstDownloaded {sync : ChainSync} {number : BlockNumber} {source : PeerId}
    {blockData : BlockData} (h : sync.firstDownloaded = some (number, source, blockData)) :
    (number, .downloaded source blockData) ∈ sync.pendingBlocks := by
  unfold ChainSync.firstDownloaded at h
  split at h
  · next heq =>
    cases h
    exact heq ▸ List.mem_cons_self
  · cases h

theorem silent_act (oldLatency number : BlockNumber) (source : PeerId) (blockData : BlockData)
    (action : VerifyAction) :
    Silent (s.act oldLatency number source blockData action).sync s.sync := by
  cases action with
  | ok => exact ⟨rfl, rfl⟩
  | wait => exact ⟨rfl, rfl⟩
  | discard => exact ⟨rfl, rfl⟩
  | reset => exact ⟨ChainSync.Sourced.requests_send_of_none rfl, rfl⟩

/-- Only `maintain_seen` makes requests. -/
theorem silent_advance (now : Nat) :
    Silent (s.advance backend consensusVerifyProof now).sync s.sync ∨
      (s.advance backend consensusVerifyProof now).sync = s.sync.maintainSeen := by
  unfold System.advance
  split
  case h_1 => exact .inl ⟨rfl, rfl⟩
  case h_2 number blockHash oldLatency heq =>
    have hnotified := @Silent.notifyLatency s.sync oldLatency s.latency
    refine .inl ?_
    split
    · exact hnotified
    · next header hheader =>
      refine ⟨?_, hnotified.nextRequestId⟩
      exact (ChainSync.Sourced.requests_send_of_none rfl).trans
        ((ChainSync.Sourced.requests_announceBlock _ _).trans hnotified.requests)
  case h_3 => exact .inl ⟨rfl, rfl⟩
  case h_4 =>
    split
    · exact .inl ⟨rfl, rfl⟩
    · exact .inl ⟨rfl, rfl⟩
  case h_5 =>
    split
    · exact .inl ⟨rfl, rfl⟩
    · exact .inl (silent_act _ _ _ _ _)
    · exact .inl ⟨rfl, rfl⟩
  case h_6 params heq =>
    have hsame : (s.commitBlock backend now params).sync = s.sync := sync_commitBlock _ _
    split
    · exact .inl (hsame ▸ silent_act _ _ _ _ _)
    · exact .inl (hsame ▸ .refl s.sync)
  case h_7 => exact .inl (.notifyLatency _ _)
  case h_8 => split <;> exact .inl ⟨rfl, rfl⟩
  case h_9 => exact .inl (.append _ _)
  case h_10 => exact .inl (.notifyLatency _ _)
  case h_11 => exact .inr rfl

theorem silent_next (event : Event) :
    Silent (s.next backend consensusVerifyProof event).sync s.sync ∨
      (s.next backend consensusVerifyProof event).sync = s.sync.maintainSeen := by
  cases event with
  | «open» peerId nonce handshake => exact .inl ⟨rfl, rfl⟩
  | close peerId => exact .inl ⟨rfl, rfl⟩
  | announce peerId announce => exact .inl ⟨rfl, rfl⟩
  | timeout peerId requestId =>
      refine .inl ?_
      change Silent (s.onTimeout peerId requestId).sync s.sync
      unfold onTimeout
      split
      · exact ⟨ChainSync.Sourced.requests_send_of_none rfl, rfl⟩
      · exact ⟨rfl, rfl⟩
  | response peerId response =>
      refine .inl ?_
      change Silent (s.onResponse peerId response).sync s.sync
      unfold onResponse
      split
      · exact .onBlockResponse _ _
      · exact ⟨rfl, rfl⟩
  | message =>
      refine .inl ?_
      change Silent s.onMessage.sync s.sync
      unfold onMessage
      split
      · exact ⟨rfl, rfl⟩
      · exact ⟨rfl, rfl⟩
      · exact ⟨rfl, rfl⟩
  | advance now => exact silent_advance now
  | commitBlock now params =>
      have hsame : (s.commitBlock backend now params).sync = s.sync := sync_commitBlock _ _
      exact .inl (hsame ▸ .refl s.sync)
  | commitExecution now params =>
      have hsame : (s.commitExecution backend now params).sync = s.sync :=
        sync_commitExecution _ _
      exact .inl (hsame ▸ .refl s.sync)
  | reorder peers => exact .inl ⟨rfl, rfl⟩

theorem requests_prefix_next (event : Event) :
    s.sync.requests <+: (s.next backend consensusVerifyProof event).sync.requests := by
  obtain hsilent | hseen := @silent_next backend consensusVerifyProof s event
  · rw [hsilent.requests]
  · rw [hseen]
    exact ChainSync.requests_prefix_maintainSeen _

theorem numbered_next (h : s.sync.Numbered) (event : Event) :
    (s.next backend consensusVerifyProof event).sync.Numbered := by
  obtain hsilent | hseen := @silent_next backend consensusVerifyProof s event
  · exact hsilent.numbered h
  · rw [hseen]
    exact h.maintainSeen

/-- The same of the block that a handler has in its hands. -/
structure Sourced (s : System) (confirmed : PeerId → BlockNumber)
    (served : PeerId → BlockNumber → BlockData → Prop) : Prop where
  sync : s.sync.Sourced confirmed served
  inHand : ∀ number source blockData,
    (number, .downloaded source blockData) ∈ s.control.inHand → served source number blockData

/-- What a peer says in an event is so. -/
def Honest (s : System) (confirmed : PeerId → BlockNumber)
    (served : PeerId → BlockNumber → BlockData → Prop) : Event → Prop
  | .open peerId _ handshake => handshake.confirmedNumber ≤ confirmed peerId
  | .announce peerId announce => announce.header.number ≤ confirmed peerId
  | .response peerId response =>
      s.sync.Downloads peerId response.requestId →
        ∀ block ∈ response.blocks, served peerId block.number block
  | _ => True

namespace Sourced

variable {s' : System} {confirmed : PeerId → BlockNumber}
  {served : PeerId → BlockNumber → BlockData → Prop}

/-- A handler with nothing in its hands. -/
theorem of_sync (h : s'.sync.Sourced confirmed served) (hcontrol : s'.control.inHand = []) :
    s'.Sourced confirmed served where
  sync := h
  inHand _ _ _ hmem := absurd (hcontrol ▸ hmem) List.not_mem_nil

theorem act (h : s.sync.Sourced confirmed served) (oldLatency : BlockNumber)
    {number : BlockNumber} {source : PeerId} {blockData : BlockData}
    (hserved : served source number blockData) (action : VerifyAction) :
    (s.act oldLatency number source blockData action).Sourced confirmed served := by
  cases action with
  | ok => exact of_sync h rfl
  | wait => exact of_sync (h.insertPending hserved) rfl
  | discard => exact of_sync h rfl
  | reset => exact of_sync (h.resetSource source) rfl

theorem advance (h : s.Sourced confirmed served) (now : Nat) :
    (s.advance backend consensusVerifyProof now).Sourced confirmed served := by
  have hhand := h.inHand
  have hsync := h.sync
  unfold System.advance
  split
  case h_1 => exact h
  case h_2 number blockHash oldLatency heq =>
    have hnotified := hsync.notifyLatency oldLatency s.latency
    split
    · exact of_sync hnotified rfl
    · next header hheader =>
      exact of_sync ((hnotified.announceBlock blockHash header).of_pending rfl
        (ChainSync.Sourced.requests_send_of_none rfl) fun _ _ _ hmem => hmem) rfl
  case h_3 => exact of_sync hsync rfl
  case h_4 oldLatency heq =>
    split
    · exact of_sync hsync rfl
    · next number source blockData hfirst =>
      refine ⟨hsync.removePending number, fun number' source' blockData' hmem => ?_⟩
      obtain ⟨rfl, rfl, rfl⟩ : number' = number ∧ source' = source ∧ blockData' = blockData := by
        simpa [Control.inHand] using hmem
      exact hsync.downloaded _ _ _ (mem_of_firstDownloaded hfirst)
  case h_5 oldLatency number source blockData heq =>
    rw [heq] at hhand
    have hserved := hhand number source blockData (List.mem_singleton_self _)
    split
    · refine ⟨hsync, fun number' source' blockData' hmem => hhand _ _ _ hmem⟩
    · exact act hsync oldLatency hserved _
    · exact of_sync hsync rfl
  case h_6 oldLatency number source blockData params heq =>
    rw [heq] at hhand
    have hserved := hhand number source blockData (List.mem_singleton_self _)
    have hsame : (s.commitBlock backend now params).sync = s.sync := sync_commitBlock _ _
    split
    · exact act (hsame ▸ hsync) oldLatency hserved _
    · exact of_sync (hsame ▸ hsync) rfl
  case h_7 => exact of_sync (hsync.notifyLatency _ _) rfl
  case h_8 => split <;> exact of_sync hsync rfl
  case h_9 => exact of_sync (hsync.append _ _) rfl
  case h_10 => exact of_sync (hsync.notifyLatency _ _) rfl
  case h_11 => exact of_sync hsync.maintainSeen rfl

theorem next (h : s.Sourced confirmed served) {event : Event} (henabled : s.Enabled event)
    (hhonest : s.Honest confirmed served event) :
    (s.next backend consensusVerifyProof event).Sourced confirmed served := by
  have hsync := h.sync
  cases event with
  | «open» peerId nonce handshake => exact of_sync (hsync.onProtocolOpen hhonest nonce) rfl
  | close peerId => exact of_sync (hsync.onProtocolClose peerId) rfl
  | announce peerId announce => exact of_sync (hsync.onBlockAnnounce hhonest) rfl
  | timeout peerId requestId =>
      change (s.onTimeout peerId requestId).Sourced confirmed served
      unfold onTimeout
      have htimer : ({ s.sync with
          blockRequestTimer := s.sync.blockRequestTimer.erase (peerId, requestId)
          } : ChainSync).Sourced confirmed served :=
        hsync.of_pending rfl rfl fun _ _ _ hmem => hmem
      split
      · exact of_sync (htimer.onBlockRequestTimeout _ _) rfl
      · exact ⟨htimer, h.inHand⟩
  | response peerId response =>
      change (s.onResponse peerId response).Sourced confirmed served
      unfold onResponse
      split
      · next hdownloads => exact of_sync (hsync.onBlockResponse (hhonest hdownloads)) rfl
      · exact of_sync hsync rfl
  | message =>
      change s.onMessage.Sourced confirmed served
      unfold onMessage
      split
      · exact h
      · exact of_sync ((hsync.removePending _).of_pending rfl rfl fun _ _ _ hmem => hmem) rfl
      · exact of_sync hsync rfl
  | advance now => exact h.advance now
  | commitBlock now params =>
      refine ⟨?_, ?_⟩
      · have hsame : (s.commitBlock backend now params).sync = s.sync := sync_commitBlock _ _
        exact hsame ▸ hsync
      · have hsame : (s.commitBlock backend now params).control = s.control :=
          control_commitBlock _ _
        exact hsame ▸ h.inHand
  | commitExecution now params =>
      refine ⟨?_, ?_⟩
      · have hsame : (s.commitExecution backend now params).sync = s.sync :=
          sync_commitExecution _ _
        exact hsame ▸ hsync
      · have hsame : (s.commitExecution backend now params).control = s.control :=
          control_commitExecution _ _
        exact hsame ▸ h.inHand
  | reorder peers =>
      have hperm : peers.Perm s.sync.peers := henabled
      refine ⟨hsync.of_peers (fun p hp => ?_) rfl hsync.downloaded, h.inHand⟩
      exact ⟨p.2, hperm.mem_iff.1 hp, rfl, .inr rfl⟩

end Sourced

end System

/-- A node that syncs, the nodes behind its peers, and the answers under way. A request
that has been sent may be answered at any time, and any number of times. -/
structure Net where
  client : System
  server : PeerId → Node
  answers : List (PeerId × BlockResponse)

namespace Net

section Step

variable (net : Net) (backend : Backend)
  (consensusVerifyProof : StateMap → Header → Proof → Except Consensus.ErrorKind Unit)

/-- The block that a peer has confirmed. -/
def confirmed (peerId : PeerId) : BlockNumber := (net.server peerId).current.confirmedNumber

/-- The peer has the block on its chain, and this is its data. -/
def OnChain (source : PeerId) (number : BlockNumber) (block : BlockData) : Prop :=
  ∃ p, (net.server source).chain[number]? = some p ∧
    Shown backend (fieldsHeader + fieldsBody + fieldsProof) p block

/-- What can come from a peer. A peer that is connected does not open again. -/
def Allowed : Event → Prop
  | .open peerId _ handshake =>
      AssocMap.get? net.client.sync.peers peerId = none ∧
        handshake.confirmedNumber ≤ net.confirmed peerId
  | .announce peerId announce => announce.header.number ≤ net.confirmed peerId
  | .response peerId response => (peerId, response) ∈ net.answers
  | _ => True

instance (event : Event) : Decidable (net.Allowed event) :=
  match event with
  | .open .. => inferInstanceAs (Decidable (_ ∧ _))
  | .announce .. => inferInstanceAs (Decidable (_ ≤ _))
  | .response .. => inferInstanceAs (Decidable (_ ∈ net.answers))
  | .close _ | .timeout .. | .message | .advance _ | .commitBlock .. | .commitExecution ..
  | .reorder _ => isTrue trivial

inductive Step : Net → Net → Prop
  | client {net : Net} {event : Event} (henabled : net.client.Enabled event)
      (hallowed : net.Allowed event) :
      Step net { net with client := net.client.next backend consensusVerifyProof event }
  | server {net : Net} {peerId : PeerId} {node : Node}
      (h : Chain.Step backend backend.Builds (net.server peerId) node) :
      Step net { net with server := Function.update net.server peerId node }
  | serve {net : Net} {peerId : PeerId} {request : BlockRequest} {response : BlockResponse}
      (hrequest : (peerId, request) ∈ net.client.sync.requests)
      (h : onBlockRequest (net.server peerId).db (net.confirmed peerId) request = .ok response) :
      Step net { net with answers := (peerId, response) :: net.answers }

/-- A node that has been opened, between nodes that come from a genesis. -/
structure Opened (txs : List Transaction) (timestamp : Nat) : Prop where
  client : net.client.Opened backend
  servers : ∀ peerId, Reach backend backend.Builds txs timestamp (net.server peerId)
  answers : net.answers = []

/-- An answer has blocks that the peer has, and all that were asked for. -/
def Answer (answer : PeerId × BlockResponse) : Prop :=
  ∃ requestId start count, (answer.1, ask requestId start count) ∈ net.client.sync.requests ∧
    answer.2.requestId = requestId ∧
    (∀ block ∈ answer.2.blocks, net.OnChain backend answer.1 block.number block) ∧
    ∀ number, start ≤ number → number < start + count →
      ∃ block ∈ answer.2.blocks, block.number = number

/-- What holds in every run. -/
structure Faithful (txs : List Transaction) (timestamp : Nat) : Prop where
  servers : ∀ peerId, Reach backend backend.Builds txs timestamp (net.server peerId)
  numbered : net.client.sync.Numbered
  attended : net.client.sync.Attended
  sourced : net.client.Sourced net.confirmed (net.OnChain backend)
  answers : ∀ answer ∈ net.answers, net.Answer backend answer

end Step

variable {net net' : Net} {backend : Backend}
  {consensusVerifyProof : StateMap → Header → Proof → Except Consensus.ErrorKind Unit}
  {txs : List Transaction} {timestamp : Nat}

theorem Opened.faithful (h : net.Opened backend txs timestamp) :
    net.Faithful backend txs timestamp where
  servers := h.servers
  numbered := by
    obtain ⟨-, -, -, hsync⟩ := h.client
    rw [hsync]
    exact fun _ => ⟨rfl, rfl⟩
  attended := by
    obtain ⟨-, -, -, hsync⟩ := h.client
    rw [hsync]
    exact ⟨List.nodup_nil, nofun⟩
  sourced := by
    obtain ⟨-, -, hcontrol, hsync⟩ := h.client
    refine .of_sync ?_ (by rw [hcontrol]; rfl)
    rw [hsync]
    exact ⟨nofun, nofun, nofun, nofun⟩
  answers := by
    rw [h.answers]
    exact nofun

/-- An answer to an open request is the answer to this request. -/
theorem Faithful.answer_of_downloads (h : net.Faithful backend txs timestamp)
    (hlength : net.client.sync.requests.length < 2 ^ 64) {peerId : PeerId}
    {response : BlockResponse} (hmem : (peerId, response) ∈ net.answers)
    (hdownloads : net.client.sync.Downloads peerId response.requestId) :
    ∃ info start count, AssocMap.get? net.client.sync.peers peerId = some info ∧
      info.state = .downloading response.requestId start count ∧
      (∀ block ∈ response.blocks, net.OnChain backend peerId block.number block) ∧
      ∀ number, start ≤ number → number < start + count →
        ∃ block ∈ response.blocks, block.number = number := by
  obtain ⟨requestId, start, count, hrequest, rfl, hblocks, hcovers⟩ := h.answers _ hmem
  obtain ⟨info, hinfo, hid⟩ := Option.bind_eq_some_iff.1 hdownloads
  cases hstate : info.state with
  | vacant =>
      rw [hstate] at hid
      cases hid
  | downloading requestId' start' count' =>
      rw [hstate] at hid
      obtain rfl := Option.some.inj hid
      have hopened := h.sourced.sync.opened (peerId, info) (AssocMap.mem_of_get?_eq_some hinfo)
        _ _ _ hstate
      have hsame := h.numbered.eq_of_requestId hlength hopened hrequest rfl
      injection hsame with _ hsame
      injection hsame with _ _ hstart hcount
      injection hstart with hstart
      exact ⟨info, start', count', hinfo, hstate, hblocks, hstart ▸ hcount ▸ hcovers⟩

/-- The blocks that wait for a peer are in its answer. -/
theorem Faithful.answered (h : net.Faithful backend txs timestamp)
    (hlength : net.client.sync.requests.length < 2 ^ 64) {event : Event}
    (hallowed : net.Allowed event) : net.client.Answered event := by
  cases event with
  | «open» peerId nonce handshake =>
      intro p hp hawaited
      obtain ⟨number, state⟩ := p
      cases state with
      | seen => cases hawaited
      | downloaded source blockData => cases hawaited
      | downloading source requestId =>
          obtain rfl := Option.some.inj hawaited
          obtain ⟨info, hinfo, -⟩ := h.attended.held number source requestId hp
          rw [hallowed.1] at hinfo
          cases hinfo
  | response peerId response =>
      intro hdownloads p hp hawaited
      obtain ⟨info, start, count, hinfo, hstate, -, hcovers⟩ :=
        h.answer_of_downloads hlength hallowed hdownloads
      obtain ⟨number, state⟩ := p
      cases state with
      | seen => cases hawaited
      | downloaded source blockData => cases hawaited
      | downloading source requestId =>
          obtain rfl := Option.some.inj hawaited
          obtain ⟨info', hinfo', start', count', hstate', hle, hlt⟩ :=
            h.attended.held number source requestId hp
          obtain rfl := Option.some.inj (hinfo'.symm.trans hinfo)
          rw [hstate] at hstate'
          cases hstate'
          exact hcovers number hle hlt
  | close peerId => exact trivial
  | announce peerId announce => exact trivial
  | timeout peerId requestId => exact trivial
  | message => exact trivial
  | advance now => exact trivial
  | commitBlock now params => exact trivial
  | commitExecution now params => exact trivial
  | reorder peers => exact trivial

/-- What comes from a peer is so. -/
theorem Faithful.honest (h : net.Faithful backend txs timestamp)
    (hlength : net.client.sync.requests.length < 2 ^ 64) {event : Event}
    (hallowed : net.Allowed event) :
    net.client.Honest net.confirmed (net.OnChain backend) event := by
  cases event with
  | «open» peerId nonce handshake => exact hallowed.2
  | announce peerId announce => exact hallowed
  | response peerId response =>
      intro hdownloads
      obtain ⟨-, -, -, -, -, hblocks, -⟩ := h.answer_of_downloads hlength hallowed hdownloads
      exact hblocks
  | close peerId => exact trivial
  | timeout peerId requestId => exact trivial
  | message => exact trivial
  | advance now => exact trivial
  | commitBlock now params => exact trivial
  | commitExecution now params => exact trivial
  | reorder peers => exact trivial

/-- Answers stay true when there are more requests and longer chains. -/
theorem Answer.mono {answer : PeerId × BlockResponse} (h : net.Answer backend answer)
    (hrequests : net.client.sync.requests <+: net'.client.sync.requests)
    (hserved : ∀ number block, net.OnChain backend answer.1 number block →
      net'.OnChain backend answer.1 number block) : net'.Answer backend answer := by
  obtain ⟨requestId, start, count, hrequest, hid, hblocks, hcovers⟩ := h
  exact ⟨requestId, start, count, hrequests.subset hrequest, hid,
    fun block hmem => hserved _ _ (hblocks block hmem), hcovers⟩

theorem Faithful.client (h : net.Faithful backend txs timestamp)
    (hlength : net.client.sync.requests.length < 2 ^ 64) {event : Event}
    (henabled : net.client.Enabled event) (hallowed : net.Allowed event) :
    Faithful { net with client := net.client.next backend consensusVerifyProof event } backend txs
      timestamp where
  servers := h.servers
  numbered := System.numbered_next h.numbered event
  attended := System.Attended.next h.attended henabled (h.answered hlength hallowed)
  sourced := h.sourced.next henabled (h.honest hlength hallowed)
  answers answer hmem :=
    (h.answers answer hmem).mono (System.requests_prefix_next event) fun _ _ h => h

theorem Faithful.server (h : net.Faithful backend txs timestamp) {peerId : PeerId} {node : Node}
    (hstep : Chain.Step backend backend.Builds (net.server peerId) node) :
    Faithful { net with server := Function.update net.server peerId node } backend txs
      timestamp := by
  have hgrows (id : PeerId) :
      Reach backend backend.Builds txs timestamp (Function.update net.server peerId node id) ∧
        (net.server id).chain <+: (Function.update net.server peerId node id).chain ∧
        (net.server id).current.confirmedNumber ≤
          (Function.update net.server peerId node id).current.confirmedNumber := by
    by_cases hid : id = peerId
    · subst hid
      rw [Function.update_self]
      exact ⟨(h.servers id).step hstep, grows_of_step (h.servers id) hstep⟩
    · rw [Function.update_of_ne hid]
      exact ⟨h.servers id, List.prefix_rfl, le_rfl⟩
  have hserved (id : PeerId) (number : BlockNumber) (block : BlockData)
      (honchain : net.OnChain backend id number block) :
      Net.OnChain { net with server := Function.update net.server peerId node } backend id number
        block := by
    obtain ⟨p, hp, hshown⟩ := honchain
    obtain ⟨more, hmore⟩ := (hgrows id).2.1
    refine ⟨p, ?_, hshown⟩
    rw [← hmore, List.getElem?_append_left (List.getElem?_eq_some_iff.1 hp).1, hp]
  constructor
  case servers => exact fun id => (hgrows id).1
  case numbered => exact h.numbered
  case attended => exact h.attended
  case sourced =>
    exact ⟨h.sourced.sync.mono (fun id => (hgrows id).2.2) hserved, fun number source blockData hmem =>
      hserved _ _ _ (h.sourced.inHand number source blockData hmem)⟩
  case answers =>
    exact fun answer hmem => (h.answers answer hmem).mono List.prefix_rfl (hserved answer.1)

/-- The answer of a peer has what was asked for: the peer was asked for blocks that it had
confirmed then, and it has them still. -/
theorem Faithful.serve (h : net.Faithful backend txs timestamp) {peerId : PeerId}
    {request : BlockRequest} {response : BlockResponse}
    (hrequest : (peerId, request) ∈ net.client.sync.requests)
    (hserve : onBlockRequest (net.server peerId).db (net.confirmed peerId) request =
      .ok response) :
    Faithful { net with answers := (peerId, response) :: net.answers } backend txs timestamp where
  servers := h.servers
  numbered := h.numbered
  attended := h.attended
  sourced := h.sourced
  answers answer hmem := by
    obtain rfl | hmem := List.mem_cons.1 hmem
    · obtain ⟨requestId, start, count, heq, hconfirmed⟩ := h.sourced.sync.asked _ hrequest
      obtain rfl : request = ask requestId start count := heq
      have hreach := h.servers peerId
      obtain ⟨blockHash, hhash, -⟩ := exists_header_of_onBlockRequest hserve
      have hstart := hhash
      rw [ask, blockHashOf, getBlockHashByNumber, orMissing_eq_ok, hreach.chained.blockHash]
        at hstart
      obtain ⟨p, hp, rfl⟩ := Option.map_eq_some_iff.1 hstart
      obtain ⟨blocks, hblocks, hall⟩ := onBlockRequest_of_getElem? hreach _ hp hhash
      obtain rfl := Except.ok.inj (hblocks.symm.trans hserve)
      refine ⟨requestId, start, count, hrequest, rfl, fun block hblock => ?_,
        fun number hle hlt => ?_⟩
      · exact mem_of_segment hreach.chained hall hblock
      · have hlast : ∀ a b c : ℕ, a ≤ b → b < a + c → b ≤ a + (c - 1) := by
          intro a b c _ _
          omega
        exact segment_covers hreach.chained hall hle (hlast _ _ _ hle hlt)
          (hconfirmed number hle hlt) (current_lt_of_reach hreach)
    · exact h.answers answer hmem

theorem requests_prefix_of_step (h : Step backend consensusVerifyProof net net') :
    net.client.sync.requests <+: net'.client.sync.requests := by
  cases h with
  | client henabled hallowed => exact System.requests_prefix_next _
  | server h => exact List.prefix_rfl
  | serve hrequest h => exact List.prefix_rfl

theorem Faithful.step (h : net.Faithful backend txs timestamp)
    (hlength : net.client.sync.requests.length < 2 ^ 64)
    (hstep : Step backend consensusVerifyProof net net') : net'.Faithful backend txs timestamp := by
  cases hstep with
  | client henabled hallowed => exact h.client hlength henabled hallowed
  | server hstep => exact h.server hstep
  | serve hrequest hserve => exact h.serve hrequest hserve

theorem Faithful.run (h : net.Faithful backend txs timestamp)
    (hrun : ReflTransGen (Step backend consensusVerifyProof) net net')
    (hlength : net'.client.sync.requests.length < 2 ^ 64) :
    net'.Faithful backend txs timestamp := by
  induction hrun with
  | refl => exact h
  | tail hrun hstep ih =>
      have hless := (requests_prefix_of_step hstep).length_le.trans_lt hlength
      exact (ih hless).step hless hstep

/-- Whatever is lost, delayed or repeated under way, no block is stranded, and every block
that is downloaded is complete and is the block that its peer has on its chain under this
number. The numbers of the requests must not start again, no connected peer opens again and
no peer's cached confirmed number falls back. -/
theorem faithful_of_run (hopened : net.Opened backend txs timestamp)
    (hrun : ReflTransGen (Step backend consensusVerifyProof) net net')
    (hlength : net'.client.sync.requests.length < 2 ^ 64) :
    net'.client.sync.Held ∧
      ∀ number source blockData,
        (number, .downloaded source blockData) ∈
          net'.client.sync.pendingBlocks ++ net'.client.control.inHand →
        ∃ p, (net'.server source).chain[number]? = some p ∧
          blockData.number = number ∧ blockData.blockHash = p.params.blockHash ∧
          blockData.header = some p.params.header ∧
          blockData.body.map (bodyOf backend) = some p.params.body ∧
          blockData.proof = some p.params.proof := by
  have hfaithful := hopened.faithful.run hrun hlength
  refine ⟨hfaithful.attended.held, fun number source blockData hmem => ?_⟩
  obtain ⟨p, hp, hshown⟩ : net'.OnChain backend source number blockData := by
    rcases List.mem_append.1 hmem with hmem | hmem
    · exact hfaithful.sourced.sync.downloaded _ _ _ hmem
    · exact hfaithful.sourced.inHand _ _ _ hmem
  refine ⟨p, hp, ?_, hshown.blockHash, hshown.header, hshown.body, hshown.proof⟩
  rw [hshown.number, (hfaithful.servers source).chained.number number p hp]

/-- Events of the node that syncs, one after the other. -/
theorem run_of_runs {client : System} {server : PeerId → Node}
    {answers : List (PeerId × BlockResponse)} {events : List Event}
    (h : System.Runs backend consensusVerifyProof
      (fun client event => Net.Allowed ⟨client, server, answers⟩ event) client events) :
    ReflTransGen (Step backend consensusVerifyProof) ⟨client, server, answers⟩
      ⟨System.run backend consensusVerifyProof client events, server, answers⟩ := by
  induction events generalizing client with
  | nil => exact .refl
  | cons event events ih =>
      obtain ⟨⟨henabled, hallowed⟩, hrest⟩ := h
      have hstep : Step backend consensusVerifyProof ⟨client, server, answers⟩
          ⟨client.next backend consensusVerifyProof event, server, answers⟩ :=
        .client henabled hallowed
      exact (ih hrest).head hstep

end Net

/-! A node with the genesis block only, and a peer that has block 1. -/

namespace Sample

open Chain.Sample

def answer : BlockResponse :=
  Result.get (onBlockRequest server.db 1 (ask 0 1 1)) (by decide +kernel)

/-- The peer opens and is asked for block 1. -/
def asking : System := System.run backend proofs start (asked 1)

def syncing : Net := ⟨System.run backend proofs asking [.response peer answer], fun _ => server,
  [(peer, answer)]⟩

theorem run_syncing :
    Relation.ReflTransGen (Net.Step backend proofs) ⟨start, fun _ => server, []⟩ syncing := by
  have hasking : Relation.ReflTransGen (Net.Step backend proofs) ⟨start, fun _ => server, []⟩
      ⟨asking, fun _ => server, []⟩ :=
    Net.run_of_runs (by decide +kernel)
  have hrequest : (peer, ask 0 1 1) ∈ asking.sync.requests := by decide +kernel
  have hserve : Net.Step backend proofs ⟨asking, fun _ => server, []⟩
      ⟨asking, fun _ => server, [(peer, answer)]⟩ :=
    .serve hrequest (Result.eq_ok_get _ _)
  exact (hasking.tail hserve).trans (Net.run_of_runs (by decide +kernel))

theorem faithful_of_run_syncing :
    syncing.client.sync.pendingBlocks.map Prod.fst = [1] ∧ syncing.client.sync.Held ∧
      ∀ number source blockData,
        (number, .downloaded source blockData) ∈
          syncing.client.sync.pendingBlocks ++ syncing.client.control.inHand →
        ∃ p, server.chain[number]? = some p ∧
          blockData.number = number ∧ blockData.blockHash = p.params.blockHash ∧
          blockData.header = some p.params.header ∧
          blockData.body.map (bodyOf backend) = some p.params.body ∧
          blockData.proof = some p.params.proof :=
  ⟨by decide +kernel, Net.faithful_of_run ⟨opened_start, fun _ => reach_server, rfl⟩ run_syncing
    (by decide +kernel)⟩

end Sample

end Finastate.Sync
