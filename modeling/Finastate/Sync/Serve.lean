import Finastate.Chain.Verdict
import Finastate.Sync.System

/-!
# Answers to block requests

`on_block_request` walks up or down the chain from a block on, and collects what
is asked for of each block. A node that has its chain from the genesis on
answers with a part of this chain: up to the confirmed block that it has read at
first, or down to the genesis block.
-/

namespace Finastate.Sync

open Chain Executor
open Coordinator (BlockData BodyData)

/-- `ok_or_else` with `ErrorKind::Data`. -/
def orMissing {α : Type} (msg : String) : Option α → Except Coordinator.ErrorKind α
  | some a => .ok a
  | none => .error (.data msg)

section Serve

variable (db : DB) (fields : Nat)

def getBlockHashByNumber (number : BlockNumber) : Except Coordinator.ErrorKind Hash :=
  orMissing ("Missing block hash: number: " ++ toString number) (db.getBlockHash number)

def getHeaderByBlockHash (blockHash : Hash) : Except Coordinator.ErrorKind Header :=
  orMissing (missingHeader blockHash) (db.getHeader blockHash)

def getProofByBlockHash (blockHash : Hash) : Except Coordinator.ErrorKind Proof :=
  orMissing ("Missing proof: block_hash: " ++ hexEncode blockHash.bytes) (db.getProof blockHash)

def getBodyByBlockHash (blockHash : Hash) : Except Coordinator.ErrorKind Body :=
  orMissing ("Missing body: block_hash: " ++ hexEncode blockHash.bytes) (db.getBody blockHash)

def getTransactionByHash (txHash : Hash) : Except Coordinator.ErrorKind Transaction :=
  orMissing ("Missing transaction: tx_hash: " ++ hexEncode txHash.bytes)
    (db.getTransaction txHash)

/-- The hash of the block that is next. -/
def blockHashOf : BlockId → Except Coordinator.ErrorKind Hash
  | .number number => getBlockHashByNumber db number
  | .hash blockHash => .ok blockHash

def bodyData (blockHash : Hash) : Except Coordinator.ErrorKind BodyData := do
  let body ← getBodyByBlockHash db blockHash
  let metaTxs ← body.metaTxs.mapM (getTransactionByHash db)
  let payloadTxs ← body.payloadTxs.mapM (getTransactionByHash db)
  return { metaTxs, payloadTxs }

/-- The fields are asked for. -/
def Wanted (field : Nat) : Prop := fields &&& field = field

instance (field : Nat) : Decidable (Wanted fields field) := inferInstanceAs (Decidable (_ = _))

/-- What is read of a block if it is asked for. -/
def whenWanted {α : Type} (field : Nat) (read : Except Coordinator.ErrorKind α) :
    Except Coordinator.ErrorKind (Option α) :=
  if Wanted fields field then read.map some else .ok none

/-- What the loop of `on_block_request` reads of one block. -/
def blockData (blockId : BlockId) : Except Coordinator.ErrorKind BlockData := do
  let blockHash ← blockHashOf db blockId
  let header ← getHeaderByBlockHash db blockHash
  let body ← whenWanted fields fieldsBody (bodyData db blockHash)
  let proof ← whenWanted fields fieldsProof (getProofByBlockHash db blockHash)
  return {
    number := header.number
    blockHash
    header := if Wanted fields fieldsHeader then some header else none
    body
    proof }

/-- The block after this one, if there is one to serve. -/
def nextBlockId (confirmedNumber : BlockNumber) (direction : Direction) (number : BlockNumber) :
    Option BlockId :=
  match direction with
  | .asc => if confirmedNumber ≤ number then none else some (.number (number + 1))
  | .desc => if number = 0 then none else some (.number (number - 1))

/-- The loop, which goes round at most so many times after this one. -/
def blocksFrom (confirmedNumber : BlockNumber) (direction : Direction) :
    ℕ → BlockId → Except Coordinator.ErrorKind (List BlockData)
  | 0, blockId => do return [← blockData db fields blockId]
  | n + 1, blockId => do
      let block ← blockData db fields blockId
      match nextBlockId confirmedNumber direction block.number with
      | none => return [block]
      | some blockId => return block :: (← blocksFrom confirmedNumber direction n blockId)

end Serve

/-- `on_block_request`, with the response that is sent. A request for no block is
answered with one. -/
def onBlockRequest (db : DB) (confirmedNumber : BlockNumber) (request : BlockRequest) :
    Except Coordinator.ErrorKind BlockResponse := do
  let blocks ← blocksFrom db request.fields confirmedNumber request.direction
    (request.count - 1) request.blockId
  return { requestId := request.requestId, blocks }

/-! ## What is served -/

/-- The body that these transactions make. -/
def bodyOf (backend : Backend) (body : BodyData) : Body where
  metaTxs := body.metaTxs.map backend.hashTransaction
  payloadTxs := body.payloadTxs.map backend.hashTransaction

/-- The data of a block that was built, as far as it is asked for. -/
structure Shown (backend : Backend) (fields : Nat) (p : Prepared) (block : BlockData) : Prop where
  number : block.number = p.params.header.number
  blockHash : block.blockHash = p.params.blockHash
  header : block.header = if Wanted fields fieldsHeader then some p.params.header else none
  body : block.body.map (bodyOf backend) =
    if Wanted fields fieldsBody then some p.params.body else none
  proof : block.proof = if Wanted fields fieldsProof then some p.params.proof else none

/-- The part of a chain that is served from its block `k` on, with at most `n` blocks after
that one. -/
def segment (chain : List Prepared) (confirmedNumber : BlockNumber) (k n : ℕ) :
    Direction → List Prepared
  | .asc => (chain.drop k).take (min n (confirmedNumber - k) + 1)
  | .desc => (chain.take (k + 1)).reverse.take (n + 1)

section Segment

variable {chain : List Prepared} {p : Prepared} {k confirmedNumber : ℕ}

theorem drop_of_getElem? (hp : chain[k]? = some p) : chain.drop k = p :: chain.drop (k + 1) := by
  obtain ⟨hlt, rfl⟩ := List.getElem?_eq_some_iff.1 hp
  exact List.drop_eq_getElem_cons hlt

theorem reverse_take_of_getElem? (hp : chain[k]? = some p) :
    (chain.take (k + 1)).reverse = p :: (chain.take k).reverse := by
  obtain ⟨hlt, rfl⟩ := List.getElem?_eq_some_iff.1 hp
  rw [List.take_succ_eq_append_getElem hlt, List.reverse_append]
  rfl

theorem segment_zero (hp : chain[k]? = some p) (direction : Direction) :
    segment chain confirmedNumber k 0 direction = [p] := by
  cases direction with
  | asc => rw [segment, drop_of_getElem? hp, Nat.zero_min, List.take_succ_cons, List.take_zero]
  | desc => rw [segment, reverse_take_of_getElem? hp, List.take_succ_cons, List.take_zero]

/-- The walk goes on where there is a next block to serve. -/
theorem segment_succ (hp : chain[k]? = some p) (n : ℕ) (direction : Direction) :
    segment chain confirmedNumber k (n + 1) direction = [p] ∧
        nextBlockId confirmedNumber direction k = none ∨
      ∃ k', nextBlockId confirmedNumber direction k = some (.number k') ∧
        (k' ≤ k ∨ k' ≤ confirmedNumber) ∧
        segment chain confirmedNumber k (n + 1) direction =
          p :: segment chain confirmedNumber k' n direction := by
  cases direction with
  | asc =>
      by_cases hle : confirmedNumber ≤ k
      · refine .inl ⟨?_, if_pos hle⟩
        rw [segment, drop_of_getElem? hp, Nat.sub_eq_zero_of_le hle, Nat.min_zero,
          List.take_succ_cons, List.take_zero]
      · have hlt : k < confirmedNumber := Nat.lt_of_not_le hle
        refine .inr ⟨k + 1, if_neg hle, .inr hlt, ?_⟩
        have hmin : min (n + 1) (confirmedNumber - k) =
            min n (confirmedNumber - (k + 1)) + 1 := by omega
        rw [segment, drop_of_getElem? hp, hmin, List.take_succ_cons]
        rfl
  | desc =>
      cases k with
      | zero =>
          refine .inl ⟨?_, rfl⟩
          rw [segment, reverse_take_of_getElem? hp, List.take_succ_cons]
          simp
      | succ k =>
          refine .inr ⟨k, rfl, .inl (Nat.le_succ k), ?_⟩
          rw [segment, reverse_take_of_getElem? hp, List.take_succ_cons]
          rfl

end Segment

section Blocks

variable {backend : Backend} {node : Node} {p : Prepared} {k : ℕ} {fields : Nat}

theorem orMissing_eq_ok {α : Type} {msg : String} {o : Option α} {a : α} :
    orMissing msg o = .ok a ↔ o = some a := by
  cases o with
  | none => simp [orMissing]
  | some b => simp [orMissing]

theorem whenWanted_ok {α : Type} {field : Nat} (a : α) :
    whenWanted fields field (.ok a) = .ok (if Wanted fields field then some a else none) := by
  unfold whenWanted
  split_ifs <;> rfl

/-- Transactions that are all stored under their hashes. -/
theorem mapM_getTransactionByHash (hstored : node.Stored backend) {hashes : List Hash}
    (hhashes : ∀ txHash ∈ hashes, (node.db.getTransaction txHash).isSome) :
    ∃ txs, hashes.mapM (getTransactionByHash node.db) = .ok txs ∧
      txs.map backend.hashTransaction = hashes := by
  induction hashes with
  | nil => exact ⟨[], rfl, rfl⟩
  | cons txHash hashes ih =>
      obtain ⟨tx, htx⟩ := Option.isSome_iff_exists.1 (hhashes txHash List.mem_cons_self)
      obtain ⟨txs, htxs, hmap⟩ := ih fun other hmem => hhashes other (List.mem_cons_of_mem _ hmem)
      refine ⟨tx :: txs, ?_, ?_⟩
      · rw [List.mapM_cons, htxs, getTransactionByHash, orMissing_eq_ok.2 htx]
        rfl
      · rw [List.map_cons, hmap, hstored.hashed txHash tx htx]

theorem bodyData_of_mem (hchain : node.db.Chained node.chain) (hstored : node.Stored backend)
    (hp : p ∈ node.chain) :
    ∃ body, bodyData node.db p.params.blockHash = .ok body ∧
      bodyOf backend body = p.params.body := by
  obtain ⟨metaTxs, hmeta, hmetaTxs⟩ := mapM_getTransactionByHash hstored
    fun txHash hmem => hstored.stored p hp txHash (List.mem_append_left _ hmem)
  obtain ⟨payloadTxs, hpayload, hpayloadTxs⟩ := mapM_getTransactionByHash hstored
    fun txHash hmem => hstored.stored p hp txHash (List.mem_append_right _ hmem)
  refine ⟨{ metaTxs, payloadTxs }, ?_, ?_⟩
  · rw [bodyData, getBodyByBlockHash, orMissing_eq_ok.2 (hchain.body p hp)]
    simp only [bind, Except.bind, hmeta, hpayload]
    rfl
  · rw [bodyOf, hmetaTxs, hpayloadTxs]

/-- A block of the chain, under a number or a hash that leads to it. -/
theorem blockData_of_mem (hchain : node.db.Chained node.chain) (hstored : node.Stored backend)
    (hp : p ∈ node.chain) (fields : Nat) {blockId : BlockId}
    (hhash : blockHashOf node.db blockId = .ok p.params.blockHash) :
    ∃ block, blockData node.db fields blockId = .ok block ∧ Shown backend fields p block := by
  obtain ⟨body, hbody, hhashes⟩ := bodyData_of_mem hchain hstored hp
  have hheader : getHeaderByBlockHash node.db p.params.blockHash = .ok p.params.header :=
    orMissing_eq_ok.2 (hchain.header p hp)
  have hproof : getProofByBlockHash node.db p.params.blockHash = .ok p.params.proof :=
    orMissing_eq_ok.2 (hchain.proof p hp)
  simp only [blockData, hhash, bind, Except.bind, hheader, hbody, hproof, whenWanted_ok]
  refine ⟨_, rfl, rfl, rfl, rfl, ?_, rfl⟩
  show Option.map _ (if _ then _ else _) = _
  split_ifs
  · exact congrArg some hhashes
  · rfl

theorem blockHashOf_number (hchain : node.db.Chained node.chain) (hp : node.chain[k]? = some p) :
    blockHashOf node.db (.number k) = .ok p.params.blockHash := by
  rw [blockHashOf, getBlockHashByNumber, orMissing_eq_ok, hchain.blockHash, hp, Option.map_some]

/-- From a block of the chain on the loop collects its part of the chain. The induction is on
the rounds, and each goes on from a number. -/
theorem blocksFrom_of_getElem? (fields : Nat) (hchain : node.db.Chained node.chain)
    (hstored : node.Stored backend) {confirmedNumber : BlockNumber}
    (hconfirmed : confirmedNumber < node.chain.length) (direction : Direction) (n : ℕ)
    (hp : node.chain[k]? = some p) {blockId : BlockId}
    (hhash : blockHashOf node.db blockId = .ok p.params.blockHash) :
    ∃ blocks, blocksFrom node.db fields confirmedNumber direction n blockId = .ok blocks ∧
      List.Forall₂ (Shown backend fields) (segment node.chain confirmedNumber k n direction)
        blocks := by
  induction n generalizing k p blockId with
  | zero =>
      obtain ⟨block, hblock, hshown⟩ := blockData_of_mem hchain hstored
        (List.mem_of_getElem? hp) fields hhash
      refine ⟨[block], ?_, ?_⟩
      · simp only [blocksFrom, hblock]
        rfl
      · rw [segment_zero hp]
        exact .cons hshown .nil
  | succ n ih =>
      obtain ⟨block, hblock, hshown⟩ := blockData_of_mem hchain hstored
        (List.mem_of_getElem? hp) fields hhash
      have hnumber : block.number = k := hshown.number.trans (hchain.number k p hp)
      obtain ⟨hsegment, hnext⟩ | ⟨k', hnext, hle, hsegment⟩ := segment_succ hp n direction
      · refine ⟨[block], ?_, hsegment ▸ .cons hshown .nil⟩
        simp only [blocksFrom, hblock, bind, Except.bind, hnumber, hnext]
        rfl
      · have hlt : k' < node.chain.length :=
          hle.elim (fun h => h.trans_lt (List.getElem?_eq_some_iff.1 hp).1) fun h =>
            h.trans_lt hconfirmed
        obtain ⟨blocks, hblocks, hall⟩ := ih (List.getElem?_eq_getElem hlt)
          (blockHashOf_number hchain (List.getElem?_eq_getElem hlt))
        refine ⟨block :: blocks, ?_, hsegment ▸ .cons hshown hall⟩
        simp only [blocksFrom, hblock, bind, Except.bind, hnumber, hnext, hblocks]
        rfl

end Blocks

/-! ## The chain of a node only grows -/

section Grows

variable {backend : Backend} {Prepares : DB → CurrentState → Prepared → Prop}
  {txs : List Transaction} {timestamp : Nat} {node node' : Node}

/-- The confirmed block of the current state is the last one at the time of the update. -/
theorem confirmed_of_updateCurrentState (hchain : node.db.Chained node.chain) {now : Nat}
    {current : CurrentState} (h : backend.updateCurrentState node.db now = .ok current) :
    node.chain.length = current.confirmedNumber + 1 := by
  obtain ⟨number, hnumber, hlength⟩ := hchain.confirmed
  rw [(Backend.updated_of_updateCurrentState h).confirmedNumber] at hnumber
  rw [hlength, Option.some.inj hnumber]

theorem current_lt_of_reach (h : Reach backend Prepares txs timestamp node) :
    node.current.confirmedNumber < node.chain.length := by
  induction h with
  | genesis hspec hexecute h =>
      have hreach : Reach backend Prepares txs timestamp _ := .genesis hspec hexecute h
      exact Nat.lt_of_succ_le (confirmed_of_updateCurrentState hreach.chained h).ge
  | @step node node' hreach h ih =>
      cases h with
      | prepare h => exact ih
      | commit now hp =>
          rcases node.commit_cases backend now _ with heq | ⟨-, uninserted, -, heq⟩
          · rwa [heq]
          · rw [heq]
            exact ih.trans (by simp)
      | insert h => exact ih
      | lose task => exact ih
      | take hidle hqueue h => exact ih
      | build hwork hbuilt h => exact ih
      | store hwork hbuilt => exact ih
      | fail => exact ih
      | refresh h => exact Nat.lt_of_succ_le (confirmed_of_updateCurrentState hreach.chained h).ge
      | restart h => exact Nat.lt_of_succ_le (confirmed_of_updateCurrentState hreach.chained h).ge

theorem grows_of_step (hreach : Reach backend Prepares txs timestamp node)
    (h : Step backend Prepares node node') :
    node.chain <+: node'.chain ∧
      node.current.confirmedNumber ≤ node'.current.confirmedNumber := by
  have hcurrent := current_lt_of_reach hreach
  have hlast {now : Nat} {current : CurrentState}
      (h : backend.updateCurrentState node.db now = .ok current) :
      node.current.confirmedNumber ≤ current.confirmedNumber := by
    rw [confirmed_of_updateCurrentState hreach.chained h] at hcurrent
    exact Nat.le_of_lt_succ hcurrent
  cases h with
  | prepare h => exact ⟨List.prefix_rfl, le_rfl⟩
  | commit now hp =>
      rcases node.commit_cases backend now _ with heq | ⟨-, uninserted, -, heq⟩
      · rw [heq]
        exact ⟨List.prefix_rfl, le_rfl⟩
      · rw [heq]
        exact ⟨List.prefix_append .., le_rfl⟩
  | insert h => exact ⟨List.prefix_rfl, le_rfl⟩
  | lose task => exact ⟨List.prefix_rfl, le_rfl⟩
  | take hidle hqueue h => exact ⟨List.prefix_rfl, le_rfl⟩
  | build hwork hbuilt h => exact ⟨List.prefix_rfl, le_rfl⟩
  | store hwork hbuilt => exact ⟨List.prefix_rfl, le_rfl⟩
  | fail => exact ⟨List.prefix_rfl, le_rfl⟩
  | refresh h => exact ⟨List.prefix_rfl, hlast h⟩
  | restart h => exact ⟨List.prefix_rfl, hlast h⟩

end Grows

/-! ## The answer of a node -/

section Answer

variable {backend : Backend} {txs : List Transaction} {timestamp : Nat} {node : Node}

theorem onBlockRequest_of_getElem? (h : Reach backend backend.Builds txs timestamp node)
    (request : BlockRequest) {k : ℕ} {p : Prepared} (hp : node.chain[k]? = some p)
    (hhash : blockHashOf node.db request.blockId = .ok p.params.blockHash) :
    ∃ blocks, onBlockRequest node.db node.current.confirmedNumber request =
        .ok ⟨request.requestId, blocks⟩ ∧
      List.Forall₂ (Shown backend request.fields)
        (segment node.chain node.current.confirmedNumber k (request.count - 1)
          request.direction) blocks := by
  obtain ⟨blocks, hblocks, hall⟩ := blocksFrom_of_getElem? request.fields h.chained
    (h.stored fun _ _ _ hbuilds => hbuilds.grounded.2) (current_lt_of_reach h) request.direction
    (request.count - 1) hp hhash
  refine ⟨blocks, ?_, hall⟩
  rw [onBlockRequest, hblocks]
  rfl

/-- Every block of an answer is of the chain, under its number. -/
theorem mem_of_segment (hchain : node.db.Chained node.chain) {fields confirmedNumber k n : ℕ}
    {direction : Direction} {blocks : List BlockData}
    (hall : List.Forall₂ (Shown backend fields)
      (segment node.chain confirmedNumber k n direction) blocks) {block : BlockData}
    (hmem : block ∈ blocks) :
    ∃ p, node.chain[block.number]? = some p ∧ Shown backend fields p block := by
  obtain ⟨i, hi, rfl⟩ := List.getElem_of_mem hmem
  have hi' : i < (segment node.chain confirmedNumber k n direction).length :=
    hall.length_eq ▸ hi
  have hshown := hall.get hi' hi
  refine ⟨_, ?_, hshown⟩
  have hin : (segment node.chain confirmedNumber k n direction).get ⟨i, hi'⟩ ∈ node.chain := by
    cases direction with
    | asc => exact List.mem_of_mem_drop (List.mem_of_mem_take (List.get_mem ..))
    | desc => exact List.mem_of_mem_take (List.mem_reverse.1 (List.mem_of_mem_take (List.get_mem ..)))
  obtain ⟨j, hj⟩ := List.getElem?_of_mem hin
  have hnumber := hshown.number.trans (hchain.number j _ hj)
  simp only [List.get_eq_getElem] at hnumber hj ⊢
  rw [hnumber, hj]

/-- An answer that goes up has the blocks that are asked for and confirmed. -/
theorem segment_covers (hchain : node.db.Chained node.chain) {fields confirmedNumber k n : ℕ}
    {blocks : List BlockData}
    (hall : List.Forall₂ (Shown backend fields)
      (segment node.chain confirmedNumber k n .asc) blocks) {number : ℕ} (hle : k ≤ number)
    (hn : number ≤ k + n) (hconfirmed : number ≤ confirmedNumber)
    (hlt : confirmedNumber < node.chain.length) : ∃ block ∈ blocks, block.number = number := by
  have hi : number - k < (segment node.chain confirmedNumber k n .asc).length := by
    rw [segment, List.length_take, List.length_drop]
    omega
  have hi' : number - k < blocks.length := hall.length_eq ▸ hi
  have hshown := hall.get hi hi'
  refine ⟨_, List.get_mem blocks ⟨number - k, hi'⟩, hshown.number.trans ?_⟩
  refine hchain.number number _ ?_
  simp only [segment, List.get_eq_getElem, List.getElem_take, List.getElem_drop,
    Nat.add_sub_cancel' hle]
  exact List.getElem?_eq_getElem (hconfirmed.trans_lt hlt)

/-- The first block that the loop reads is in the database. -/
theorem exists_header_of_onBlockRequest {db : DB} {confirmedNumber : BlockNumber}
    {request : BlockRequest} {response : BlockResponse}
    (h : onBlockRequest db confirmedNumber request = .ok response) :
    ∃ blockHash, blockHashOf db request.blockId = .ok blockHash ∧
      (db.getHeader blockHash).isSome := by
  obtain ⟨blocks, hblocks, -⟩ := Result.bind_eq_ok.1 h
  obtain ⟨block, hblock⟩ : ∃ block, blockData db request.fields request.blockId = .ok block := by
    cases hcount : request.count - 1 with
    | zero =>
        rw [hcount] at hblocks
        obtain ⟨block, hblock, -⟩ := Result.bind_eq_ok.1 hblocks
        exact ⟨block, hblock⟩
    | succ n =>
        rw [hcount] at hblocks
        obtain ⟨block, hblock, -⟩ := Result.bind_eq_ok.1 hblocks
        exact ⟨block, hblock⟩
  obtain ⟨blockHash, hhash, h⟩ := Result.bind_eq_ok.1 hblock
  obtain ⟨header, hheader, -⟩ := Result.bind_eq_ok.1 h
  rw [getHeaderByBlockHash, orMissing_eq_ok] at hheader
  exact ⟨blockHash, hhash, Option.isSome_iff_exists.2 ⟨header, hheader⟩⟩

/-- A node answers a request that starts at a block of its chain, and no other, and
the answer is a part of this chain, with what is asked for of each block. -/
theorem onBlockRequest_of_reach (h : Reach backend backend.Builds txs timestamp node)
    (request : BlockRequest) :
    (∀ k p, node.chain[k]? = some p →
      request.blockId = .number k ∨ request.blockId = .hash p.params.blockHash →
      ∃ blocks, onBlockRequest node.db node.current.confirmedNumber request =
          .ok ⟨request.requestId, blocks⟩ ∧
        List.Forall₂ (Shown backend request.fields)
          (segment node.chain node.current.confirmedNumber k (request.count - 1)
            request.direction) blocks) ∧
    ((∀ k p, node.chain[k]? = some p →
      request.blockId ≠ .number k ∧ request.blockId ≠ .hash p.params.blockHash) →
      ∃ e, onBlockRequest node.db node.current.confirmedNumber request = .error e) := by
  constructor
  · intro k p hp hid
    refine onBlockRequest_of_getElem? h request hp ?_
    obtain hid | hid := hid
    · rw [hid]
      exact blockHashOf_number h.chained hp
    · rw [hid]
      rfl
  · intro hnone
    cases hanswer : onBlockRequest node.db node.current.confirmedNumber request with
    | error e => exact ⟨e, rfl⟩
    | ok response =>
        exfalso
        obtain ⟨blockHash, hhash, hheader⟩ := exists_header_of_onBlockRequest hanswer
        have hcontained := h.contained fun _ _ _ hbuilds => hbuilds.grounded.2
        obtain ⟨p, hp, rfl⟩ := hcontained.header blockHash hheader
        obtain ⟨k, hk⟩ := List.getElem?_of_mem hp
        cases hid : request.blockId with
        | hash blockHash =>
            rw [hid] at hhash
            obtain rfl := Except.ok.inj hhash
            exact (hnone k p hk).2 hid
        | number number =>
            rw [hid, blockHashOf, getBlockHashByNumber, orMissing_eq_ok, h.chained.blockHash]
              at hhash
            obtain ⟨q, hq, -⟩ := Option.map_eq_some_iff.1 hhash
            exact (hnone number q hq).1 hid

end Answer

namespace Sample

open Chain.Sample

/-- A node with block 1. -/
def server : Node :=
  { second firstBlock with
    current := Result.get (backend.updateCurrentState (second firstBlock).db 1) (by decide +kernel) }

theorem reach_server : Reach backend backend.Builds [systemTx] 0 server :=
  reach_firstBlock.step (.refresh (Result.eq_ok_get _ _))

theorem chain_server :
    server.chain = [backend.genesisPrepared 0 genesisContext state, firstBlock] := by
  have hcommitted : server.db.confirmedNumber ≠ first.db.confirmedNumber := by decide +kernel
  exact if_neg hcommitted

/-- Header, body and proof. -/
def allFields : Nat := fieldsHeader + fieldsBody + fieldsProof

/-- Upwards from the genesis block and downwards from block 1 the node answers with both
blocks, and for block 2 with an error. -/
theorem onBlockRequest_server :
    (∃ blocks, onBlockRequest server.db server.current.confirmedNumber
        ⟨3, allFields, .number 0, 5, .asc⟩ = .ok ⟨3, blocks⟩ ∧
      List.Forall₂ (Shown backend allFields) server.chain blocks) ∧
    (∃ blocks, onBlockRequest server.db server.current.confirmedNumber
        ⟨4, allFields, .hash firstBlock.params.blockHash, 5, .desc⟩ = .ok ⟨4, blocks⟩ ∧
      List.Forall₂ (Shown backend allFields) server.chain.reverse blocks) ∧
    ∃ e, onBlockRequest server.db server.current.confirmedNumber
      ⟨5, allFields, .number 2, 1, .asc⟩ = .error e := by
  have hnumber : server.current.confirmedNumber = 1 := by decide +kernel
  refine ⟨?_, ?_, ?_⟩
  · have hanswer := (onBlockRequest_of_reach reach_server ⟨3, allFields, .number 0, 5, .asc⟩).1 0
      (backend.genesisPrepared 0 genesisContext state) (by rw [chain_server]; rfl) (.inl rfl)
    rw [hnumber, chain_server] at hanswer ⊢
    exact hanswer
  · have hanswer := (onBlockRequest_of_reach reach_server
      ⟨4, allFields, .hash firstBlock.params.blockHash, 5, .desc⟩).1 1 firstBlock
      (by rw [chain_server]; rfl) (.inr rfl)
    rw [hnumber, chain_server] at hanswer ⊢
    exact hanswer
  · refine (onBlockRequest_of_reach reach_server ⟨5, allFields, .number 2, 1, .asc⟩).2 ?_
    intro k p hp
    rw [chain_server] at hp
    obtain ⟨hlt, -⟩ := List.getElem?_eq_some_iff.1 hp
    refine ⟨fun heq => ?_, nofun⟩
    obtain rfl : 2 = k := BlockId.number.inj heq
    exact absurd hlt (by decide)

end Sample

end Finastate.Sync
