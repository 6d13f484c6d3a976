import Finastate.Chain.Backend
import Finastate.Hotstuff.Protocol
import Finastate.Primitives.EnumCodec
import Finastate.Raft.Protocol
import Finastate.Sync.ChainSync

/-!
# Messages on the wire

The encodings of the messages between nodes and of all that they are made of,
in the order in which the source declares fields and variants.
-/

namespace Finastate

open Codec

theorem roundTrip_i8 :
    RoundTrip (fun gap : Int => [UInt8.ofNat (gap % 2 ^ 8).toNat]) Chain.decodeI8
      fun gap => -2 ^ 7 ≤ gap ∧ gap < 2 ^ 7 := by
  rintro gap ⟨hlo, hhi⟩ rest
  have hbyte : (UInt8.ofNat (gap % 2 ^ 8).toNat).toNat = (gap % 2 ^ 8).toNat := by
    rw [UInt8.toNat_ofNat']
    omega
  have hnonneg : 0 ≤ gap % 2 ^ 8 := Int.emod_nonneg _ (by decide)
  simp only [List.cons_append, List.nil_append, Chain.decodeI8, hbyte, Int.toNat_of_nonneg hnonneg]
  rw [Int.bmod_def]
  congr 2
  omega

/-! ## What messages are made of -/

def scaleI8 : Scale Int := .total _ _ _ roundTrip_i8

def Hash.scale : Scale Hash := .struct .bytes Hash.mk Hash.bytes fun _ => rfl

def Address.scale : Scale Address := .struct .bytes Address.mk Address.bytes fun _ => rfl

def PublicKey.scale : Scale PublicKey := .struct .bytes PublicKey.mk PublicKey.bytes fun _ => rfl

def Signature.scale : Scale Signature := .struct .bytes Signature.mk Signature.bytes fun _ => rfl

def Witness.scale : Scale Witness :=
  .struct (PublicKey.scale.pair <| Signature.scale.pair <| Scale.u32.pair .u64)
    (fun (publicKey, signature, nonce, untilNumber) =>
      { publicKey, signature, nonce, untilNumber })
    (fun x => (x.publicKey, x.signature, x.nonce, x.untilNumber)) fun _ => rfl

def Call.scale : Scale Call :=
  .struct (Scale.string.pair <| Scale.string.pair .bytes)
    (fun (module, method, params) => { module, method, params })
    (fun x => (x.module, x.method, x.params)) fun _ => rfl

def Transaction.scale : Scale Transaction :=
  .struct (Witness.scale.option.pair Call.scale) (fun (witness, call) => { witness, call })
    (fun x => (x.witness, x.call)) fun _ => rfl

def Header.scale : Scale Header :=
  .struct
    (Scale.u64.pair <| Scale.u64.pair <| Hash.scale.pair <| Hash.scale.pair <| Hash.scale.pair <|
      Hash.scale.pair <| Hash.scale.pair <| scaleI8.pair <| Hash.scale.pair Hash.scale)
    (fun (number, timestamp, parentHash, metaTxsRoot, metaStateRoot, metaReceiptsRoot,
        payloadTxsRoot, payloadExecutionGap, payloadExecutionStateRoot,
        payloadExecutionReceiptsRoot) =>
      { number, timestamp, parentHash, metaTxsRoot, metaStateRoot, metaReceiptsRoot,
        payloadTxsRoot, payloadExecutionGap, payloadExecutionStateRoot,
        payloadExecutionReceiptsRoot })
    (fun x => (x.number, x.timestamp, x.parentHash, x.metaTxsRoot, x.metaStateRoot,
      x.metaReceiptsRoot, x.payloadTxsRoot, x.payloadExecutionGap, x.payloadExecutionStateRoot,
      x.payloadExecutionReceiptsRoot)) fun _ => rfl

def Proof.scale : Scale Proof :=
  .struct (Scale.string.pair .bytes) (fun (name, data) => { name, data })
    (fun x => (x.name, x.data)) fun _ => rfl

def scaleSig : Scale (PublicKey × Signature) := PublicKey.scale.pair Signature.scale

/-! ## The coordinator -/

namespace Coordinator

def BodyData.scale : Scale BodyData :=
  .struct (Transaction.scale.vec.pair Transaction.scale.vec)
    (fun (metaTxs, payloadTxs) => { metaTxs, payloadTxs })
    (fun x => (x.metaTxs, x.payloadTxs)) fun _ => rfl

def BlockData.scale : Scale BlockData :=
  .struct
    (Scale.u64.pair <| Hash.scale.pair <| Header.scale.option.pair <|
      BodyData.scale.option.pair Proof.scale.option)
    (fun (number, blockHash, header, body, proof) => { number, blockHash, header, body, proof })
    (fun x => (x.number, x.blockHash, x.header, x.body, x.proof)) fun _ => rfl

end Coordinator

namespace Sync

structure TxPropagate where
  txs : List Transaction
  deriving DecidableEq, Repr

/-- `message` is an encoded message of a consensus engine. -/
structure ConsensusMessage where
  message : Bytes
  deriving DecidableEq, Repr

inductive ProtocolMessage where
  | handshake (message : Handshake)
  | blockAnnounce (message : BlockAnnounce)
  | blockRequest (message : BlockRequest)
  | blockResponse (message : BlockResponse)
  | txPropagate (message : TxPropagate)
  | consensusMessage (message : ConsensusMessage)
  deriving DecidableEq, Repr

def Handshake.scale : Scale Handshake :=
  .struct (Hash.scale.pair <| Scale.u64.pair <| Hash.scale.pair .u64)
    (fun (genesisHash, confirmedNumber, confirmedHash, nonce) =>
      { genesisHash, confirmedNumber, confirmedHash, nonce })
    (fun x => (x.genesisHash, x.confirmedNumber, x.confirmedHash, x.nonce)) fun _ => rfl

def BlockAnnounce.scale : Scale BlockAnnounce :=
  .struct (Hash.scale.pair Header.scale) (fun (blockHash, header) => { blockHash, header })
    (fun x => (x.blockHash, x.header)) fun _ => rfl

def BlockId.scale : Scale BlockId :=
  .indexed
    [.of 0 .u64 .number fun | .number n => some n | _ => none,
      .of 1 Hash.scale .hash fun | .hash blockHash => some blockHash | _ => none]
    Scale.nodup_zero_one (by intro m; cases m <;> simp [Variant.of])

def Direction.scale : Scale Direction :=
  .indexed [.plain 0 .asc, .plain 1 .desc] (by decide)
    (by intro m; cases m <;> simp [Variant.plain])

def BlockRequest.scale : Scale BlockRequest :=
  .struct
    (Scale.u64.pair <| Scale.u32.pair <| BlockId.scale.pair <| Scale.u32.pair Direction.scale)
    (fun (requestId, fields, blockId, count, direction) =>
      { requestId, fields, blockId, count, direction })
    (fun x => (x.requestId, x.fields, x.blockId, x.count, x.direction)) fun _ => rfl

def BlockResponse.scale : Scale BlockResponse :=
  .struct (Scale.u64.pair Coordinator.BlockData.scale.vec)
    (fun (requestId, blocks) => { requestId, blocks }) (fun x => (x.requestId, x.blocks))
    fun _ => rfl

def TxPropagate.scale : Scale TxPropagate :=
  .struct Transaction.scale.vec TxPropagate.mk TxPropagate.txs fun _ => rfl

def ConsensusMessage.scale : Scale ConsensusMessage :=
  .struct .bytes ConsensusMessage.mk ConsensusMessage.message fun _ => rfl

namespace ProtocolMessage

def variants : List (Variant String ProtocolMessage) :=
  [.of "Handshake" Handshake.scale .handshake
      fun | .handshake v => some v | _ => none,
    .of "BlockAnnounce" BlockAnnounce.scale .blockAnnounce
      fun | .blockAnnounce v => some v | _ => none,
    .of "BlockRequest" BlockRequest.scale .blockRequest
      fun | .blockRequest v => some v | _ => none,
    .of "BlockResponse" BlockResponse.scale .blockResponse
      fun | .blockResponse v => some v | _ => none,
    .of "TxPropagate" TxPropagate.scale .txPropagate
      fun | .txPropagate v => some v | _ => none,
    .of "ConsensusMessage" ConsensusMessage.scale .consensusMessage
      fun | .consensusMessage v => some v | _ => none]

theorem named_variants : Scale.Named variants where
  nodup := by decide +kernel
  short := by decide +kernel
  covers := by intro m; cases m <;> simp [variants, Variant.of]

def scale : Scale ProtocolMessage := .enumCodec variants named_variants

end ProtocolMessage

end Sync

/-! ## HotStuff -/

namespace Hotstuff

def Proposal.scale : Scale Proposal :=
  .struct
    (Hash.scale.pair <| Hash.scale.pair <| Scale.u64.pair <| Scale.u64.pair <|
      Transaction.scale.vec.pair <| Transaction.scale.vec.pair .u64)
    (fun (parentHash, blockHash, number, timestamp, metaTxs, payloadTxs, executionNumber) =>
      { parentHash, blockHash, number, timestamp, metaTxs, payloadTxs, executionNumber })
    (fun x => (x.parentHash, x.blockHash, x.number, x.timestamp, x.metaTxs, x.payloadTxs,
      x.executionNumber)) fun _ => rfl

def MessageType.scale : Scale MessageType :=
  .indexed
    [.plain 0 .newView, .plain 1 .prepare, .plain 2 .preCommit, .plain 3 .commit,
      .plain 4 .decide]
    (by decide) (by intro m; cases m <;> simp [Variant.plain])

def TimeoutMessageType.scale : Scale TimeoutMessageType :=
  .indexed [.plain 0 .newTimeout, .plain 1 .decide] (by decide)
    (by intro m; cases m <;> simp [Variant.plain])

def Node.scale : Scale Node :=
  .struct (Hash.scale.pair Hash.scale) (fun (parentHash, blockHash) => { parentHash, blockHash })
    (fun x => (x.parentHash, x.blockHash)) fun _ => rfl

def QC.scale : Scale QC :=
  .struct
    (MessageType.scale.pair <| Scale.u64.pair <| Node.scale.pair <| Address.scale.pair scaleSig.vec)
    (fun (messageType, view, node, leaderAddress, sig) =>
      { messageType, view, node, leaderAddress, sig })
    (fun x => (x.messageType, x.view, x.node, x.leaderAddress, x.sig)) fun _ => rfl

/-! The certificate of a block proof is read as that of a message. -/

theorem MessageType.decode_scale : MessageType.scale.decode = decodeMessageType := by
  funext input
  rcases input with _ | ⟨b, input⟩
  · rfl
  · by_cases h0 : b = 0
    · subst h0; rfl
    by_cases h1 : b = 1
    · subst h1; rfl
    by_cases h2 : b = 2
    · subst h2; rfl
    by_cases h3 : b = 3
    · subst h3; rfl
    by_cases h4 : b = 4
    · subst h4; rfl
    have hdecode : MessageType.scale.decode (b :: input) = none :=
      Variant.decode_unknown (by simp [Variant.plain, h0, h1, h2, h3, h4]) input
    rw [hdecode]
    unfold decodeMessageType
    split <;> simp_all

theorem Node.decode_scale : Node.scale.decode = decodeNode := by
  funext input
  simp only [Node.scale, Scale.struct, Scale.pair, decodeNode, Hash.scale, Scale.bytes, decodeHash]
  cases decodeBytes input with
  | none => rfl
  | some read => simp

theorem decode_scaleSig : scaleSig.decode = decodeSig := by
  funext input
  simp only [scaleSig, Scale.struct, Scale.pair, decodeSig, PublicKey.scale, Signature.scale,
    Scale.bytes, decodePublicKey, decodeSignature]

theorem QC.decode_scale : QC.scale.decode = decodeQc := by
  funext input
  have hfields : QC.scale.decode input =
      ((MessageType.scale.pair <| Scale.u64.pair <| Node.scale.pair <|
        Address.scale.pair scaleSig.vec).decode input).map
        fun ((messageType, view, node, leaderAddress, sig), rest) =>
          ({ messageType, view, node, leaderAddress, sig }, rest) := rfl
  have hview : Scale.u64.decode = decodeU64 := rfl
  have haddress : Address.scale.decode = decodeAddress := rfl
  have hsig : scaleSig.vec.decode = decodeVec scaleSig.decode := rfl
  rw [hfields, decodeQc]
  simp only [Scale.pair, MessageType.decode_scale, hview, Node.decode_scale, haddress, hsig,
    decode_scaleSig, Option.bind_eq_bind, Option.pure_def, Option.map_bind, Option.bind_assoc,
    Function.comp_def, Option.map_some, Option.bind_some]

def TC.scale : Scale TC :=
  .struct (Scale.u64.pair scaleSig.vec) (fun (view, sig) => { view, sig })
    (fun x => (x.view, x.sig)) fun _ => rfl

def RegisterValidatorReq.scale : Scale RegisterValidatorReq :=
  .struct (Scale.u64.pair <| PublicKey.scale.pair Signature.scale)
    (fun (requestId, publicKey, signature) => { requestId, publicKey, signature })
    (fun x => (x.requestId, x.publicKey, x.signature)) fun _ => rfl

def RegisterValidatorRes.scale : Scale RegisterValidatorRes :=
  .struct (Scale.u64.pair .bool) (fun (requestId, success) => { requestId, success })
    (fun x => (x.requestId, x.success)) fun _ => rfl

def RequestProposalReq.scale : Scale RequestProposalReq :=
  .struct (Scale.u64.pair Hash.scale) (fun (requestId, blockHash) => { requestId, blockHash })
    (fun x => (x.requestId, x.blockHash)) fun _ => rfl

def RequestProposalRes.scale : Scale RequestProposalRes :=
  .struct (Scale.u64.pair Proposal.scale.option)
    (fun (requestId, proposal) => { requestId, proposal }) (fun x => (x.requestId, x.proposal))
    fun _ => rfl

def ConsensusMessage.scale : Scale ConsensusMessage :=
  .struct
    (Scale.u64.pair <| MessageType.scale.pair <| Scale.u64.pair <| Node.scale.option.pair <|
      QC.scale.option.pair scaleSig.option)
    (fun (requestId, messageType, view, node, justify, sig) =>
      { requestId, messageType, view, node, justify, sig })
    (fun x => (x.requestId, x.messageType, x.view, x.node, x.justify, x.sig)) fun _ => rfl

def TimeoutMessage.scale : Scale TimeoutMessage :=
  .struct
    (Scale.u64.pair <| TimeoutMessageType.scale.pair <| Scale.u64.pair <| TC.scale.option.pair
      scaleSig.option)
    (fun (requestId, messageType, view, justify, sig) =>
      { requestId, messageType, view, justify, sig })
    (fun x => (x.requestId, x.messageType, x.view, x.justify, x.sig)) fun _ => rfl

namespace HotStuffMessage

def variants : List (Variant String HotStuffMessage) :=
  [.of "RegisterValidatorReq" RegisterValidatorReq.scale .registerValidatorReq
      fun | .registerValidatorReq v => some v | _ => none,
    .of "RegisterValidatorRes" RegisterValidatorRes.scale .registerValidatorRes
      fun | .registerValidatorRes v => some v | _ => none,
    .of "RequestProposalReq" RequestProposalReq.scale .requestProposalReq
      fun | .requestProposalReq v => some v | _ => none,
    .of "RequestProposalRes" RequestProposalRes.scale .requestProposalRes
      fun | .requestProposalRes v => some v | _ => none,
    .of "ConsensusMessage" ConsensusMessage.scale .consensusMessage
      fun | .consensusMessage v => some v | _ => none,
    .of "TimeoutMessage" TimeoutMessage.scale .timeoutMessage
      fun | .timeoutMessage v => some v | _ => none]

theorem named_variants : Scale.Named variants where
  nodup := by decide +kernel
  short := by decide +kernel
  covers := by intro m; cases m <;> simp [variants, Variant.of]

def scale : Scale HotStuffMessage := .enumCodec variants named_variants

end HotStuffMessage

end Hotstuff

/-! ## Raft -/

namespace Raft

def Proposal.scale : Scale Proposal :=
  .struct
    (Hash.scale.pair <| Scale.u64.pair <| Scale.u64.pair <| Transaction.scale.vec.pair <|
      Transaction.scale.vec.pair .u64)
    (fun (blockHash, number, timestamp, metaTxs, payloadTxs, executionNumber) =>
      { blockHash, number, timestamp, metaTxs, payloadTxs, executionNumber })
    (fun x => (x.blockHash, x.number, x.timestamp, x.metaTxs, x.payloadTxs, x.executionNumber))
    fun _ => rfl

def EntryData.scale : Scale EntryData :=
  .indexed
    [.of 0 .unit (fun _ => .blank) fun | .blank => some () | _ => none,
      .of 1 Hash.scale .proposal fun | .proposal blockHash => some blockHash | _ => none]
    Scale.nodup_zero_one (by intro m; cases m <;> simp [Variant.of])

def Entry.scale : Scale Entry :=
  .struct (Scale.u64.pair <| Scale.u64.pair EntryData.scale)
    (fun (term, index, data) => { term, index, data }) (fun x => (x.term, x.index, x.data))
    fun _ => rfl

def RegisterValidatorReq.scale : Scale RegisterValidatorReq :=
  .struct (Scale.u64.pair <| PublicKey.scale.pair Signature.scale)
    (fun (requestId, publicKey, signature) => { requestId, publicKey, signature })
    (fun x => (x.requestId, x.publicKey, x.signature)) fun _ => rfl

def RegisterValidatorRes.scale : Scale RegisterValidatorRes :=
  .struct (Scale.u64.pair .bool) (fun (requestId, success) => { requestId, success })
    (fun x => (x.requestId, x.success)) fun _ => rfl

def AppendEntriesReq.scale : Scale AppendEntriesReq :=
  .struct
    (Scale.u64.pair <| Scale.u64.pair <| Scale.u64.pair <| Scale.u64.pair <|
      Scale.u64.pair Entry.scale.vec)
    (fun (requestId, term, prevLogIndex, prevLogTerm, commitLogIndex, entries) =>
      { requestId, term, prevLogIndex, prevLogTerm, commitLogIndex, entries })
    (fun x => (x.requestId, x.term, x.prevLogIndex, x.prevLogTerm, x.commitLogIndex, x.entries))
    fun _ => rfl

def AppendEntriesRes.scale : Scale AppendEntriesRes :=
  .struct (Scale.u64.pair <| Scale.bool.pair <| Scale.u64.pair <| Scale.u64.pair .u64)
    (fun (requestId, success, term, lastLogIndex, lastLogTerm) =>
      { requestId, success, term, lastLogIndex, lastLogTerm })
    (fun x => (x.requestId, x.success, x.term, x.lastLogIndex, x.lastLogTerm)) fun _ => rfl

def RequestVoteReq.scale : Scale RequestVoteReq :=
  .struct (Scale.u64.pair <| Scale.u64.pair <| Scale.u64.pair .u64)
    (fun (requestId, term, lastLogIndex, lastLogTerm) =>
      { requestId, term, lastLogIndex, lastLogTerm })
    (fun x => (x.requestId, x.term, x.lastLogIndex, x.lastLogTerm)) fun _ => rfl

def RequestVoteRes.scale : Scale RequestVoteRes :=
  .struct (Scale.u64.pair <| Scale.u64.pair .bool)
    (fun (requestId, term, voteGranted) => { requestId, term, voteGranted })
    (fun x => (x.requestId, x.term, x.voteGranted)) fun _ => rfl

def RequestProposalReq.scale : Scale RequestProposalReq :=
  .struct .u64 RequestProposalReq.mk RequestProposalReq.requestId fun _ => rfl

namespace Wire

/-- With the extra election timeout, which the wire carries. -/
structure RequestProposalRes extends Raft.RequestProposalRes where
  extraElectionTimeout : Nat
  deriving DecidableEq, Repr

inductive RaftMessage where
  | registerValidatorReq (req : RegisterValidatorReq)
  | registerValidatorRes (res : RegisterValidatorRes)
  | appendEntriesReq (req : AppendEntriesReq)
  | appendEntriesRes (res : AppendEntriesRes)
  | requestVoteReq (req : RequestVoteReq)
  | requestVoteRes (res : RequestVoteRes)
  | requestProposalReq (req : RequestProposalReq)
  | requestProposalRes (res : RequestProposalRes)
  deriving DecidableEq, Repr

def RequestProposalRes.scale : Scale RequestProposalRes :=
  .struct (Scale.u64.pair <| Scale.u64.pair Proposal.scale.option)
    (fun (requestId, extraElectionTimeout, proposal) =>
      { requestId, extraElectionTimeout, proposal })
    (fun x => (x.requestId, x.extraElectionTimeout, x.proposal)) fun _ => rfl

namespace RaftMessage

def variants : List (Variant String RaftMessage) :=
  [.of "RegisterValidatorReq" RegisterValidatorReq.scale .registerValidatorReq
      fun | .registerValidatorReq v => some v | _ => none,
    .of "RegisterValidatorRes" RegisterValidatorRes.scale .registerValidatorRes
      fun | .registerValidatorRes v => some v | _ => none,
    .of "AppendEntriesReq" AppendEntriesReq.scale .appendEntriesReq
      fun | .appendEntriesReq v => some v | _ => none,
    .of "AppendEntriesRes" AppendEntriesRes.scale .appendEntriesRes
      fun | .appendEntriesRes v => some v | _ => none,
    .of "RequestVoteReq" RequestVoteReq.scale .requestVoteReq
      fun | .requestVoteReq v => some v | _ => none,
    .of "RequestVoteRes" RequestVoteRes.scale .requestVoteRes
      fun | .requestVoteRes v => some v | _ => none,
    .of "RequestProposalReq" RequestProposalReq.scale .requestProposalReq
      fun | .requestProposalReq v => some v | _ => none,
    .of "RequestProposalRes" RequestProposalRes.scale .requestProposalRes
      fun | .requestProposalRes v => some v | _ => none]

theorem named_variants : Scale.Named variants where
  nodup := by decide +kernel
  short := by decide +kernel
  covers := by intro m; cases m <;> simp [variants, Variant.of]

def scale : Scale RaftMessage := .enumCodec variants named_variants

end RaftMessage

end Wire

end Raft

/-! ## All messages -/

namespace Sync.Sample

/-- A header, a body with a signed transaction and a proof, in the collections and options
that the message holds them in. -/
def response (requestId : Nat) : BlockResponse where
  requestId := requestId
  blocks :=
    [{ number := 1
       blockHash := ⟨[1]⟩
       header := some
        { number := 1
          timestamp := 2
          parentHash := ⟨[0]⟩
          metaTxsRoot := ⟨[2]⟩
          metaStateRoot := ⟨[3]⟩
          metaReceiptsRoot := ⟨[4]⟩
          payloadTxsRoot := ⟨[5]⟩
          payloadExecutionGap := -1
          payloadExecutionStateRoot := ⟨[6]⟩
          payloadExecutionReceiptsRoot := ⟨[7]⟩ }
       body := some
        { metaTxs := []
          payloadTxs :=
            [{ witness := some
                { publicKey := ⟨[8]⟩, signature := ⟨[9]⟩, nonce := 3, untilNumber := 4 }
               call := { module := "balance", method := "transfer", params := [10, 11] } }] }
       proof := some { name := "poa", data := [12] } }]

end Sync.Sample

/-- The message of the tests of the coordinator. -/
example : Sync.ProtocolMessage.scale.encode (.handshake ⟨⟨[1, 2, 3]⟩, 1, ⟨[4, 5, 6]⟩, 2⟩) =
    some [36, 72, 97, 110, 100, 115, 104, 97, 107, 101, 12, 1, 2, 3, 1, 0, 0, 0, 0, 0, 0, 0,
      12, 4, 5, 6, 2, 0, 0, 0, 0, 0, 0, 0] := by
  decide +kernel

end Finastate
