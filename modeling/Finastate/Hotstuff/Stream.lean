import Finastate.Hotstuff.Verifier

/-!
# The HotStuff stream

`stream.rs`: the state of a running node and the handlers that do not depend
on its role. A handler takes the stream and returns it with an `Outcome`; an
error ends the handler but keeps what it has written, a panic also ends the
task. What the code leaves open (the iteration order of a hash map, a random
choice, the transaction pool) is read from an `Oracle`.

Four fields record a run and are never read by a handler: `signed` (what the
node has signed), `received` (the consensus messages it has received),
`history` (every value its storage has had) and `trace` (what the handlers
acted on, with the storage they found).
-/

namespace Finastate.Hotstuff

abbrev PeerId := Bytes

structure PeerInfo where
  localNonce : Nat
  remoteNonce : Nat
  address : Option Address
  deriving DecidableEq, Repr

inductive InternalMessage where
  | validatorRegistered (address : Address) (peerId : PeerId)
  | consensusMessage (message : ConsensusMessage) (peerId : PeerId)
  | proposal (address : Address) (proposal : Proposal)
  deriving DecidableEq, Repr

inductive State where
  | leader
  | replica
  | observer
  deriving DecidableEq, Repr

/-- The fields of `LeaderState` beside the stream it borrows. -/
structure LeaderState where
  newViewCollector : List (Address × ConsensusMessage)
  prepareCollector : List (Address × ConsensusMessage)
  preCommitCollector : List (Address × ConsensusMessage)
  commitCollector : List (Address × ConsensusMessage)
  workScheduleSignal : Option Nat
  workNewViewSignal : Option QC
  pendingRemoteProposal : Option Hash
  prepareMessage : Option ConsensusMessage
  preCommitMessage : Option ConsensusMessage
  commitMessage : Option ConsensusMessage
  decideMessage : Option ConsensusMessage
  deriving DecidableEq, Repr

def LeaderState.new : LeaderState where
  newViewCollector := []
  prepareCollector := []
  preCommitCollector := []
  commitCollector := []
  workScheduleSignal := none
  workNewViewSignal := none
  pendingRemoteProposal := none
  prepareMessage := none
  preCommitMessage := none
  commitMessage := none
  decideMessage := none

/-- What a handler acts on: a consensus message in a phase handler, a proposal
of the leader itself, a timeout message, a block learnt from a peer. -/
inductive Action where
  | phase (message : ConsensusMessage) (address : Address)
  | propose (node : Node) (highQc : QC)
  | timeout (message : TimeoutMessage) (address : Address)
  | sync (block : ConfirmedBlock)
  deriving DecidableEq, Repr

/-- An action and the node that takes it, as it was before. -/
structure Entry where
  action : Action
  state : State
  storage : Storage
  authorities : Authorities
  lastAuthorities : Authorities
  /-- The timeout messages that are collected. -/
  timeouts : List (Nat × List (Address × TimeoutMessage))
  deriving DecidableEq, Repr

/-- `HotStuffStream`; the schedule of the next timeout is left open. -/
structure Stream where
  secretKey : SecretKey
  publicKey : PublicKey
  address : Address
  out : List (PeerId × HotStuffMessage)
  peers : List (PeerId × PeerInfo)
  knownValidators : List (Address × PeerId)
  nextRequestId : Nat
  storage : Storage
  currentLeader : Option Address
  state : State
  leader : LeaderState
  /-- The view that the running role was started in. -/
  currentView : Nat
  authorities : Authorities
  lastAuthorities : Authorities
  internal : List InternalMessage
  /-- The blocks of the chain that the stream has not been told of yet. -/
  notices : Nat
  /-- The blocks of the chain that the storage has not been refreshed with. -/
  unread : Nat
  commitBlockParams : Option CommitBlockParams
  pendingConsensusMessages : List (PeerId × List ConsensusMessage)
  pendingNewViewMessages : List (ConsensusMessage × Address)
  timeoutMessageCollector : List (Nat × List (Address × TimeoutMessage))
  timeoutTc : Option TC
  halted : Bool
  signed : List SigMessage
  received : List ConsensusMessage
  history : List Storage
  trace : List Entry
  deriving DecidableEq, Repr

/-- The order in which a hash map is walked through: some order of its keys. -/
structure IterOrder where
  keys : List Address → List Address
  perm : ∀ l, (keys l).Perm l

def IterOrder.iterate {α : Type} (order : IterOrder) (m : List (Address × α)) :
    List (Address × α) :=
  (order.keys (m.map Prod.fst)).filterMap fun address =>
    (AssocMap.get? m address).map fun a => (address, a)

/-- What the code leaves open during one event. The transactions are the valid
ones of the pool. -/
structure Oracle where
  executedNumber : BlockNumber
  metaTxs : List FullTransaction
  payloadTxs : List FullTransaction
  genRange : (n : Nat) → Fin (n + 1)
  order : MessageType → IterOrder
  timeoutOrder : IterOrder

inductive Stop where
  | err (e : Consensus.HandlerError)
  | panic (msg : String)
  deriving DecidableEq, Repr

abbrev Outcome := Except Stop Unit

/-- `Ok(())`. -/
def done (s : Stream) : Stream × Outcome := (s, .ok ())

/-- `?` after a handler. -/
def andThen (r : Stream × Outcome) (k : Stream → Stream × Outcome) : Stream × Outcome :=
  match r.2 with
  | .ok () => k r.1
  | .error e => (r.1, .error e)

namespace TimeoutMessageCollector

def add (m : List (Nat × List (Address × TimeoutMessage))) (address : Address)
    (message : TimeoutMessage) : List (Nat × List (Address × TimeoutMessage)) :=
  let messages := (AssocMap.get? m message.view).getD []
  AssocMap.insert m message.view
    (if (AssocMap.get? messages address).isSome then messages
      else AssocMap.insert messages address message)

/-- The loop of `get_tc`. -/
def collect (authorities : Authorities) :
    List (Address × TimeoutMessage) → Nat → List (PublicKey × Signature) →
      Except Stop (Option TC)
  | [], _, _ => .ok none
  | (address, message) :: messages, totalWeight, tcSig =>
      match Weights.weight? authorities.members address, message.sig with
      | some _, none => .error (.panic "qed")
      | some weight, some sig =>
          let totalWeight := wrapAdd 32 totalWeight weight
          if authorities.quorum ≤ totalWeight then
            .ok (some { view := message.view, sig := tcSig ++ [sig] })
          else collect authorities messages totalWeight (tcSig ++ [sig])
      | none, _ =>
          if authorities.quorum ≤ totalWeight then
            .ok (some { view := message.view, sig := tcSig })
          else collect authorities messages totalWeight tcSig

def getTc (order : IterOrder) (m : List (Nat × List (Address × TimeoutMessage)))
    (authorities : Authorities) (view : Nat) : Except Stop (Option TC) :=
  match AssocMap.get? m view with
  | none => .ok none
  | some messages => collect authorities (order.iterate messages) 0 []

def cleanup (m : List (Nat × List (Address × TimeoutMessage))) (view : Nat) :
    List (Nat × List (Address × TimeoutMessage)) :=
  m.filter fun p => view < p.1

end TimeoutMessageCollector

namespace Stream

variable (support : Support) (oracle : Oracle)

/-! ## Records of the run -/

def note (s : Stream) (action : Action) : Stream :=
  { s with
    trace :=
      { action, state := s.state, storage := s.storage, authorities := s.authorities,
        lastAuthorities := s.lastAuthorities, timeouts := s.timeoutMessageCollector } ::
        s.trace }

def setStorage (s : Stream) (storage : Storage) : Stream :=
  { s with storage, history := storage :: s.history }

/-! ## Messages out -/

def sign (s : Stream) (message : SigMessage) : Stream × Signature :=
  ({ s with signed := message :: s.signed }, support.basic.sign message s.secretKey)

/-- `request`: the message gets the next request id. -/
def request (s : Stream) (peerId : PeerId) (message : Nat → HotStuffMessage) : Stream :=
  { s with
    nextRequestId := if s.nextRequestId + 1 < 2 ^ 64 then s.nextRequestId + 1 else 0
    out := (peerId, message s.nextRequestId) :: s.out }

def response (s : Stream) (peerId : PeerId) (message : HotStuffMessage) : Stream :=
  { s with out := (peerId, message) :: s.out }

/-- `request_proposal`, `consensus_message` and `timeout_message`: a request to
the peer of a validator, if one is known. -/
def requestTo (s : Stream) (address : Address) (message : Nat → HotStuffMessage) : Stream :=
  match AssocMap.get? s.knownValidators address with
  | some peerId => s.request peerId message
  | none => s

def requestProposal (s : Stream) (address : Address) (req : RequestProposalReq) : Stream :=
  s.requestTo address fun requestId => .requestProposalReq { req with requestId }

def consensusMessage (s : Stream) (address : Address) (req : ConsensusMessage) : Stream :=
  s.requestTo address fun requestId => .consensusMessage { req with requestId }

def timeoutMessage (s : Stream) (address : Address) (req : TimeoutMessage) : Stream :=
  s.requestTo address fun requestId => .timeoutMessage { req with requestId }

/-- The addresses of the members other than the node itself. -/
def others (s : Stream) : List Address :=
  (s.authorities.members.map Prod.fst).filter fun address => address ≠ s.address

def getPeerAddress (s : Stream) (peerId : PeerId) : Option Address :=
  (AssocMap.get? s.peers peerId).bind PeerInfo.address

def registerValidator (s : Stream) (peerId : PeerId) : Stream :=
  match AssocMap.get? s.peers peerId with
  | none => s
  | some peerInfo =>
      let (s, signature) := s.sign support (.nonce peerInfo.remoteNonce)
      s.request peerId fun requestId =>
        .registerValidatorReq { requestId, publicKey := s.publicKey, signature }

/-! ## Timeouts -/

def advanceView (s : Stream) (view : Nat) : Stream :=
  { s.setStorage (s.storage.updateView (wrapAdd 64 view 1)) with
    timeoutMessageCollector :=
      TimeoutMessageCollector.cleanup s.timeoutMessageCollector view }

/-- `process tc`: nothing is returned when the attached certificate is not
valid. -/
def processTc (s : Stream) (message : TimeoutMessage) : Option Stream :=
  match message.justify with
  | none => some s
  | some justify =>
      if s.storage.view ≤ justify.view then
        match verifyTc support.basic justify s.authorities with
        | .error _ => none
        | .ok () => some (s.advanceView justify.view)
      else some s

/-- The end of `on_timeout_new_timeout`: the message is collected, and a
certificate that is complete now moves the node on and is sent around. -/
def collectTimeout (s : Stream) (message : TimeoutMessage) (address : Address) :
    Stream × Outcome :=
  let s :=
    { s with
      timeoutMessageCollector :=
        TimeoutMessageCollector.add s.timeoutMessageCollector address message }
  match TimeoutMessageCollector.getTc oracle.timeoutOrder s.timeoutMessageCollector
      s.authorities message.view with
  | .error e => (s, .error e)
  | .ok none => done s
  | .ok (some tc) =>
      let s := { s with timeoutTc := some tc }.advanceView tc.view
      let decideMessage : TimeoutMessage :=
        { requestId := 0, messageType := .decide, view := tc.view, justify := some tc,
          sig := none }
      done (s.others.foldl (fun s address => s.timeoutMessage address decideMessage) s)

def onTimeoutNewTimeout (s : Stream) (message : TimeoutMessage) (address : Address) :
    Stream × Outcome :=
  match message.sig with
  | none => done s
  | some (publicKey, signature) =>
      if support.basic.address publicKey ≠ address then done s
      else
        match support.basic.verify (.timeout message.messageType message.view) publicKey
            signature with
        | .error _ => done s
        | .ok () =>
            match s.processTc support message with
            | none => done s
            | some s => s.collectTimeout oracle message address

def onTimeoutDecide (s : Stream) (message : TimeoutMessage) : Stream × Outcome :=
  match message.justify with
  | none => done s
  | some justify =>
      match verifyTc support.basic justify s.authorities with
      | .error _ => done s
      | .ok () => done (s.advanceView justify.view)

def onTimeoutMessage (s : Stream) (message : TimeoutMessage) (address : Address) :
    Stream × Outcome :=
  if message.view < s.storage.view then done s
  else
    let s := s.note (.timeout message address)
    match message.messageType with
    | .newTimeout => s.onTimeoutNewTimeout support oracle message address
    | .decide => s.onTimeoutDecide support message

def onTimeout (s : Stream) : Stream × Outcome :=
  let view := s.storage.view
  let justify := s.timeoutTc
  let (s, sig) := s.sign support (.timeout .newTimeout view)
  let message : TimeoutMessage :=
    { requestId := 0, messageType := .newTimeout, view, justify,
      sig := some (s.publicKey, sig) }
  let addresses := s.others
  andThen (s.onTimeoutMessage support oracle message s.address) fun s =>
    done (addresses.foldl (fun s address => s.timeoutMessage address message) s)

/-! ## Proposals and blocks -/

/-- `on_proposal`: a proposal that passes is stored, with its block kept for
the commit; a verify error drops it. -/
def onProposal (s : Stream) (proposal : Proposal) : Stream × Outcome :=
  match Verifier.verifyProposal support s.storage.chain oracle.executedNumber proposal with
  | .ok commitBlockParams =>
      done ({ s with commitBlockParams := some commitBlockParams }.setStorage
        (s.storage.putProposal proposal))
  | .error (.verifyError _) => done s
  | .error (.other e) => (s, .error (.err e))

/-- `on_decide` of the stream. -/
def onDecide (s : Stream) (commitBlockParams : CommitBlockParams) (commitQc : QC) :
    Stream × Outcome :=
  match support.commitBlock s.storage.chain commitBlockParams commitQc with
  | .error e => (s, .error (.err (.chain e)))
  | .ok chain =>
      done
        { s.setStorage { s.storage with chain } with
          notices := s.notices + 1
          unread := s.unread + 1 }

def onBlockCommitted (s : Stream) : Stream × Outcome :=
  match Storage.refresh support s.storage.chain s.storage.db with
  | none => (s, .error (.panic "index out of bounds"))
  | some storage =>
      done
        { s.setStorage storage with
          authorities :=
            support.getHotstuffAuthorities storage.chain storage.chain.length
          lastAuthorities := s.authorities
          unread := 0 }

/-! ## Messages in -/

def onNetworkProtocolOpen (s : Stream) (peerId : PeerId) (localNonce remoteNonce : Nat) :
    Stream :=
  { s with
    peers := AssocMap.insert s.peers peerId
      { localNonce, remoteNonce, address := none } }.registerValidator support peerId

def onNetworkProtocolClose (s : Stream) (peerId : PeerId) : Stream :=
  { s with
    knownValidators :=
      match s.getPeerAddress peerId with
      | some address => AssocMap.erase s.knownValidators address
      | none => s.knownValidators
    peers := AssocMap.erase s.peers peerId }

def onReqRegisterValidator (s : Stream) (peerId : PeerId) (req : RegisterValidatorReq) :
    Stream × RegisterValidatorRes :=
  match AssocMap.get? s.peers peerId with
  | none => (s, { requestId := req.requestId, success := false })
  | some peerInfo =>
      match support.basic.verify (.nonce peerInfo.localNonce) req.publicKey
          req.signature with
      | .error _ => (s, { requestId := req.requestId, success := false })
      | .ok () =>
          let address := support.basic.address req.publicKey
          ({ s with
              peers := AssocMap.insert s.peers peerId
                { peerInfo with address := some address }
              knownValidators := AssocMap.insert s.knownValidators address peerId
              internal := s.internal ++ [.validatorRegistered address peerId] },
            { requestId := req.requestId, success := true })

def onReqRequestProposal (s : Stream) (peerId : PeerId) (req : RequestProposalReq) :
    Stream × Outcome :=
  match s.storage.getProposal req.blockHash with
  | none => (s, .error (.err (.data "Missing proposal on req request proposal")))
  | some proposal =>
      done (s.response peerId
        (.requestProposalRes { requestId := req.requestId, proposal := some proposal }))

def onResRequestProposal (s : Stream) (address : Address) (res : RequestProposalRes) :
    Stream × Outcome :=
  match res.proposal with
  | none => done s
  | some proposal =>
      andThen (s.onProposal support oracle proposal) fun s =>
        done { s with internal := s.internal ++ [.proposal address proposal] }

def onNetworkMessage (s : Stream) (peerId : PeerId) : HotStuffMessage → Stream × Outcome
  | .registerValidatorReq req =>
      let (s, res) := s.onReqRegisterValidator support peerId req
      done (s.response peerId (.registerValidatorRes res))
  | .registerValidatorRes _ => done s
  | .requestProposalReq req =>
      match s.getPeerAddress peerId with
      | some _ => s.onReqRequestProposal peerId req
      | none => done s
  | .requestProposalRes res =>
      match s.getPeerAddress peerId with
      | some address => s.onResRequestProposal support oracle address res
      | none => done s
  | .consensusMessage message =>
      done
        { s with
          internal := s.internal ++ [.consensusMessage message peerId]
          received := message :: s.received }
  | .timeoutMessage message =>
      match s.getPeerAddress peerId with
      | some address => s.onTimeoutMessage support oracle message address
      | none => done s

end Stream

end Finastate.Hotstuff
