import Finastate.Hotstuff.Stream

/-!
# The roles of a node

`stream/state.rs`: the handlers of the leader, the replica and the observer,
the collectors of messages, and the loop that runs a role for as long as the
view stays the same. The handlers of the leader call one another down to
`onDecide`, because the leader votes for its own messages.
-/

namespace Finastate.Hotstuff

namespace ConsensusMessageCollector

/-- The loop of `get_high_qc`. -/
def collectHighQc (authorities : Authorities) :
    List (Address × ConsensusMessage) → Nat → Option QC → Except Stop (Option QC)
  | [], _, _ => .ok none
  | (address, message) :: messages, totalWeight, highQc =>
      match message.justify with
      | none => .error (.panic "qed")
      | some justify =>
          match Weights.weight? authorities.members address with
          | some weight =>
              let totalWeight := wrapAdd 32 totalWeight weight
              let highQc :=
                match highQc with
                | none => some justify
                | some highQc =>
                    if highQc.view < justify.view then some justify else some highQc
              if authorities.quorum ≤ totalWeight then .ok highQc
              else collectHighQc authorities messages totalWeight highQc
          | none =>
              if authorities.quorum ≤ totalWeight then .ok highQc
              else collectHighQc authorities messages totalWeight highQc

def getHighQc (order : IterOrder) (m : List (Address × ConsensusMessage))
    (authorities : Authorities) : Except Stop (Option QC) :=
  collectHighQc authorities (order.iterate m) 0 none

def getHighQcAddresses (order : IterOrder) (m : List (Address × ConsensusMessage))
    (qc : QC) : List Address :=
  ((order.iterate m).filter fun p => p.2.justify = some qc).map Prod.fst

/-- The certificate of the message at which the weight is reached. -/
def qcOf (message : ConsensusMessage) (leaderAddress : Address)
    (sig : List (PublicKey × Signature)) : Except Stop (Option QC) :=
  match message.node with
  | none => .error (.panic "qed")
  | some node =>
      .ok (some { messageType := message.messageType, view := message.view, node,
                  leaderAddress, sig })

/-- The loop of `get_qc`. -/
def collectQc (authorities : Authorities) (leaderAddress : Address) :
    List (Address × ConsensusMessage) → Nat → List (PublicKey × Signature) →
      Except Stop (Option QC)
  | [], _, _ => .ok none
  | (address, message) :: messages, totalWeight, qcSig =>
      match Weights.weight? authorities.members address, message.sig with
      | some _, none => .error (.panic "qed")
      | some weight, some sig =>
          let totalWeight := wrapAdd 32 totalWeight weight
          if authorities.quorum ≤ totalWeight then qcOf message leaderAddress (qcSig ++ [sig])
          else collectQc authorities leaderAddress messages totalWeight (qcSig ++ [sig])
      | none, _ =>
          if authorities.quorum ≤ totalWeight then qcOf message leaderAddress qcSig
          else collectQc authorities leaderAddress messages totalWeight qcSig

def getQc (order : IterOrder) (m : List (Address × ConsensusMessage))
    (authorities : Authorities) (leaderAddress : Address) : Except Stop (Option QC) :=
  collectQc authorities leaderAddress (order.iterate m) 0 []

end ConsensusMessageCollector

namespace Stream

/-- `sign_message`, the same in the leader and the replica. -/
def signMessage (support : Support) (s : Stream) (message : ConsensusMessage) :
    Except Stop (Stream × ConsensusMessage) :=
  match s.currentLeader with
  | none => .error (.panic "qed")
  | some leaderAddress =>
      let (s, sig) := s.sign support
        (.vote message.messageType message.view message.node leaderAddress)
      .ok (s, { message with sig := some (s.publicKey, sig) })

/-- The handler of a decide message in both roles: `take` empties the field
even when the block is another one. -/
def decideBlock (support : Support) (s : Stream) (commitQc : QC) : Stream × Outcome :=
  match s.storage.getProposal commitQc.node.blockHash with
  | none => done s
  | some proposal =>
      match s.commitBlockParams with
      | none => done s
      | some params =>
          let s := { s with commitBlockParams := none }
          if params.blockHash = proposal.blockHash then s.onDecide support params commitQc
          else done s

/-- The authorities that a justify is checked against: the certificate of the
base block was signed by the ones before it. -/
def justifyAuthorities (s : Stream) (justify : QC) : Authorities :=
  if justify.view = s.storage.baseCommitQc.view then s.lastAuthorities else s.authorities

/-- `safe_node` of `on_prepare`. -/
def safeNode (storage : Storage) (node : Node) (justify : QC) : Bool :=
  let base := storage.baseCommitQc.node.blockHash
  let locked := storage.lockedQc
  let extendFromJustifyNode :=
    if justify.node.blockHash = base then decide (node.parentHash = base)
    else decide (node.blockHash = justify.node.blockHash)
  let extendFromLockedQcNode :=
    if locked.node.blockHash = base then decide (node.parentHash = base)
    else decide (node.blockHash = locked.node.blockHash)
  let higherView := decide (locked.view < justify.view)
  extendFromJustifyNode && (extendFromLockedQcNode || higherView)

/-- `prepare_block` of the support. -/
def prepareBlock (support : Support) (oracle : Oracle) (chain : Chain) (timestamp : Nat) :
    Except Consensus.HandlerError BuildBlockParams :=
  let number := chain.length + 1
  let gap := Int.bmod (wrapSub 64 number oracle.executedNumber) (2 ^ 8)
  if support.maxExecutionGap chain < gap then
    .error (.data (Chain.gapExceeds gap (support.maxExecutionGap chain)))
  else
    .ok { number, timestamp, metaTxs := oracle.metaTxs, payloadTxs := oracle.payloadTxs,
          executionNumber := oracle.executedNumber }

end Stream

namespace LeaderState

variable (support : Support) (oracle : Oracle)

/-- The own vote is filled in and signed; the vote of another validator must
carry its signature and the proposed node. -/
def verifyMessage (s : Stream) (message : ConsensusMessage) (address : Address) :
    Except Stop (Stream × ConsensusMessage) :=
  if s.address = address then
    match s.leader.prepareMessage with
    | none => .error (.panic "qed")
    | some prepareMessage =>
        s.signMessage support { message with node := prepareMessage.node, justify := none }
  else
    match message.sig with
    | none => .error (.err (.messageError "Missing sig"))
    | some (publicKey, signature) =>
        if support.basic.address publicKey ≠ address then
          .error (.err (.messageError "Unexpected address"))
        else
          match support.basic.verify
              (.vote message.messageType message.view message.node s.address)
              publicKey signature with
          | .error e => .error (.err (.crypto e))
          | .ok () =>
              match s.leader.prepareMessage with
              | none => .error (.panic "qed")
              | some prepareMessage =>
                  if message.node ≠ prepareMessage.node then
                    .error (.err (.messageError "Unexpected node"))
                  else .ok (s, message)

/-- Add a vote to the collector of its phase. -/
def addVote (l : LeaderState) (t : MessageType) (address : Address)
    (message : ConsensusMessage) : LeaderState :=
  match t with
  | .prepare =>
      { l with prepareCollector := AssocMap.insert l.prepareCollector address message }
  | .preCommit =>
      { l with preCommitCollector := AssocMap.insert l.preCommitCollector address message }
  | .commit =>
      { l with commitCollector := AssocMap.insert l.commitCollector address message }
  | _ => l

/-- The common start of the three vote handlers: an error of the verification
drops the vote, else it enters the collector. -/
def withVote (t : MessageType) (s : Stream) (message : ConsensusMessage)
    (address : Address) (k : Stream → Stream × Outcome) : Stream × Outcome :=
  match verifyMessage support s message address with
  | .error (.err _) => done s
  | .error (.panic msg) => (s, .error (.panic msg))
  | .ok (s, message) => k { s with leader := s.leader.addVote t address message }

/-- A message of the leader in its current view. -/
def ownMessage (s : Stream) (messageType : MessageType) (node : Option Node)
    (justify : QC) : ConsensusMessage :=
  { requestId := 0, messageType, view := s.storage.view, node, justify := some justify,
    sig := none }

def broadcastMessage (s : Stream) (message : ConsensusMessage) : Stream :=
  s.others.foldl (fun s address => s.consensusMessage address message) s

def onCommit (s : Stream) (message : ConsensusMessage) (address : Address) :
    Stream × Outcome :=
  withVote support .commit s message address fun s =>
    match ConsensusMessageCollector.getQc (oracle.order .commit) s.leader.commitCollector
        s.authorities s.address with
    | .error e => (s, .error e)
    | .ok none => done s
    | .ok (some commitQc) =>
        if s.leader.decideMessage.isSome then done s
        else
          let decideMessage := ownMessage s .decide none commitQc
          let s := { s with leader.decideMessage := some decideMessage }
          andThen (s.decideBlock support commitQc) fun s =>
            done (broadcastMessage s decideMessage)

def onPreCommit (s : Stream) (message : ConsensusMessage) (address : Address) :
    Stream × Outcome :=
  withVote support .preCommit s message address fun s =>
    match ConsensusMessageCollector.getQc (oracle.order .preCommit)
        s.leader.preCommitCollector s.authorities s.address with
    | .error e => (s, .error e)
    | .ok none => done s
    | .ok (some preCommitQc) =>
        if s.leader.commitMessage.isSome then done s
        else
          let s := s.setStorage (s.storage.updateLockedQc preCommitQc)
          let commitMessage := ownMessage s .commit none preCommitQc
          let s := { s with leader.commitMessage := some commitMessage }
          andThen (onCommit support oracle s commitMessage s.address) fun s =>
            done (broadcastMessage s commitMessage)

def onPrepare (s : Stream) (message : ConsensusMessage) (address : Address) :
    Stream × Outcome :=
  withVote support .prepare s message address fun s =>
    match ConsensusMessageCollector.getQc (oracle.order .prepare) s.leader.prepareCollector
        s.authorities s.address with
    | .error e => (s, .error e)
    | .ok none => done s
    | .ok (some prepareQc) =>
        if s.leader.preCommitMessage.isSome then done s
        else
          let s := s.setStorage (s.storage.updatePrepareQc prepareQc)
          let preCommitMessage := ownMessage s .preCommit none prepareQc
          let s := { s with leader.preCommitMessage := some preCommitMessage }
          andThen (onPreCommit support oracle s preCommitMessage s.address) fun s =>
            done (broadcastMessage s preCommitMessage)

/-- Send the proposal and the prepare message to the other members. -/
def sendProposal (s : Stream) (proposal : Proposal) (prepareMessage : ConsensusMessage) :
    Stream :=
  s.others.foldl
    (fun s address =>
      let s :=
        match AssocMap.get? s.knownValidators address with
        | some peerId =>
            s.response peerId
              (.requestProposalRes { requestId := 0, proposal := some proposal })
        | none => s
      s.consensusMessage address prepareMessage) s

def onProposal (s : Stream) (proposal : Proposal) : Stream × Outcome :=
  match s.leader.workNewViewSignal with
  | none => (s, .error (.panic "qed"))
  | some highQc =>
      let node : Node :=
        { blockHash := proposal.blockHash, parentHash := proposal.parentHash }
      let s := s.note (.propose node highQc)
      let prepareMessage := ownMessage s .prepare (some node) highQc
      let s := { s with leader.prepareMessage := some prepareMessage }
      andThen (onPrepare support oracle s prepareMessage s.address) fun s =>
        done (sendProposal s proposal prepareMessage)

def createProposal (s : Stream) (timestamp : Nat) : Stream × Outcome :=
  match Stream.prepareBlock support oracle s.storage.chain timestamp with
  | .error e => (s, .error (.err e))
  | .ok params =>
      match support.buildBlock s.storage.chain params with
      | .error e => (s, .error (.err (.chain e)))
      | .ok commitBlockParams =>
          let proposal : Proposal :=
            { parentHash := commitBlockParams.header.parentHash
              blockHash := commitBlockParams.blockHash
              number := params.number
              timestamp := params.timestamp
              metaTxs := params.metaTxs.map FullTransaction.tx
              payloadTxs := params.payloadTxs.map FullTransaction.tx
              executionNumber := params.executionNumber }
          onProposal support oracle
            ({ s with commitBlockParams := some commitBlockParams }.setStorage
              (s.storage.putProposal proposal)) proposal

/-- The transactions of a proposal with their hashes. -/
def getTxs (txs : List Transaction) : List FullTransaction :=
  txs.map fun tx => { txHash := support.hashTransaction tx, tx }

def onLocalProposal (s : Stream) (proposal : Proposal) : Stream × Outcome :=
  if s.commitBlockParams.map CommitBlockParams.blockHash = some proposal.blockHash then
    onProposal support oracle s proposal
  else
    match support.buildBlock s.storage.chain
        { number := proposal.number
          timestamp := proposal.timestamp
          metaTxs := getTxs support proposal.metaTxs
          payloadTxs := getTxs support proposal.payloadTxs
          executionNumber := proposal.executionNumber } with
    | .error e => (s, .error (.err (.chain e)))
    | .ok commitBlockParams =>
        onProposal support oracle { s with commitBlockParams := some commitBlockParams }
          proposal

/-- `reuse_proposal`; choosing among no addresses panics. -/
def reuseProposal (s : Stream) (highQc : QC) : Stream × Outcome :=
  match s.storage.getProposal highQc.node.blockHash with
  | some proposal => onLocalProposal support oracle s proposal
  | none =>
      let remoteAddresses :=
        (ConsensusMessageCollector.getHighQcAddresses (oracle.order .newView)
          s.leader.newViewCollector highQc).filter fun address => address ≠ s.address
      match remoteAddresses with
      | [] => (s, .error (.panic "empty range"))
      | first :: rest =>
          let targetAddress := (first :: rest).get (oracle.genRange rest.length)
          let s := s.requestProposal targetAddress
            { requestId := 0, blockHash := highQc.node.blockHash }
          done { s with leader.pendingRemoteProposal := some highQc.node.blockHash }

def work (s : Stream) (highQc : QC) (timestamp : Nat) : Stream × Outcome :=
  let base := s.storage.baseCommitQc.node.blockHash
  if highQc.node.blockHash = base then createProposal support oracle s timestamp
  else if highQc.node.parentHash = base then reuseProposal support oracle s highQc
  else done s

def tryWork (s : Stream) (workScheduleSignal : Option Nat) (workNewViewSignal : Option QC) :
    Stream × Outcome :=
  let s :=
    { s with
      leader :=
        { s.leader with
          workScheduleSignal := workScheduleSignal.or s.leader.workScheduleSignal
          workNewViewSignal := workNewViewSignal.or s.leader.workNewViewSignal } }
  match s.leader.workNewViewSignal, s.leader.workScheduleSignal with
  | some highQc, some timestamp =>
      if s.leader.prepareMessage.isNone ∧ s.leader.pendingRemoteProposal.isNone then
        work support oracle s highQc timestamp
      else done s
  | _, _ => done s

def onRemoteProposal (s : Stream) (proposal : Proposal) : Stream × Outcome :=
  match s.leader.pendingRemoteProposal with
  | none => done s
  | some pending =>
      if pending ≠ proposal.blockHash then done s
      else
        onLocalProposal support oracle { s with leader.pendingRemoteProposal := none }
          proposal

def onNewView (s : Stream) (message : ConsensusMessage) (address : Address) :
    Stream × Outcome :=
  let s := s.note (.phase message address)
  match message.justify with
  | none => done s
  | some justify =>
      match verifyQc support.basic justify none (s.justifyAuthorities justify) with
      | .error _ => done s
      | .ok () =>
          let s :=
            { s with
              leader.newViewCollector :=
                AssocMap.insert s.leader.newViewCollector address message }
          match ConsensusMessageCollector.getHighQc (oracle.order .newView)
              s.leader.newViewCollector s.authorities with
          | .error e => (s, .error e)
          | .ok none => done s
          | .ok (some highQc) =>
              if s.leader.workNewViewSignal.isSome then done s
              else tryWork support oracle s none (some highQc)

def onValidatorConsensusMessage (s : Stream) (message : ConsensusMessage)
    (address : Address) : Stream × Outcome :=
  if message.view ≠ s.storage.view then done s
  else
    match message.messageType with
    | .newView => onNewView support oracle s message address
    | .prepare => onPrepare support oracle (s.note (.phase message address)) message address
    | .preCommit =>
        onPreCommit support oracle (s.note (.phase message address)) message address
    | .commit => onCommit support oracle (s.note (.phase message address)) message address
    | .decide => done s

/-- `process_pending_new_view`, after the messages have been drained. -/
def processPendingNewView : List (ConsensusMessage × Address) → Stream → Stream × Outcome
  | [], s => done s
  | (message, address) :: messages, s =>
      andThen (onNewView support oracle s message address)
        (processPendingNewView messages)

def sendNewViewToSelf (s : Stream) : Stream × Outcome :=
  onNewView support oracle s (ownMessage s .newView none s.storage.prepareQc) s.address

/-- The part of `start` before the loop. -/
def start (s : Stream) : Stream × Outcome :=
  andThen
    (processPendingNewView support oracle s.pendingNewViewMessages
      { s with pendingNewViewMessages := [] })
    (sendNewViewToSelf support oracle)

end LeaderState

namespace ReplicaState

variable (support : Support)

/-- Sign a vote and send it to the leader, the end of the three vote handlers. -/
def vote (s : Stream) (messageType : MessageType) (view : Nat) (node : Node) :
    Stream × Outcome :=
  match s.signMessage support
      { requestId := 0, messageType, view, node := some node, justify := none,
        sig := none } with
  | .error e => (s, .error e)
  | .ok (s, voteMessage) =>
      match s.currentLeader with
      | none => (s, .error (.panic "qed"))
      | some leaderAddress => done (s.consensusMessage leaderAddress voteMessage)

def sendNewView (s : Stream) : Stream × Outcome :=
  match s.currentLeader with
  | none => (s, .error (.panic "qed"))
  | some leaderAddress =>
      done (s.consensusMessage leaderAddress
        { requestId := 0, messageType := .newView, view := s.storage.view, node := none,
          justify := some s.storage.prepareQc, sig := none })

def onPrepare (s : Stream) (message : ConsensusMessage) : Stream × Outcome :=
  match message.justify with
  | none => done s
  | some justify =>
      match verifyQc support.basic justify none (s.justifyAuthorities justify) with
      | .error _ => done s
      | .ok () =>
          match message.node with
          | none => done s
          | some node =>
              match s.storage.getProposal node.blockHash with
              | none => done s
              | some proposal =>
                  if node.parentHash ≠ proposal.parentHash then done s
                  else if Stream.safeNode s.storage node justify then
                    vote support s message.messageType message.view node
                  else done s

def onPreCommit (s : Stream) (message : ConsensusMessage) : Stream × Outcome :=
  match message.justify with
  | none => done s
  | some justify =>
      match verifyQc support.basic justify (some .prepare) s.authorities with
      | .error _ => done s
      | .ok () =>
          vote support (s.setStorage (s.storage.updatePrepareQc justify))
            message.messageType message.view justify.node

def onCommit (s : Stream) (message : ConsensusMessage) : Stream × Outcome :=
  match message.justify with
  | none => done s
  | some justify =>
      match verifyQc support.basic justify (some .preCommit) s.authorities with
      | .error _ => done s
      | .ok () =>
          vote support (s.setStorage (s.storage.updateLockedQc justify))
            message.messageType message.view justify.node

def onDecide (s : Stream) (message : ConsensusMessage) : Stream × Outcome :=
  match message.justify with
  | none => done s
  | some justify =>
      match verifyQc support.basic justify (some .commit) s.authorities with
      | .error _ => done s
      | .ok () => s.decideBlock support justify

/-- `on_new_view` of the replica and of the observer: kept for the day the node
is the leader. -/
def onNewView (s : Stream) (message : ConsensusMessage) (address : Address) : Stream :=
  { s with pendingNewViewMessages := s.pendingNewViewMessages ++ [(message, address)] }

def onValidatorConsensusMessage (s : Stream) (message : ConsensusMessage)
    (address : Address) : Stream × Outcome :=
  let s := if message.messageType = .newView then onNewView s message address else s
  if message.view ≠ s.storage.view then done s
  else
    match message.messageType with
    | .newView => done s
    | .prepare => onPrepare support (s.note (.phase message address)) message
    | .preCommit => onPreCommit support (s.note (.phase message address)) message
    | .commit => onCommit support (s.note (.phase message address)) message
    | .decide => onDecide support (s.note (.phase message address)) message

end ReplicaState

def ObserverState.onValidatorConsensusMessage (s : Stream) (message : ConsensusMessage)
    (address : Address) : Stream × Outcome :=
  if message.messageType = .newView then done (ReplicaState.onNewView s message address)
  else done s

namespace Stream

variable (support : Support) (oracle : Oracle)

/-- `on_validator_consensus_message` of the current role. -/
def onValidatorConsensusMessage (s : Stream) (message : ConsensusMessage)
    (address : Address) : Stream × Outcome :=
  match s.state with
  | .leader => LeaderState.onValidatorConsensusMessage support oracle s message address
  | .replica => ReplicaState.onValidatorConsensusMessage support s message address
  | .observer => ObserverState.onValidatorConsensusMessage s message address

/-- `on_consensus_message`, the same in every role. -/
def onConsensusMessage (s : Stream) (message : ConsensusMessage) (peerId : PeerId) :
    Stream × Outcome :=
  match s.getPeerAddress peerId with
  | some address =>
      if s.authorities.members.any fun member => member.1 = address then
        s.onValidatorConsensusMessage support oracle message address
      else done s
  | none =>
      done
        { s with
          pendingConsensusMessages :=
            AssocMap.insert s.pendingConsensusMessages peerId
              ((AssocMap.get? s.pendingConsensusMessages peerId).getD [] ++ [message]) }

/-- The messages of a peer that has registered at last, in their order. -/
def replay (handler : Stream → ConsensusMessage → Stream × Outcome) :
    List ConsensusMessage → Stream → Stream × Outcome
  | [], s => done s
  | message :: messages, s => andThen (handler s message) (replay handler messages)

/-- The pending messages of the peer are taken out and handled. -/
def replayPending (s : Stream) (peerId : PeerId)
    (handler : Stream → ConsensusMessage → Stream × Outcome) : Stream × Outcome :=
  match AssocMap.get? s.pendingConsensusMessages peerId with
  | none => done s
  | some messages =>
      replay handler messages
        { s with
          pendingConsensusMessages := AssocMap.erase s.pendingConsensusMessages peerId }

/-- `on_validator_registered`; only a replica first sends its new view message. -/
def onValidatorRegistered (s : Stream) (address : Address) (peerId : PeerId) :
    Stream × Outcome :=
  match s.state with
  | .leader =>
      s.replayPending peerId fun s message =>
        LeaderState.onValidatorConsensusMessage support oracle s message address
  | .replica =>
      let r :=
        if s.currentLeader = some address then ReplicaState.sendNewView s else done s
      andThen r fun s =>
        s.replayPending peerId fun s message =>
          ReplicaState.onValidatorConsensusMessage support s message address
  | .observer =>
      s.replayPending peerId fun s message =>
        ObserverState.onValidatorConsensusMessage s message address

def onInternalMessage (s : Stream) : InternalMessage → Stream × Outcome
  | .validatorRegistered address peerId => s.onValidatorRegistered support oracle address peerId
  | .consensusMessage message peerId => s.onConsensusMessage support oracle message peerId
  | .proposal _ proposal =>
      match s.state with
      | .leader => LeaderState.onRemoteProposal support oracle s proposal
      | _ => done s

/-! ## The loop -/

/-- `compute_leader`; it panics when the last leader is not a member, or when
there is none. -/
def computeLeader (s : Stream) : Except Stop Address :=
  let members := s.authorities.members
  let lastLeaderIndex : Option Nat :=
    if s.lastAuthorities = s.authorities then
      (members.map Prod.fst).findIdx? fun address =>
        address = s.storage.baseCommitQc.leaderAddress
    else some (wrapSub 64 members.length 1)
  match lastLeaderIndex with
  | none => .error (.panic "base commit qc is verified")
  | some lastLeaderIndex =>
      let viewDiff := wrapSub 64 s.storage.view s.storage.baseCommitQc.view
      let leaderIndex := wrapAdd 64 lastLeaderIndex viewDiff
      match members[leaderIndex % members.length]? with
      | none => .error (.panic "remainder by zero")
      | some member => .ok member.1

/-- `run_view` up to the loop of the role. The fields of the leader start
afresh; the other roles do not read them. -/
def runView (s : Stream) : Stream × Outcome :=
  match s.computeLeader with
  | .error e => (s, .error e)
  | .ok leader =>
      let state :=
        if s.address = leader then .leader
        else if s.authorities.members.any fun member => member.1 = s.address then .replica
        else .observer
      let s :=
        { s with
          state
          currentLeader := some leader
          currentView := s.storage.view
          leader := LeaderState.new }
      match state with
      | .leader => LeaderState.start support oracle s
      | .replica => ReplicaState.sendNewView s
      | .observer => done s

/-- An error of a handler is logged. -/
def logged (r : Stream × Outcome) : Stream :=
  match r.2 with
  | .error (.panic _) => { r.1 with halted := true }
  | _ => r.1

/-- An error ends the task. -/
def fatal (r : Stream × Outcome) : Stream :=
  match r.2 with
  | .error _ => { r.1 with halted := true }
  | .ok () => r.1

end Stream

/-- What the loop waits for, a restart of the node, and a block that the
coordinator commits. A network message is `none` when it does not decode. -/
inductive Event where
  | timeout
  | schedule (timestamp : Nat)
  | internal
  | open (peerId : PeerId) (localNonce remoteNonce : Nat)
  | close (peerId : PeerId)
  | message (peerId : PeerId) (message : Option HotStuffMessage)
  | blockCommitted
  | restart
  | sync (block : ConfirmedBlock)
  deriving DecidableEq, Repr

namespace Stream

variable (support : Support) (oracle : Oracle)

/-- `spawn` and the first `run_view`, on the chain and the database that are
there. -/
def spawn (s : Stream) : Stream :=
  match Storage.new support s.storage.chain s.storage.db with
  | none => { s with halted := true }
  | some storage =>
      let number := storage.chain.length
      fatal (runView support oracle
        { s.setStorage storage with
          peers := []
          knownValidators := []
          nextRequestId := 0
          currentLeader := none
          state := .observer
          leader := LeaderState.new
          authorities := support.getHotstuffAuthorities storage.chain number
          lastAuthorities := support.getHotstuffAuthorities storage.chain (number - 1)
          internal := []
          notices := 0
          unread := 0
          commitBlockParams := none
          pendingConsensusMessages := []
          pendingNewViewMessages := []
          timeoutMessageCollector := []
          timeoutTc := none
          halted := false })

/-- A block that the coordinator commits: it has passed `verify_proof`. -/
def syncBlock (s : Stream) (block : ConfirmedBlock) : Stream :=
  match verifyQc support.basic block.commitQc none
      (support.getHotstuffAuthorities s.storage.chain (wrapSub 64 block.header.number 1)),
    support.commitBlock s.storage.chain
      { blockHash := support.basic.hash block.header
        header := block.header
        body := { metaTxs := [], payloadTxs := [] }
        proof := { name := "", data := [] } } block.commitQc with
  | .ok (), .ok chain =>
      let s := s.note (.sync block)
      { s.setStorage { s.storage with chain } with
        notices := s.notices + 1
        unread := s.unread + 1 }
  | _, _ => s

/-- One event of the loop of the current role; a restart and a synced block do
not go through the loop. -/
def handle (s : Stream) : Event → Stream
  | .timeout =>
      match s.state with
      | .observer => s
      | _ => fatal (s.onTimeout support oracle)
  | .schedule timestamp =>
      match s.state with
      | .leader => logged (LeaderState.tryWork support oracle s (some timestamp) none)
      | _ => s
  | .internal =>
      match s.internal with
      | [] => s
      | internalMessage :: rest =>
          logged ({ s with internal := rest }.onInternalMessage support oracle
            internalMessage)
  | .open peerId localNonce remoteNonce =>
      s.onNetworkProtocolOpen support peerId localNonce remoteNonce
  | .close peerId => s.onNetworkProtocolClose peerId
  | .message _ none => s
  | .message peerId (some message) =>
      logged (s.onNetworkMessage support oracle peerId message)
  | .blockCommitted =>
      if s.notices = 0 then s
      else logged ({ s with notices := s.notices - 1 }.onBlockCommitted support)
  | .restart => s
  | .sync _ => s

/-- One event, and the next `run_view` when the view has changed. A node that
has stopped only restarts. -/
def step (s : Stream) : Event → Stream
  | .restart => s.spawn support oracle
  | .sync block => s.syncBlock support block
  | event =>
      if s.halted then s
      else
        let s := s.handle support oracle event
        if s.halted ∨ s.storage.view = s.currentView then s
        else fatal (s.runView support oracle)

end Stream

end Finastate.Hotstuff
