import Finastate.Hotstuff.Acts

/-!
# Handlers are sequences of acts

The refinement behind every safety result: the handlers of the leader, of the
replica and of the stream, one lemma each, and from them `Stream.step_acts`.
-/

namespace Finastate.Hotstuff

open Relation (ReflTransGen)

variable {event : Event}

/-! ## Frames: what only sends messages -/

namespace Stream

@[simp] theorem core_note (s : Stream) (action : Action) :
    (s.note action).core = s.core.note action := rfl

@[simp] theorem core_setStorage (s : Stream) (storage : Storage) :
    (s.setStorage storage).core = s.core.setStorage storage := rfl

@[simp] theorem core_requestTo (s : Stream) (address : Address)
    (message : Nat → HotStuffMessage) : (s.requestTo address message).core = s.core := by
  unfold requestTo
  cases AssocMap.get? s.knownValidators address with
  | none => rfl
  | some peerId => rfl

@[simp] theorem core_consensusMessage (s : Stream) (address : Address)
    (req : ConsensusMessage) : (s.consensusMessage address req).core = s.core :=
  core_requestTo s address _

@[simp] theorem core_timeoutMessage (s : Stream) (address : Address)
    (req : TimeoutMessage) : (s.timeoutMessage address req).core = s.core :=
  core_requestTo s address _

@[simp] theorem core_response (s : Stream) (peerId : PeerId) (message : HotStuffMessage) :
    (s.response peerId message).core = s.core := rfl

theorem core_foldl {f : Stream → Address → Stream} (hf : ∀ s a, (f s a).core = s.core)
    (l : List Address) (s : Stream) : (l.foldl f s).core = s.core := by
  induction l generalizing s with
  | nil => rfl
  | cons a l ih => rw [List.foldl_cons, ih, hf]

end Stream

@[simp] theorem LeaderState.core_broadcastMessage (s : Stream) (message : ConsensusMessage) :
    (broadcastMessage s message).core = s.core :=
  Stream.core_foldl (fun s a => Stream.core_consensusMessage s a message) s.others s

@[simp] theorem LeaderState.core_sendProposal (s : Stream) (proposal : Proposal)
    (message : ConsensusMessage) : (sendProposal s proposal message).core = s.core := by
  refine Stream.core_foldl (fun s a => ?_) s.others s
  rw [Stream.core_consensusMessage]
  cases AssocMap.get? s.knownValidators a with
  | none => rfl
  | some peerId => rfl

/-- What follows a handler with `?` and only sends does not move the core. -/
theorem core_andThen {r : Stream × Outcome} {k : Stream → Stream × Outcome}
    (hk : ∀ s, (k s).1.core = s.core) : (andThen r k).1.core = r.1.core := by
  unfold andThen
  split
  · exact hk r.1
  · rfl

/-! ## What a role can rely on -/

/-- The leader is known to the roles that need it, and a leader that waits for
a proposal has not proposed. -/
structure Core.Wf (c : Core) : Prop where
  leader : c.state = .leader → c.currentLeader = some c.address
  replica : c.state = .replica → ∃ l, c.currentLeader = some l ∧ c.address ≠ l
  pending : c.leader.pendingRemoteProposal.isSome → c.leader.prepareMessage = none
  queued : ∀ message ∈ c.queued, message ∈ c.received
  timeouts : TimeoutMessageCollector.ByView c.timeouts

@[simp] theorem LeaderState.addVote_prepareMessage (l : LeaderState) (t : MessageType)
    (address : Address) (message : ConsensusMessage) :
    (l.addVote t address message).prepareMessage = l.prepareMessage := by
  cases t <;> rfl

@[simp] theorem LeaderState.addVote_preCommitMessage (l : LeaderState) (t : MessageType)
    (address : Address) (message : ConsensusMessage) :
    (l.addVote t address message).preCommitMessage = l.preCommitMessage := by
  cases t <;> rfl

@[simp] theorem LeaderState.addVote_commitMessage (l : LeaderState) (t : MessageType)
    (address : Address) (message : ConsensusMessage) :
    (l.addVote t address message).commitMessage = l.commitMessage := by
  cases t <;> rfl

@[simp] theorem LeaderState.addVote_pendingRemoteProposal (l : LeaderState)
    (t : MessageType) (address : Address) (message : ConsensusMessage) :
    (l.addVote t address message).pendingRemoteProposal = l.pendingRemoteProposal := by
  cases t <;> rfl

@[simp] theorem Core.afterVote_currentLeader (c : Core) (t : MessageType) (justify : QC) :
    (c.afterVote t justify).currentLeader = c.currentLeader := by
  cases t <;> rfl

@[simp] theorem Core.afterVote_signed (c : Core) (t : MessageType) (justify : QC) :
    (c.afterVote t justify).signed = c.signed := by
  cases t <;> rfl

theorem CommonAct.wf {support : Support} {c c' : Core} (h : CommonAct support c c')
    (hwf : c.Wf) : c'.Wf := by
  cases h with
  | note action => exact { hwf with }
  | queue queued h =>
      exact { hwf with queued := fun m hm => (h m hm).elim (hwf.queued m) id }
  | params params built => exact { hwf with }
  | putProposal proposal x p built number parent hash => exact { hwf with }

theorem LeaderAct.wf {support : Support} {c c' : Core} (h : LeaderAct support c c')
    (hwf : c.Wf) : c'.Wf := by
  cases h with
  | common c' h => exact h.wf hwf
  | work l h =>
      refine { hwf with pending := fun hpending => ?_ }
      rw [h.prepareMessage]
      exact (h.pending hpending).elim hwf.pending id
  | propose node highQc pm signal acting fresh pmNode idle =>
      refine { hwf with pending := fun hpending => ?_ }
      simp [idle] at hpending
  | ownVote t message pm leaderAddress phase leader type view proposed node own =>
      exact { hwf with pending := by simpa using hwf.pending }
  | remoteVote t message pm address s phase other received type view sig signer valid
      proposed node =>
      exact { hwf with pending := by simpa using hwf.pending }
  | prepareQc order qc message collected fresh => exact { hwf with }
  | preCommitQc order qc message collected fresh => exact { hwf with }
  | decide order qc chain collected decides => exact { hwf with }

theorem ReplicaAct.wf {support : Support} {c c' : Core} (h : ReplicaAct support c c')
    (hwf : c.Wf) : c'.Wf := by
  cases h with
  | common c' h => exact h.wf hwf
  | vote message address leaderAddress t view node justify acting received current casts
      leader =>
      cases t <;> exact { hwf with }
  | decide message address qc chain acting received type justify valid decides =>
      exact { hwf with }

theorem Act.wf {support : Support} {c c' : Core} (h : Act support event c c') (hwf : c.Wf) :
    c'.Wf := by
  cases h with
  | common c' h => exact h.wf hwf
  | leader c' state view h => exact h.wf hwf
  | replica c' state h => exact h.wf hwf
  | receive message =>
      exact { hwf with queued := fun m hm => List.mem_cons_of_mem _ (hwf.queued m hm) }
  | sign message h => exact { hwf with }
  | timeouts timeouts byView => exact { hwf with timeouts := byView hwf.timeouts }
  | newTimeout message address first second acting type signed view attached alone =>
      cases first <;> cases second <;> exact { hwf with }
  | decideTimeout message address tc acting type attached valid => exact { hwf with }
  | refresh storage h => exact { hwf with }
  | restart storage h =>
      refine ⟨fun h => ?_, fun h => ?_, fun h => rfl, fun m hm => ?_, fun p hp => ?_⟩
      · cases h
      · cases h
      · cases hm
      · cases hp
  | runView state leader own other =>
      refine { hwf with
        leader := fun h => ?_, replica := fun h => ⟨leader, rfl, other h⟩,
        pending := fun h => rfl }
      rw [own h]
  | sync block params chain acting hash header commits => exact { hwf with }

theorem Acts.wf {support : Support} {c c' : Core} (h : Acts support event c c') (hwf : c.Wf) :
    c'.Wf := by
  induction h with
  | refl => exact hwf
  | tail _ hact ih => exact hact.wf ih

/-- What the handlers of consensus messages do not change. -/
structure Core.SameView (c c' : Core) : Prop where
  view : c'.storage.view = c.storage.view
  currentView : c'.currentView = c.currentView
  state : c'.state = c.state
  received : c'.received = c.received

theorem CommonAct.sameView {support : Support} {c c' : Core} (h : CommonAct support c c') :
    c.SameView c' := by
  cases h with
  | note action => exact ⟨rfl, rfl, rfl, rfl⟩
  | queue queued h => exact ⟨rfl, rfl, rfl, rfl⟩
  | params params built => exact ⟨rfl, rfl, rfl, rfl⟩
  | putProposal proposal x p built number parent hash => exact ⟨rfl, rfl, rfl, rfl⟩

theorem LeaderAct.sameView {support : Support} {c c' : Core} (h : LeaderAct support c c') :
    c.SameView c' := by
  cases h with
  | common c' h => exact h.sameView
  | work l h => exact ⟨rfl, rfl, rfl, rfl⟩
  | propose node highQc pm signal acting fresh pmNode idle => exact ⟨rfl, rfl, rfl, rfl⟩
  | ownVote t message pm leaderAddress phase leader type view proposed node own =>
      exact ⟨rfl, rfl, rfl, rfl⟩
  | remoteVote t message pm address s phase other received type view sig signer valid
      proposed node => exact ⟨rfl, rfl, rfl, rfl⟩
  | prepareQc order qc message collected fresh => exact ⟨rfl, rfl, rfl, rfl⟩
  | preCommitQc order qc message collected fresh => exact ⟨rfl, rfl, rfl, rfl⟩
  | decide order qc chain collected decides => exact ⟨rfl, rfl, rfl, rfl⟩

theorem ReplicaAct.sameView {support : Support} {c c' : Core}
    (h : ReplicaAct support c c') : c.SameView c' := by
  cases h with
  | common c' h => exact h.sameView
  | vote message address leaderAddress t view node justify acting received current casts
      leader =>
      cases t <;> exact ⟨rfl, rfl, rfl, rfl⟩
  | decide message address qc chain acting received type justify valid decides =>
      exact ⟨rfl, rfl, rfl, rfl⟩

theorem Core.SameView.trans {c c' c'' : Core} (h : c.SameView c') (h' : c'.SameView c'') :
    c.SameView c'' :=
  ⟨h'.view.trans h.view, h'.currentView.trans h.currentView, h'.state.trans h.state,
    h'.received.trans h.received⟩

theorem CommonActs.sameView {support : Support} {c c' : Core}
    (h : CommonActs support c c') : c.SameView c' := by
  induction h with
  | refl => exact ⟨rfl, rfl, rfl, rfl⟩
  | tail _ hact ih => exact ih.trans hact.sameView

theorem CommonActs.acts {support : Support} {c c' : Core} (h : CommonActs support c c') :
    Acts support event c c' := by
  induction h with
  | refl => exact .refl
  | tail _ hact ih => exact ih.tail (.common _ hact)

theorem LeaderActs.sameView {support : Support} {c c' : Core}
    (h : LeaderActs support c c') : c.SameView c' := by
  induction h with
  | refl => exact ⟨rfl, rfl, rfl, rfl⟩
  | tail _ hact ih => exact ih.trans hact.sameView

theorem ReplicaActs.sameView {support : Support} {c c' : Core}
    (h : ReplicaActs support c c') : c.SameView c' := by
  induction h with
  | refl => exact ⟨rfl, rfl, rfl, rfl⟩
  | tail _ hact ih => exact ih.trans hact.sameView

theorem ReplicaActs.wf {support : Support} {c c' : Core} (h : ReplicaActs support c c')
    (hwf : c.Wf) : c'.Wf := by
  induction h with
  | refl => exact hwf
  | tail _ hact ih => exact hact.wf ih

theorem ReplicaActs.acts {support : Support} {c c' : Core} (h : ReplicaActs support c c')
    (hstate : c.state = .replica) : Acts support event c c' := by
  induction h with
  | refl => exact .refl
  | tail hacts hact ih =>
      exact ih.tail (.replica _ ((ReplicaActs.sameView hacts).state.trans hstate) hact)

/-- In the view it was started for, what the leader does are acts of the node. -/
theorem LeaderActs.acts {support : Support} {c c' : Core} (h : LeaderActs support c c')
    (hstate : c.state = .leader) (hview : c.storage.view = c.currentView) :
    Acts support event c c' := by
  induction h with
  | refl => exact .refl
  | tail hacts hact ih =>
      have hsame : c.SameView _ := LeaderActs.sameView hacts
      exact ih.tail (.leader _ (hsame.state.trans hstate)
        (by rw [hsame.view, hsame.currentView, hview]) hact)

/-! ## Blocks -/

/-- What `on_decide` leaves: nothing done, the built block dropped, or the
block committed. -/
theorem Stream.core_decideBlock (support : Support) (s : Stream) (qc : QC) :
    (s.decideBlock support qc).1.core = s.core ∨
      (s.decideBlock support qc).1.core = { s.core with commitBlockParams := none } ∨
      ∃ chain, s.core.Decides support qc chain ∧
        (s.decideBlock support qc).1.core = s.core.decide chain := by
  unfold Stream.decideBlock
  cases hproposal : s.storage.getProposal qc.node.blockHash with
  | none => exact Or.inl rfl
  | some proposal =>
      cases hparams : s.commitBlockParams with
      | none => exact Or.inl rfl
      | some params =>
          by_cases hhash : params.blockHash = proposal.blockHash
          · simp only [hhash, if_true]
            unfold Stream.onDecide
            cases hcommit : support.commitBlock s.storage.chain params qc with
            | error e => exact Or.inr (Or.inl rfl)
            | ok chain =>
                exact Or.inr (Or.inr
                  ⟨chain, ⟨proposal, params, hproposal, hparams, hhash, hcommit⟩, rfl⟩)
          · simp only [hhash, if_false]
            exact Or.inr (Or.inl rfl)

theorem Stream.onProposal_acts (support : Support) (oracle : Oracle) (s : Stream)
    (proposal : Proposal) :
    Acts support event s.core (s.onProposal support oracle proposal).1.core := by
  unfold Stream.onProposal
  cases hverify : Verifier.verifyProposal support s.storage.chain oracle.executedNumber
      proposal with
  | error e =>
      cases e with
      | verifyError e => exact .refl
      | other e => exact .refl
  | ok x =>
      obtain ⟨hnumber, hparent, hhash, p, hp, hbuild⟩ :=
        Verifier.verifyProposal_eq_ok hverify
      obtain ⟨-, -, hbelow⟩ := Consensus.Support.buildBlock_eq_ok hbuild
      rw [hp, hnumber] at hbelow
      have hx : x.header.parentHash = support.confirmedBlockHash s.storage.chain := by
        have h := hbelow.symm.trans (support.getBlockHash_length s.storage.chain)
        exact Option.some.inj h
      exact .single (.common _ (.putProposal proposal x p hbuild (hp.trans hnumber)
        (hparent.trans hx.symm) hhash.symm))

/-! ## The leader -/

namespace LeaderState

variable {support : Support} {oracle : Oracle}

/-- A vote may be handed to the handler of its phase: it is of the phase and
the view, and either received from another validator or the leader's own. -/
structure VoteReady (s : Stream) (t : MessageType) (message : ConsensusMessage)
    (address : Address) : Prop where
  type : message.messageType = t
  view : message.view = s.storage.view
  own : s.address = address → s.core.OwnVote t
  received : s.address ≠ address → message ∈ s.received

/-- A verified vote enters its collector by an act. -/
theorem verifyMessage_act {s s' : Stream} {t : MessageType}
    {message message' : ConsensusMessage} {address : Address}
    (hphase : t = .prepare ∨ t = .preCommit ∨ t = .commit)
    (hready : VoteReady s t message address)
    (h : verifyMessage support s message address = .ok (s', message')) :
    LeaderAct support s.core
      { s' with leader := s'.leader.addVote t address message' }.core := by
  unfold verifyMessage at h
  by_cases hown : s.address = address
  · rw [if_pos hown] at h
    cases hpm : s.leader.prepareMessage with
    | none => simp [hpm] at h
    | some pm =>
        simp only [hpm, Stream.signMessage] at h
        cases hleader : s.currentLeader with
        | none => simp [hleader] at h
        | some leaderAddress =>
            simp only [hleader, Except.ok.injEq, Prod.mk.injEq] at h
            obtain ⟨rfl, rfl⟩ := h
            have hact : LeaderAct support s.core _ := .ownVote t
              { message with
                node := pm.node
                justify := none
                sig := some (s.publicKey, support.basic.sign
                  (.vote message.messageType message.view pm.node leaderAddress)
                  s.secretKey) }
              pm leaderAddress hphase hleader hready.type hready.view hpm rfl
              (hready.own hown) rfl
            rw [hready.type] at hact ⊢
            rw [← hown]
            exact hact
  · rw [if_neg hown] at h
    cases hsig : message.sig with
    | none => simp [hsig] at h
    | some sig =>
        obtain ⟨publicKey, signature⟩ := sig
        simp only [hsig] at h
        by_cases hsigner : support.basic.address publicKey = address
        · rw [if_neg (not_not.2 hsigner)] at h
          cases hvalid : support.basic.verify
              (.vote message.messageType message.view message.node s.address)
              publicKey signature with
          | error e => simp [hvalid] at h
          | ok u =>
              simp only [hvalid] at h
              cases hpm : s.leader.prepareMessage with
              | none => simp [hpm] at h
              | some pm =>
                  simp only [hpm] at h
                  by_cases hnode : message.node = pm.node
                  · rw [if_neg (not_not.2 hnode)] at h
                    cases h
                    exact .remoteVote t message pm address (publicKey, signature) hphase
                      (Ne.symm hown) (hready.received hown) hready.type hready.view hsig
                      hsigner hvalid hpm hnode
                  · rw [if_pos hnode] at h
                    cases h
        · rw [if_pos hsigner] at h
          cases h

/-- The three vote handlers start in the same way: it is left to look at what
they do once the vote is in its collector. -/
theorem withVote_acts {s : Stream} {t : MessageType} {message : ConsensusMessage}
    {address : Address} (hphase : t = .prepare ∨ t = .preCommit ∨ t = .commit)
    (hready : VoteReady s t message address) {k : Stream → Stream × Outcome}
    (hk : ∀ s', LeaderActs support s'.core (k s').1.core) :
    LeaderActs support s.core (withVote support t s message address k).1.core := by
  unfold withVote
  cases hverify : verifyMessage support s message address with
  | error e =>
      cases e with
      | err msg => exact .refl
      | panic msg => exact .refl
  | ok r =>
      obtain ⟨s', message'⟩ := r
      exact .head (verifyMessage_act hphase hready hverify)
        (hk { s' with leader := s'.leader.addVote t address message' })

theorem decideBlock_acts {s : Stream} (order : IterOrder) {qc : QC}
    (hqc : ConsensusMessageCollector.getQc order s.leader.commitCollector s.authorities
      s.address = .ok (some qc)) :
    LeaderActs support s.core (s.decideBlock support qc).1.core := by
  rcases Stream.core_decideBlock support s qc with h | h | ⟨chain, hdecides, h⟩
  · rw [h]
  · rw [h]
    exact .single (.common _ (.params none (by simp)))
  · rw [h]
    exact .single (.decide order qc chain hqc hdecides)

/-- Keeping the decide message is no vote. -/
theorem keepDecide_act (s : Stream) (message : ConsensusMessage) :
    LeaderAct support s.core { s with leader.decideMessage := some message }.core :=
  .work _ ⟨rfl, rfl, rfl, rfl, fun _ hp => Or.inl hp, fun _ hqc => Or.inl hqc, Or.inl⟩

theorem onCommit_acts {s : Stream} {message : ConsensusMessage} {address : Address}
    (hready : VoteReady s .commit message address) :
    LeaderActs support s.core (onCommit support oracle s message address).1.core := by
  refine withVote_acts (Or.inr (Or.inr rfl)) hready fun s => ?_
  cases hqc : ConsensusMessageCollector.getQc (oracle.order .commit)
      s.leader.commitCollector s.authorities s.address with
  | error e => exact .refl
  | ok qc =>
      cases qc with
      | none => exact .refl
      | some qc =>
          cases hdecided : s.leader.decideMessage.isSome with
          | true =>
              simp only [if_true]
              exact .refl
          | false =>
              simp only [Bool.false_eq_true, if_false]
              rw [core_andThen (fun s => core_broadcastMessage s _)]
              exact .head (keepDecide_act s _)
                (decideBlock_acts (oracle.order .commit) hqc)

theorem lockQc_act {s : Stream} {order : IterOrder} {qc : QC}
    (hqc : ConsensusMessageCollector.getQc order s.leader.preCommitCollector s.authorities
      s.address = .ok (some qc)) (hfresh : s.leader.commitMessage = none)
    (message : ConsensusMessage) :
    LeaderAct support s.core
      { s.setStorage (s.storage.updateLockedQc qc) with
        leader.commitMessage := some message }.core :=
  .preCommitQc order qc message hqc hfresh

theorem onPreCommit_acts {s : Stream} {message : ConsensusMessage} {address : Address}
    (hready : VoteReady s .preCommit message address) :
    LeaderActs support s.core (onPreCommit support oracle s message address).1.core := by
  refine withVote_acts (Or.inr (Or.inl rfl)) hready fun s => ?_
  cases hqc : ConsensusMessageCollector.getQc (oracle.order .preCommit)
      s.leader.preCommitCollector s.authorities s.address with
  | error e => exact .refl
  | ok qc =>
      cases qc with
      | none => exact .refl
      | some qc =>
          cases hcommit : s.leader.commitMessage with
          | some commitMessage =>
              simp only [Option.isSome_some, if_true]
              exact .refl
          | none =>
              simp only [Option.isSome_none, Bool.false_eq_true, if_false]
              rw [core_andThen (fun s => core_broadcastMessage s _)]
              exact .head (lockQc_act hqc hcommit _)
                (onCommit_acts ⟨rfl, rfl, fun _ => Or.inr rfl, fun h => absurd rfl h⟩)

theorem prepareQc_act {s : Stream} {order : IterOrder} {qc : QC}
    (hqc : ConsensusMessageCollector.getQc order s.leader.prepareCollector s.authorities
      s.address = .ok (some qc)) (hfresh : s.leader.preCommitMessage = none)
    (message : ConsensusMessage) :
    LeaderAct support s.core
      { s.setStorage (s.storage.updatePrepareQc qc) with
        leader.preCommitMessage := some message }.core :=
  .prepareQc order qc message hqc hfresh

theorem onPrepare_acts {s : Stream} {message : ConsensusMessage} {address : Address}
    (hready : VoteReady s .prepare message address) :
    LeaderActs support s.core (onPrepare support oracle s message address).1.core := by
  refine withVote_acts (Or.inl rfl) hready fun s => ?_
  cases hqc : ConsensusMessageCollector.getQc (oracle.order .prepare)
      s.leader.prepareCollector s.authorities s.address with
  | error e => exact .refl
  | ok qc =>
      cases qc with
      | none => exact .refl
      | some qc =>
          cases hpreCommit : s.leader.preCommitMessage with
          | some preCommitMessage =>
              simp only [Option.isSome_some, if_true]
              exact .refl
          | none =>
              simp only [Option.isSome_none, Bool.false_eq_true, if_false]
              rw [core_andThen (fun s => core_broadcastMessage s _)]
              exact .head (prepareQc_act hqc hpreCommit _)
                (onPreCommit_acts ⟨rfl, rfl, fun _ => Or.inr rfl, fun h => absurd rfl h⟩)

/-- The leader may propose: it has not done so, and waits for no proposal. -/
def Idle (s : Stream) : Prop :=
  s.leader.prepareMessage = none ∧ s.leader.pendingRemoteProposal = none

theorem propose_act {s : Stream} {node : Node} {highQc : QC} {pm : ConsensusMessage}
    (hsignal : s.leader.workNewViewSignal = some highQc)
    (hacting : s.core.Acting (.propose node highQc)) (hidle : Idle s)
    (hnode : pm.node = some node) :
    LeaderAct support s.core { s with leader.prepareMessage := some pm }.core :=
  .propose node highQc pm hsignal hacting hidle.1 hnode hidle.2

theorem onProposal_acts {s : Stream} (hidle : Idle s) (proposal : Proposal) :
    LeaderActs support s.core (onProposal support oracle s proposal).1.core := by
  unfold onProposal
  cases hsignal : s.leader.workNewViewSignal with
  | none => exact .refl
  | some highQc =>
      simp only
      rw [core_andThen (fun s => core_sendProposal s _ _)]
      exact .head (.common _ (.note _ rfl)) (.head
        (propose_act (s := s.note _) hsignal rfl hidle rfl)
        (onPrepare_acts ⟨rfl, rfl, fun _ => Or.inr ⟨_, highQc, _, rfl, hsignal, rfl, rfl⟩,
          fun h => absurd rfl h⟩))

theorem params_act {s : Stream} {x : CommitBlockParams} {p : BuildBlockParams}
    (hbuild : support.buildBlock s.storage.chain p = .ok x) :
    LeaderAct support s.core { s with commitBlockParams := some x }.core := by
  refine .common _ (.params (some x) ?_)
  intro y hy
  cases hy
  exact ⟨p, hbuild⟩

theorem putProposal_act {s : Stream} {x : CommitBlockParams} {p : BuildBlockParams}
    (hbuild : support.buildBlock s.storage.chain p = .ok x)
    (hnumber : p.number = s.storage.chain.length + 1) (proposal : Proposal)
    (hparent : proposal.parentHash = x.header.parentHash)
    (hhash : proposal.blockHash = x.blockHash) :
    LeaderAct support s.core
      ({ s with commitBlockParams := some x }.setStorage
        (s.storage.putProposal proposal)).core :=
  .common _ (.putProposal proposal x p hbuild hnumber hparent hhash)

theorem createProposal_acts {s : Stream} (hidle : Idle s) (timestamp : Nat) :
    LeaderActs support s.core (createProposal support oracle s timestamp).1.core := by
  unfold createProposal
  cases hprepare : Stream.prepareBlock support oracle s.storage.chain timestamp with
  | error e => exact .refl
  | ok params =>
      have hnumber : params.number = s.storage.chain.length + 1 := by
        unfold Stream.prepareBlock at hprepare
        simp only at hprepare
        split at hprepare
        · cases hprepare
        · cases hprepare
          rfl
      cases hbuild : support.buildBlock s.storage.chain params with
      | error e =>
          simp only [hbuild]
          exact .refl
      | ok x =>
          simp only [hbuild]
          refine .head (putProposal_act hbuild hnumber
            { parentHash := x.header.parentHash
              blockHash := x.blockHash
              number := params.number
              timestamp := params.timestamp
              metaTxs := params.metaTxs.map FullTransaction.tx
              payloadTxs := params.payloadTxs.map FullTransaction.tx
              executionNumber := params.executionNumber } rfl rfl) ?_
          apply onProposal_acts
          exact hidle

theorem onLocalProposal_acts {s : Stream} (hidle : Idle s) (proposal : Proposal) :
    LeaderActs support s.core (onLocalProposal support oracle s proposal).1.core := by
  unfold onLocalProposal
  split
  · exact onProposal_acts hidle proposal
  · split
    · exact .refl
    · next x hbuild =>
      refine .head (params_act hbuild) ?_
      apply onProposal_acts
      exact hidle

theorem reuseProposal_acts {s : Stream} (hidle : Idle s) (highQc : QC) :
    LeaderActs support s.core (reuseProposal support oracle s highQc).1.core := by
  unfold reuseProposal
  cases s.storage.getProposal highQc.node.blockHash with
  | some proposal => exact onLocalProposal_acts hidle proposal
  | none =>
      simp only
      split
      · exact .refl
      · next first rest _ =>
        generalize htarget : (first :: rest).get (oracle.genRange rest.length) = target
        have hcore : (s.requestProposal target
            { requestId := 0, blockHash := highQc.node.blockHash }).core = s.core :=
          Stream.core_requestTo s target _
        have hact : LeaderAct support (s.requestProposal target
            { requestId := 0, blockHash := highQc.node.blockHash }).core
            { s.requestProposal target
                { requestId := 0, blockHash := highQc.node.blockHash } with
              leader.pendingRemoteProposal := some highQc.node.blockHash }.core := by
          refine .work _ ⟨rfl, rfl, rfl, rfl, fun _ hp => Or.inl hp, fun _ hqc => Or.inl hqc,
            fun _ => Or.inr ?_⟩
          rw [hcore]
          exact hidle.1
        rw [← hcore]
        exact .single hact

theorem work_acts {s : Stream} (hidle : Idle s) (highQc : QC) (timestamp : Nat) :
    LeaderActs support s.core (work support oracle s highQc timestamp).1.core := by
  unfold work
  simp only
  split
  · exact createProposal_acts hidle timestamp
  · split
    · exact reuseProposal_acts hidle highQc
    · exact .refl

/-- The signal of a new view is the justify of a collected message. -/
theorem tryWork_acts {s : Stream} {workScheduleSignal : Option Nat}
    {workNewViewSignal : Option QC}
    (hsignal : ∀ qc ∈ workNewViewSignal,
      ∃ p ∈ s.leader.newViewCollector, p.2.justify = some qc) :
    LeaderActs support s.core
      (tryWork support oracle s workScheduleSignal workNewViewSignal).1.core := by
  unfold tryWork
  simp only
  have hact : LeaderAct support s.core
      { s with
        leader :=
          { s.leader with
            workScheduleSignal := workScheduleSignal.or s.leader.workScheduleSignal
            workNewViewSignal :=
              workNewViewSignal.or s.leader.workNewViewSignal } }.core := by
    refine .work _ ⟨rfl, rfl, rfl, rfl, fun _ hp => Or.inl hp, fun qc hqc => ?_, Or.inl⟩
    cases workNewViewSignal with
    | none => exact Or.inl hqc
    | some highQc =>
        cases hqc
        exact Or.inr (hsignal _ rfl)
  split
  · split
    · next hidle =>
      refine .head hact ?_
      apply work_acts
      exact ⟨Option.isNone_iff_eq_none.1 hidle.1, Option.isNone_iff_eq_none.1 hidle.2⟩
    · exact .single hact
  · exact .single hact

theorem onRemoteProposal_acts {s : Stream} (hwf : s.core.Wf) (proposal : Proposal) :
    LeaderActs support s.core (onRemoteProposal support oracle s proposal).1.core := by
  unfold onRemoteProposal
  cases hpending : s.leader.pendingRemoteProposal with
  | none => exact .refl
  | some pending =>
      simp only
      split
      · exact .refl
      · have hfresh : s.leader.prepareMessage = none :=
          hwf.pending (Option.isSome_iff_exists.2 ⟨pending, hpending⟩)
        have hact : LeaderAct support s.core
            { s with leader.pendingRemoteProposal := none }.core := by
          refine .work _ ⟨rfl, rfl, rfl, rfl, fun _ hp => Or.inl hp,
            fun _ hqc => Or.inl hqc, ?_⟩
          intro h
          cases h
        refine .head hact ?_
        apply onLocalProposal_acts
        exact ⟨hfresh, rfl⟩

end LeaderState

/-! ## New views -/

/-- The high certificate is the justify of one of the messages. -/
theorem ConsensusMessageCollector.exists_of_collectHighQc {authorities : Authorities}
    {messages : List (Address × ConsensusMessage)} {totalWeight : Nat} {start : Option QC}
    {qc : QC} (h : collectHighQc authorities messages totalWeight start = .ok (some qc)) :
    start = some qc ∨ ∃ p ∈ messages, p.2.justify = some qc := by
  induction messages generalizing totalWeight start with
  | nil => cases h
  | cons p messages ih =>
      obtain ⟨address, message⟩ := p
      cases hjustify : message.justify with
      | none => simp [collectHighQc, hjustify] at h
      | some justify =>
          have hhead : justify = qc →
              ∃ p ∈ (address, message) :: messages, p.2.justify = some qc :=
            fun heq => ⟨_, List.mem_cons_self, heq ▸ hjustify⟩
          have htail : (∃ p ∈ messages, p.2.justify = some qc) →
              ∃ p ∈ (address, message) :: messages, p.2.justify = some qc :=
            fun hrest => hrest.imp fun p hp => ⟨List.mem_cons_of_mem _ hp.1, hp.2⟩
          cases hweight : Weights.weight? authorities.members address with
          | none =>
              simp only [collectHighQc, hjustify, hweight] at h
              split at h
              · exact Or.inl (Except.ok.inj h)
              · exact (ih h).imp_right htail
          | some weight =>
              simp only [collectHighQc, hjustify, hweight] at h
              -- the certificate kept is the one of this message or the old one
              obtain ⟨kept, hkept, h⟩ : ∃ kept : Option QC,
                  (∀ high, kept = some high → start = some high ∨ justify = high) ∧
                    (if authorities.quorum ≤ wrapAdd 32 totalWeight weight then .ok kept
                      else collectHighQc authorities messages (wrapAdd 32 totalWeight weight)
                        kept) = .ok (some qc) := by
                refine ⟨_, fun high hhigh => ?_, h⟩
                cases start with
                | none => exact Or.inr (Option.some.inj hhigh)
                | some old =>
                    simp only at hhigh
                    split at hhigh
                    · exact Or.inr (Option.some.inj hhigh)
                    · exact Or.inl hhigh
              split at h
              · exact (hkept qc (Except.ok.inj h)).imp_right hhead
              · rcases ih h with hstart | hrest
                · exact (hkept qc hstart).imp_right hhead
                · exact Or.inr (htail hrest)

/-- Walking through a map visits its keys. -/
theorem IterOrder.map_fst_iterate {α : Type} (order : IterOrder) (m : List (Address × α)) :
    (order.iterate m).map Prod.fst = order.keys (m.map Prod.fst) := by
  have hkeys : ∀ keys : List Address, (∀ address ∈ keys, address ∈ m.map Prod.fst) →
      (keys.filterMap fun address =>
        (AssocMap.get? m address).map fun a => (address, a)).map Prod.fst = keys := by
    intro keys hmem
    induction keys with
    | nil => rfl
    | cons key keys ih =>
        obtain ⟨p, hp, rfl⟩ := List.mem_map.1 (hmem key List.mem_cons_self)
        obtain ⟨a, ha⟩ := AssocMap.exists_get?_of_mem hp
        rw [List.filterMap_cons_some (by rw [ha]; rfl), List.map_cons,
          ih fun address haddress => hmem address (List.mem_cons_of_mem _ haddress)]
  exact hkeys _ fun address haddress => (order.perm _).mem_iff.1 haddress

theorem IterOrder.mem_iterate {α : Type} {order : IterOrder} {m : List (Address × α)}
    {p : Address × α} (h : p ∈ order.iterate m) : p ∈ m := by
  obtain ⟨address, -, hget⟩ := List.mem_filterMap.1 h
  obtain ⟨a, ha, rfl⟩ := Option.map_eq_some_iff.1 hget
  exact AssocMap.mem_of_get?_eq_some ha

namespace LeaderState

variable {support : Support} {oracle : Oracle}

theorem onNewView_acts {s : Stream} {message : ConsensusMessage} {address : Address}
    (hmessage : message ∈ s.received ∨ message.justify = some s.storage.prepareQc) :
    LeaderActs support s.core (onNewView support oracle s message address).1.core := by
  unfold onNewView
  simp only
  refine .head (.common _ (.note (.phase message address) rfl)) ?_
  cases hjustify : message.justify with
  | none => exact .refl
  | some justify =>
      simp only
      split
      · exact .refl
      · have hact : LeaderAct support (s.note (.phase message address)).core
            { s.note (.phase message address) with
              leader.newViewCollector :=
                AssocMap.insert s.leader.newViewCollector address message }.core := by
          refine .work _ ⟨rfl, rfl, rfl, rfl, fun p hp => ?_, fun _ hqc => Or.inl hqc,
            Or.inl⟩
          rcases AssocMap.mem_insert hp with rfl | hp
          · exact Or.inr hmessage
          · exact Or.inl hp
        refine .head hact ?_
        split
        · exact .refl
        · exact .refl
        · next highQc hhigh =>
          split
          · exact .refl
          · refine tryWork_acts ?_
            intro qc hqc
            cases hqc
            rcases ConsensusMessageCollector.exists_of_collectHighQc hhigh with h | h
            · cases h
            · obtain ⟨p, hp, hqc⟩ := h
              exact ⟨p, IterOrder.mem_iterate hp, hqc⟩

/-- A message that is dispatched is ready for the handler of its phase. -/
theorem VoteReady.of_dispatch {s : Stream} {message : ConsensusMessage} {address : Address}
    (hreceived : message ∈ s.received) (hview : message.view = s.storage.view)
    {t : MessageType} (htype : message.messageType = t) :
    VoteReady (s.note (.phase message address)) t message address where
  type := htype
  view := hview
  own := by
    intro (hown : s.address = address)
    subst hown
    exact Or.inl ⟨message, htype, rfl⟩
  received := fun _ => hreceived

theorem onValidatorConsensusMessage_acts {s : Stream} {message : ConsensusMessage}
    {address : Address} (hreceived : message ∈ s.received) :
    LeaderActs support s.core
      (onValidatorConsensusMessage support oracle s message address).1.core := by
  unfold onValidatorConsensusMessage
  split
  · exact .refl
  · next hview =>
    have hready {t : MessageType} (htype : message.messageType = t) :
        VoteReady (s.note (.phase message address)) t message address :=
      .of_dispatch hreceived (not_not.1 hview) htype
    split
    · exact onNewView_acts (Or.inl hreceived)
    · next htype => exact .head (.common _ (.note _ rfl)) (onPrepare_acts (hready htype))
    · next htype => exact .head (.common _ (.note _ rfl)) (onPreCommit_acts (hready htype))
    · next htype => exact .head (.common _ (.note _ rfl)) (onCommit_acts (hready htype))
    · exact .refl

theorem processPendingNewView_acts {messages : List (ConsensusMessage × Address)}
    {s : Stream} (hreceived : ∀ p ∈ messages, p.1 ∈ s.received) :
    LeaderActs support s.core (processPendingNewView support oracle messages s).1.core := by
  induction messages generalizing s with
  | nil => exact .refl
  | cons p messages ih =>
      obtain ⟨message, address⟩ := p
      have hfirst : LeaderActs support s.core
          (onNewView support oracle s message address).1.core :=
        onNewView_acts (Or.inl (hreceived _ List.mem_cons_self))
      have hkeep : (onNewView support oracle s message address).1.received = s.received :=
        (LeaderActs.sameView hfirst).received
      unfold processPendingNewView andThen
      split
      · refine hfirst.trans (ih fun p hp => ?_)
        rw [hkeep]
        exact hreceived p (List.mem_cons_of_mem _ hp)
      · exact hfirst

theorem sendNewViewToSelf_acts (s : Stream) :
    LeaderActs support s.core (sendNewViewToSelf support oracle s).1.core :=
  onNewView_acts (Or.inr rfl)

theorem andThen_acts {c : Core} {r : Stream × Outcome} {k : Stream → Stream × Outcome}
    (hr : LeaderActs support c r.1.core)
    (hk : ∀ s, LeaderActs support s.core (k s).1.core) :
    LeaderActs support c (andThen r k).1.core := by
  unfold andThen
  split
  · exact hr.trans (hk r.1)
  · exact hr

theorem start_acts {s : Stream}
    (hreceived : ∀ p ∈ s.pendingNewViewMessages, p.1 ∈ s.received) :
    LeaderActs support s.core (start support oracle s).1.core := by
  have hdrain : CommonAct support s.core { s with pendingNewViewMessages := [] }.core := by
    refine .queue _ fun m hm => Or.inl ?_
    simp only [Stream.queued, List.map_nil, List.append_nil] at hm
    exact List.mem_append_left _ hm
  unfold start
  refine .head (.common _ hdrain) (andThen_acts ?_ sendNewViewToSelf_acts)
  apply processPendingNewView_acts
  exact hreceived

end LeaderState

/-! ## The replica -/

namespace ReplicaState

variable {support : Support}

theorem core_vote {s : Stream} {leaderAddress : Address}
    (hleader : s.currentLeader = some leaderAddress) (t : MessageType) (view : Nat)
    (node : Node) :
    (vote support s t view node).1.core =
      { s.core with signed := .vote t view (some node) leaderAddress :: s.signed } := by
  unfold vote Stream.signMessage
  simp only [hleader, Stream.sign]
  rw [done, Stream.core_consensusMessage]
  simp only [Stream.core, Stream.queued, hleader]

theorem core_sendNewView (s : Stream) : (sendNewView s).1.core = s.core := by
  unfold sendNewView
  cases s.currentLeader with
  | none => rfl
  | some leaderAddress => exact Stream.core_consensusMessage s leaderAddress _

/-- The handler of a message of the current view is running in a replica. -/
structure Handling (s : Stream) (message : ConsensusMessage) (address : Address) :
    Prop where
  acting : s.core.Acting (.phase message address)
  received : message ∈ s.received
  view : message.view = s.storage.view
  state : s.state = .replica
  wf : s.core.Wf

theorem Handling.vote_acts {s : Stream} {message : ConsensusMessage} {address : Address}
    (h : Handling s message address) {t : MessageType} {view : Nat} {node : Node}
    (justify : QC)
    (hcasts : (s.core.entry (.phase message address)).replicaVote support =
      some (t, view, node, justify)) {s' : Stream}
    (hs : s'.core = s.core.afterVote t justify) :
    ReplicaActs support s.core (vote support s' t view node).1.core := by
  obtain ⟨leaderAddress, hleader, -⟩ := h.wf.replica h.state
  have hleader' : s'.currentLeader = some leaderAddress := by
    have hcore : s'.core.currentLeader = s.core.currentLeader := by
      rw [hs]
      exact Core.afterVote_currentLeader s.core t justify
    exact hcore.trans hleader
  have hsigned : s'.signed = s.signed := by
    have hcore : s'.core.signed = s.core.signed := by
      rw [hs]
      exact Core.afterVote_signed s.core t justify
    exact hcore
  rw [core_vote hleader', hs, hsigned]
  exact .single (.vote message address leaderAddress t view node justify h.acting h.received
    h.view hcasts hleader)

theorem onPreCommit_acts {s : Stream} {message : ConsensusMessage} {address : Address}
    (h : Handling s message address) (htype : message.messageType = .preCommit) :
    ReplicaActs support s.core (onPreCommit support s message).1.core := by
  unfold onPreCommit
  cases hjustify : message.justify with
  | none => exact .refl
  | some justify =>
      simp only
      split
      · exact .refl
      · next u hverify =>
        rw [htype]
        refine h.vote_acts justify ?_ rfl
        simp only [Entry.replicaVote, Core.entry, Stream.core, h.state, htype, hjustify,
          hverify]
        rfl

theorem onCommit_acts {s : Stream} {message : ConsensusMessage} {address : Address}
    (h : Handling s message address) (htype : message.messageType = .commit) :
    ReplicaActs support s.core (onCommit support s message).1.core := by
  unfold onCommit
  cases hjustify : message.justify with
  | none => exact .refl
  | some justify =>
      simp only
      split
      · exact .refl
      · next u hverify =>
        rw [htype]
        refine h.vote_acts justify ?_ rfl
        simp only [Entry.replicaVote, Core.entry, Stream.core, h.state, htype, hjustify,
          hverify]
        rfl

theorem onPrepare_acts {s : Stream} {message : ConsensusMessage} {address : Address}
    (h : Handling s message address) (htype : message.messageType = .prepare) :
    ReplicaActs support s.core (onPrepare support s message).1.core := by
  unfold onPrepare
  cases hjustify : message.justify with
  | none => exact .refl
  | some justify =>
      cases hverify : verifyQc support.basic justify none (s.justifyAuthorities justify) with
      | error e =>
          simp only [hverify]
          exact .refl
      | ok u =>
          simp only [hverify]
          cases hnode : message.node with
          | none => exact .refl
          | some node =>
              cases hproposal : s.storage.getProposal node.blockHash with
              | none =>
                  simp only [hproposal]
                  exact .refl
              | some proposal =>
                  simp only [hproposal]
                  by_cases hparent : node.parentHash = proposal.parentHash
                  · cases hsafe : Stream.safeNode s.storage node justify with
                    | false =>
                        simp only [hparent, ne_eq, not_true_eq_false, if_false,
                          Bool.false_eq_true]
                        exact .refl
                    | true =>
                        simp only [hparent, ne_eq, not_true_eq_false, if_false, if_true]
                        rw [htype]
                        refine h.vote_acts justify ?_ rfl
                        rw [Stream.justifyAuthorities] at hverify
                        simp only [Entry.replicaVote, Core.entry, Stream.core, h.state, htype,
                          hjustify, hnode, hverify, hproposal, hsafe, Option.map_some,
                          hparent]
                        rfl
                  · simp only [hparent, ne_eq, not_false_eq_true, if_true]
                    exact .refl

theorem onDecide_acts {s : Stream} {message : ConsensusMessage} {address : Address}
    (h : Handling s message address) (htype : message.messageType = .decide) :
    ReplicaActs support s.core (onDecide support s message).1.core := by
  unfold onDecide
  cases hjustify : message.justify with
  | none => exact .refl
  | some justify =>
      simp only
      split
      · exact .refl
      · next u hverify =>
        rcases Stream.core_decideBlock support s justify with hs | hs | ⟨chain, hdecides, hs⟩
        · rw [hs]
        · rw [hs]
          exact .single (.common _ (.params none (by simp)))
        · rw [hs]
          exact .single (.decide message address justify chain h.acting h.received htype
            hjustify hverify hdecides)

/-- Keeping a new view message only moves it between queues. -/
theorem onNewView_act {s : Stream} {message : ConsensusMessage} {address : Address}
    (hreceived : message ∈ s.received) :
    CommonAct support s.core (onNewView s message address).core := by
  refine .queue (onNewView s message address).queued fun m hm => ?_
  simp only [Stream.queued, onNewView, List.map_append, List.map_cons, List.map_nil,
    List.mem_append, List.mem_singleton] at hm
  rcases hm with hm | hm | rfl
  · exact Or.inl (List.mem_append_left _ (List.mem_append.2 hm))
  · exact Or.inl (List.mem_append_right _ hm)
  · exact Or.inr hreceived

theorem onValidatorConsensusMessage_acts {s : Stream} {message : ConsensusMessage}
    {address : Address} (hreceived : message ∈ s.received) (hstate : s.state = .replica)
    (hwf : s.core.Wf) :
    ReplicaActs support s.core (onValidatorConsensusMessage support s message address).1.core := by
  unfold onValidatorConsensusMessage
  by_cases hnew : message.messageType = .newView
  · simp only [hnew, if_true]
    split
    · exact .single (.common _ (onNewView_act hreceived))
    · exact .single (.common _ (onNewView_act hreceived))
  · simp only [hnew, if_false]
    split
    · exact .refl
    · next hview =>
      have hnote : ReplicaAct support s.core (s.note (.phase message address)).core :=
        .common _ (.note (.phase message address) rfl)
      have hhandling : Handling (s.note (.phase message address)) message address :=
        ⟨rfl, hreceived, not_not.1 hview, hstate, hnote.wf hwf⟩
      split
      · exact .refl
      · next htype => exact .head hnote (onPrepare_acts hhandling htype)
      · next htype => exact .head hnote (onPreCommit_acts hhandling htype)
      · next htype => exact .head hnote (onCommit_acts hhandling htype)
      · next htype => exact .head hnote (onDecide_acts hhandling htype)

end ReplicaState

theorem ObserverState.onValidatorConsensusMessage_acts {support : Support} {s : Stream}
    {message : ConsensusMessage} {address : Address} (hreceived : message ∈ s.received) :
    CommonActs support s.core
      (onValidatorConsensusMessage s message address).1.core := by
  unfold onValidatorConsensusMessage
  split
  · exact .single (ReplicaState.onNewView_act hreceived)
  · exact .refl

/-! ## Timeouts -/

namespace TimeoutMessageCollector

theorem ByView.add {m : List (Nat × List (Address × TimeoutMessage))} (h : ByView m)
    (address : Address) (message : TimeoutMessage) : ByView (add m address message) := by
  have hold : ∀ q ∈ (AssocMap.get? m message.view).getD [], q.2.view = message.view := by
    intro q hq
    cases hget : AssocMap.get? m message.view with
    | none => simp [hget] at hq
    | some messages =>
        rw [hget] at hq
        exact h _ (AssocMap.mem_of_get?_eq_some hget) q hq
  intro p hp
  rcases AssocMap.mem_insert hp with rfl | hp
  · intro q hq
    dsimp only at hq
    split at hq
    · exact hold q hq
    · rcases AssocMap.mem_insert hq with rfl | hq
      · rfl
      · exact hold q hq
  · exact h p hp

theorem ByView.cleanup {m : List (Nat × List (Address × TimeoutMessage))} (h : ByView m)
    (view : Nat) : ByView (cleanup m view) :=
  fun p hp => h p (List.mem_filter.1 hp).1

theorem Admits.trans {support : Support}
    {m m' m'' : List (Nat × List (Address × TimeoutMessage))} (h : Admits support m m')
    (h' : Admits support m' m'') : Admits support m m'' := by
  intro p hp q hq
  rcases h' p hp q hq with ⟨p', hp', hkey, hq'⟩ | hsigned
  · rw [← hkey]
    exact h p' hp' q hq'
  · exact Or.inr hsigned

theorem admits_of_subset {support : Support}
    {m m' : List (Nat × List (Address × TimeoutMessage))} (h : ∀ p ∈ m', p ∈ m) :
    Admits support m m' :=
  fun p hp _ hq => Or.inl ⟨p, h p hp, rfl, hq⟩

theorem admits_cleanup (support : Support)
    (m : List (Nat × List (Address × TimeoutMessage))) (view : Nat) :
    Admits support m (cleanup m view) :=
  admits_of_subset fun _ hp => (List.mem_filter.1 hp).1

theorem admits_add {support : Support} {message : TimeoutMessage} {address : Address}
    (htype : message.messageType = .newTimeout) (hsigned : message.SignedBy support address)
    (m : List (Nat × List (Address × TimeoutMessage))) :
    Admits support m (add m address message) := by
  have hold : ∀ q ∈ (AssocMap.get? m message.view).getD [],
      ∃ p' ∈ m, p'.1 = message.view ∧ q ∈ p'.2 := by
    intro q hq
    cases hget : AssocMap.get? m message.view with
    | none => simp [hget] at hq
    | some messages =>
        rw [hget] at hq
        exact ⟨_, AssocMap.mem_of_get?_eq_some hget, rfl, hq⟩
  intro p hp q hq
  rcases AssocMap.mem_insert hp with rfl | hp
  · dsimp only at hq ⊢
    split at hq
    · exact Or.inl (hold q hq)
    · rcases AssocMap.mem_insert hq with rfl | hq
      · exact Or.inr ⟨htype, hsigned⟩
      · exact Or.inl (hold q hq)
  · exact Or.inl ⟨p, hp, rfl, hq⟩

/-- The view of a certificate is the one of a collected message. -/
theorem exists_of_collect {authorities : Authorities}
    {messages : List (Address × TimeoutMessage)} {totalWeight : Nat}
    {sig : List (PublicKey × Signature)} {tc : TC}
    (h : collect authorities messages totalWeight sig = .ok (some tc)) :
    ∃ p ∈ messages, p.2.view = tc.view := by
  induction messages generalizing totalWeight sig with
  | nil => cases h
  | cons p messages ih =>
      obtain ⟨address, message⟩ := p
      have htail : (∃ p ∈ messages, p.2.view = tc.view) →
          ∃ p ∈ (address, message) :: messages, p.2.view = tc.view :=
        fun ⟨p, hp, hview⟩ => ⟨p, List.mem_cons_of_mem _ hp, hview⟩
      unfold collect at h
      split at h
      · cases h
      · simp only at h
        split at h
        · cases h
          exact ⟨_, List.mem_cons_self, rfl⟩
        · exact htail (ih h)
      · split at h
        · cases h
          exact ⟨_, List.mem_cons_self, rfl⟩
        · exact htail (ih h)

theorem getTc_view {order : IterOrder} {m : List (Nat × List (Address × TimeoutMessage))}
    (hm : ByView m) {authorities : Authorities} {view : Nat} {tc : TC}
    (h : getTc order m authorities view = .ok (some tc)) : tc.view = view := by
  unfold getTc at h
  cases hget : AssocMap.get? m view with
  | none =>
      rw [hget] at h
      cases h
  | some messages =>
      rw [hget] at h
      obtain ⟨p, hp, hview⟩ := exists_of_collect h
      rw [← hview]
      exact hm _ (AssocMap.mem_of_get?_eq_some hget) p (IterOrder.mem_iterate hp)

theorem quorum_le_of_collect {authorities : Authorities}
    {messages : List (Address × TimeoutMessage)} {totalWeight : Nat}
    {sig : List (PublicKey × Signature)} {tc : TC}
    (h : collect authorities messages totalWeight sig = .ok (some tc)) :
    authorities.quorum ≤ totalWeight +
      (messages.map fun p => (Weights.weight? authorities.members p.1).getD 0).sum := by
  induction messages generalizing totalWeight sig with
  | nil => cases h
  | cons p messages ih =>
      obtain ⟨address, message⟩ := p
      rw [List.map_cons, List.sum_cons, ← Nat.add_assoc]
      unfold collect at h
      split at h
      · cases h
      · next weight s hweight hsig =>
        rw [hweight, Option.getD_some]
        have hwrap : wrapAdd 32 totalWeight weight ≤ totalWeight + weight := Nat.mod_le _ _
        simp only at h
        split at h
        · next hle => exact (hle.trans hwrap).trans (Nat.le_add_right _ _)
        · exact (ih h).trans (Nat.add_le_add_right hwrap _)
      · next hweight =>
        rw [hweight, Option.getD_none, Nat.add_zero]
        split at h
        · next hle => exact hle.trans (Nat.le_add_right _ _)
        · exact ih h

/-- A certificate is only complete when its senders weigh a quorum. -/
theorem quorum_le_weight {order : IterOrder}
    {m : List (Nat × List (Address × TimeoutMessage))} {authorities : Authorities}
    {view : Nat} {tc : TC} (h : getTc order m authorities view = .ok (some tc)) :
    authorities.quorum ≤ weight authorities m view := by
  unfold getTc at h
  cases hget : AssocMap.get? m view with
  | none =>
      rw [hget] at h
      cases h
  | some messages =>
      rw [hget] at h
      let weigh := fun address => (Weights.weight? authorities.members address).getD 0
      have hperm : ((order.iterate messages).map Prod.fst).Perm (messages.map Prod.fst) := by
        rw [order.map_fst_iterate]
        exact order.perm _
      have hsum : ((order.iterate messages).map fun p => weigh p.1).sum =
          (messages.map fun p => weigh p.1).sum := by
        have hmap := (hperm.map weigh).sum_eq
        rw [List.map_map, List.map_map] at hmap
        exact hmap
      have hquorum := quorum_le_of_collect h
      rw [Nat.zero_add, hsum] at hquorum
      rw [weight, hget, Option.getD_some]
      exact hquorum

theorem get?_cleanup (m : List (Nat × List (Address × TimeoutMessage))) (view key : Nat) :
    AssocMap.get? (cleanup m view) key =
      if view < key then AssocMap.get? m key else none := by
  induction m with
  | nil => simp [cleanup]
  | cons p m ih =>
      by_cases hp : view < p.1
      · rw [cleanup, List.filter_cons_of_pos (by simpa using hp), AssocMap.get?_cons,
          AssocMap.get?_cons, ← cleanup, ih]
        by_cases hkey : p.1 = key
        · simp [hkey, hkey ▸ hp]
        · simp [hkey]
      · rw [cleanup, List.filter_cons_of_neg (by simpa using hp), AssocMap.get?_cons,
          ← cleanup, ih]
        by_cases hkey : p.1 = key
        · simp [hkey ▸ hp]
        · simp [hkey]

/-- The sender of a message that is collected counts for its view. -/
theorem weight?_le_weight_add (authorities : Authorities)
    (m : List (Nat × List (Address × TimeoutMessage))) (address : Address)
    (message : TimeoutMessage) :
    (Weights.weight? authorities.members address).getD 0 ≤
      weight authorities (add m address message) message.view := by
  rw [weight, add, AssocMap.get?_insert_self, Option.getD_some]
  split
  · next hmember =>
    obtain ⟨old, hold⟩ := Option.isSome_iff_exists.1 hmember
    exact List.le_sum_of_mem
      (List.mem_map.2 ⟨_, AssocMap.mem_of_get?_eq_some hold, rfl⟩)
  · rw [AssocMap.insert, List.map_cons, List.sum_cons]
    exact Nat.le_add_right _ _

/-- What a clean-up leaves of a view weighs no more than before. -/
theorem weight_add_cleanup_le (authorities : Authorities)
    (m : List (Nat × List (Address × TimeoutMessage))) (view : Nat) (address : Address)
    (message : TimeoutMessage) :
    weight authorities (add (cleanup m view) address message) message.view ≤
      weight authorities (add m address message) message.view := by
  by_cases hview : view < message.view
  · rw [weight, add, get?_cleanup, if_pos hview, AssocMap.get?_insert_self, weight, add,
      AssocMap.get?_insert_self]
  · have halone : weight authorities (add (cleanup m view) address message) message.view =
        (Weights.weight? authorities.members address).getD 0 := by
      rw [weight, add, get?_cleanup, if_neg hview, AssocMap.get?_insert_self]
      simp [AssocMap.insert, AssocMap.erase]
    rw [halone]
    exact weight?_le_weight_add authorities m address message

/-- After a clean-up the first message of an old view is alone: a certificate
is only complete when its sender has the weight of a quorum. -/
theorem getTc_alone {order : IterOrder} {m : List (Nat × List (Address × TimeoutMessage))}
    {authorities : Authorities} {address : Address} {message : TimeoutMessage} {view : Nat}
    (hview : message.view < view) {tc : TC}
    (h : getTc order (add (cleanup m view) address message) authorities message.view =
      .ok (some tc)) : authorities.quorum ≤ authorities.aloneWeight address := by
  have hnone : AssocMap.get? (cleanup m view) message.view = none := by
    cases hget : AssocMap.get? (cleanup m view) message.view with
    | none => rfl
    | some messages =>
        have hlater : view < message.view := by
          simpa using (List.mem_filter.1 (AssocMap.mem_of_get?_eq_some hget)).2
        exact absurd (hlater.trans hview) (lt_irrefl view)
  have hkeys : order.keys [address] = [address] :=
    List.perm_singleton.1 (order.perm [address])
  have hiterate : order.iterate [(address, message)] = [(address, message)] := by
    simp [IterOrder.iterate, hkeys]
  rw [getTc, add, hnone] at h
  simp only [Option.getD_none, AssocMap.get?_nil, Option.isSome_none, Bool.false_eq_true,
    if_false, AssocMap.get?_insert_self] at h
  have hsingle : AssocMap.insert [] address message = [(address, message)] := rfl
  rw [hsingle, hiterate] at h
  unfold Authorities.aloneWeight
  cases hweight : Weights.weight? authorities.members address with
  | none =>
      simp only [collect, hweight] at h
      split at h
      · assumption
      · cases h
  | some weight =>
      cases hsig : message.sig with
      | none => simp [collect, hweight, hsig] at h
      | some sig =>
          simp only [collect, hweight, hsig] at h
          split at h
          · assumption
          · cases h

end TimeoutMessageCollector

namespace Stream

variable {support : Support} {oracle : Oracle}

/-- What collecting a timeout leaves: the message is in the collector, and a
completed certificate has moved the view and cleaned the collector up. -/
theorem core_collectTimeout (oracle : Oracle) {s : Stream}
    (hs : TimeoutMessageCollector.ByView s.timeoutMessageCollector)
    (message : TimeoutMessage) (address : Address) :
    ∃ timeouts second,
      (s.collectTimeout oracle message address).1.core =
        { s.core.timeoutSecond message second with timeouts } ∧
      TimeoutMessageCollector.ByView timeouts ∧
      (∀ p ∈ timeouts,
        p ∈ TimeoutMessageCollector.add s.timeoutMessageCollector address message) ∧
      (second = true → ∃ tc, TimeoutMessageCollector.getTc oracle.timeoutOrder
        (TimeoutMessageCollector.add s.timeoutMessageCollector address message)
        s.authorities message.view = .ok (some tc)) := by
  have hadd := hs.add address message
  unfold collectTimeout
  simp only
  split
  · exact ⟨_, false, rfl, hadd, fun p hp => hp, fun h => by cases h⟩
  · exact ⟨_, false, rfl, hadd, fun p hp => hp, fun h => by cases h⟩
  · next tc htc =>
    refine ⟨_, true, ?_, hadd.cleanup tc.view, fun p hp => (List.mem_filter.1 hp).1,
      fun _ => ⟨tc, htc⟩⟩
    rw [done, core_foldl fun s a => core_timeoutMessage s a _]
    have hview : tc.view = message.view := TimeoutMessageCollector.getTc_view hadd htc
    rw [hview]
    rfl

theorem onTimeoutNewTimeout_acts {s : Stream} {message : TimeoutMessage}
    {address : Address} (hacting : s.core.Acting (.timeout message address))
    (htype : message.messageType = .newTimeout) (hview : s.storage.view ≤ message.view)
    (hwf : s.core.Wf) :
    Acts support event s.core (s.onTimeoutNewTimeout support oracle message address).1.core := by
  unfold onTimeoutNewTimeout
  cases hsig : message.sig with
  | none => exact .refl
  | some sig =>
      obtain ⟨publicKey, signature⟩ := sig
      simp only
      by_cases hsigner : support.basic.address publicKey = address
      · rw [if_neg (not_not.2 hsigner)]
        cases hverify : support.basic.verify (.timeout message.messageType message.view)
            publicKey signature with
        | error e => exact .refl
        | ok u =>
            have hsigned : message.SignedBy support address :=
              ⟨_, hsig, hsigner, hverify⟩
            have hadmits := TimeoutMessageCollector.admits_add htype hsigned
            -- without a valid attached certificate the view moves at most once
            have hplain : Acts support event s.core
                (s.collectTimeout oracle message address).1.core := by
              obtain ⟨timeouts, second, hcore, hby, hsub, hcomplete⟩ :=
                core_collectTimeout oracle hwf.timeouts message address
              rw [hcore]
              have hlast := @TimeoutMessageCollector.admits_of_subset support _ _ hsub
              refine .head (.newTimeout message address none second hacting htype hsigned
                hview ?_ ?_ fun hsecond => ?_) (.single ?_)
              · simp
              · simp
              · obtain ⟨tc, htc⟩ := hcomplete hsecond
                exact TimeoutMessageCollector.quorum_le_weight htc
              · have hall := (hadmits s.timeoutMessageCollector).trans hlast
                cases second with
                | false => exact .timeouts timeouts (fun _ => hby) hall
                | true => exact .timeouts timeouts (fun _ => hby) hall
            unfold processTc
            cases hjustify : message.justify with
            | none => exact hplain
            | some justify =>
                simp only
                by_cases hold : s.storage.view ≤ justify.view
                · rw [if_pos hold]
                  cases htc : verifyTc support.basic justify s.authorities with
                  | error e => exact .refl
                  | ok u =>
                      obtain ⟨timeouts, second, hcore, hby, hsub, hcomplete⟩ :=
                        core_collectTimeout oracle
                          (s := s.advanceView justify.view)
                          (TimeoutMessageCollector.ByView.cleanup hwf.timeouts justify.view)
                          message address
                      simp only
                      rw [hcore]
                      refine .head (.newTimeout message address (some justify) second
                        hacting htype hsigned hview ?_ ?_ fun hsecond => ?_) (.single ?_)
                      · rintro tc htc'
                        cases htc'
                        exact ⟨hjustify, hold, htc⟩
                      · rintro hsecond tc htc' hlater
                        cases htc'
                        obtain ⟨tc', htc'⟩ := hcomplete hsecond
                        exact TimeoutMessageCollector.getTc_alone hlater htc'
                      · obtain ⟨tc, htc⟩ := hcomplete hsecond
                        exact (TimeoutMessageCollector.quorum_le_weight htc).trans
                          (TimeoutMessageCollector.weight_add_cleanup_le _ _ _ _ _)
                      · have hlast := @TimeoutMessageCollector.admits_of_subset support _ _ hsub
                        have hall := ((TimeoutMessageCollector.admits_cleanup support
                          s.timeoutMessageCollector justify.view).trans
                            (hadmits _)).trans hlast
                        cases second with
                        | false => exact .timeouts timeouts (fun _ => hby) hall
                        | true => exact .timeouts timeouts (fun _ => hby) hall
                · rw [if_neg hold]
                  exact hplain
      · rw [if_pos hsigner]
        exact .refl

theorem onTimeoutDecide_acts {s : Stream} {message : TimeoutMessage}
    {address : Address} (hacting : s.core.Acting (.timeout message address))
    (htype : message.messageType = .decide) :
    Acts support event s.core (s.onTimeoutDecide support message).1.core := by
  unfold onTimeoutDecide
  cases hjustify : message.justify with
  | none => exact .refl
  | some justify =>
      simp only
      split
      · exact .refl
      · next u htc =>
        exact .head (.decideTimeout message address justify hacting htype hjustify htc)
          (.single (.timeouts _ (fun h => h.cleanup justify.view)
            (TimeoutMessageCollector.admits_cleanup support _ _)))

theorem onTimeoutMessage_acts {s : Stream} (hwf : s.core.Wf) (message : TimeoutMessage)
    (address : Address) :
    Acts support event s.core (s.onTimeoutMessage support oracle message address).1.core := by
  unfold onTimeoutMessage
  split
  · exact .refl
  · next hview =>
    have hnote : Act support event s.core (s.note (.timeout message address)).core :=
      .common _ (.note (.timeout message address) rfl)
    simp only
    split
    · next htype =>
      exact .head hnote (onTimeoutNewTimeout_acts rfl htype (not_lt.1 hview)
        (hnote.wf hwf))
    · next htype => exact .head hnote (onTimeoutDecide_acts rfl htype)

theorem onTimeout_acts {s : Stream} (hwf : s.core.Wf) :
    Acts support event s.core (s.onTimeout support oracle).1.core := by
  have hsign : Act support event s.core
      { s with signed := .timeout .newTimeout s.storage.view :: s.signed }.core :=
    .sign (.timeout .newTimeout s.storage.view) (by simp)
  unfold onTimeout
  simp only [sign]
  rw [core_andThen fun s => core_foldl (fun s a => core_timeoutMessage s a _) _ s]
  refine .head hsign (onTimeoutMessage_acts (hsign.wf hwf) _ _)

/-! ## Events -/

theorem core_logged (r : Stream × Outcome) : (logged r).core = r.1.core := by
  unfold logged
  split
  · rfl
  · rfl

theorem core_fatal (r : Stream × Outcome) : (fatal r).core = r.1.core := by
  unfold fatal
  split
  · rfl
  · rfl

theorem registerValidator_acts (s : Stream) (peerId : PeerId) :
    Acts support event s.core (s.registerValidator support peerId).core := by
  unfold registerValidator
  cases AssocMap.get? s.peers peerId with
  | none => exact .refl
  | some peerInfo =>
      exact .single (.sign (.nonce peerInfo.remoteNonce) (by simp))

theorem core_onReqRegisterValidator (s : Stream) (peerId : PeerId)
    (req : RegisterValidatorReq) :
    (s.onReqRegisterValidator support peerId req).1.core = s.core := by
  unfold onReqRegisterValidator
  split
  · rfl
  · split
    · rfl
    · simp [core, queued, InternalMessage.consensus?]

theorem onResRequestProposal_acts (s : Stream) (address : Address)
    (res : RequestProposalRes) :
    Acts support event s.core (s.onResRequestProposal support oracle address res).1.core := by
  unfold onResRequestProposal
  cases res.proposal with
  | none => exact .refl
  | some proposal =>
      simp only
      rw [core_andThen fun s => by simp [done, core, queued, InternalMessage.consensus?]]
      exact s.onProposal_acts support oracle proposal

/-- A received message is queued. -/
theorem receive_acts (s : Stream) (peerId : PeerId) (message : ConsensusMessage) :
    Acts support (.message peerId (some (.consensusMessage message))) s.core
      { s with
        internal := s.internal ++ [InternalMessage.consensusMessage message peerId]
        received := message :: s.received }.core := by
  refine .head (.receive peerId message rfl) (.single (.common _ (.queue _ fun m hm => ?_)))
  simp only [queued, List.filterMap_append, List.mem_append] at hm
  rcases hm with ((hm | hm) | hm) | hm
  · exact Or.inl (List.mem_append_left _ (List.mem_append_left _ hm))
  · have heq : m = message := by simpa [InternalMessage.consensus?] using hm
    exact Or.inr (heq ▸ List.mem_cons_self)
  · exact Or.inl (List.mem_append_left _ (List.mem_append_right _ hm))
  · exact Or.inl (List.mem_append_right _ hm)

theorem onNetworkMessage_acts {s : Stream} (hwf : s.core.Wf) (peerId : PeerId)
    (message : HotStuffMessage) :
    Acts support (.message peerId (some message)) s.core
      (s.onNetworkMessage support oracle peerId message).1.core := by
  cases message with
  | registerValidatorReq req =>
      simp only [onNetworkMessage, done, core_response]
      rw [core_onReqRegisterValidator]
  | registerValidatorRes res => exact .refl
  | requestProposalReq req =>
      unfold onNetworkMessage
      simp only
      split
      · unfold onReqRequestProposal
        split
        · exact .refl
        · exact .refl
      · exact .refl
  | requestProposalRes res =>
      unfold onNetworkMessage
      simp only
      split
      · exact s.onResRequestProposal_acts _ res
      · exact .refl
  | consensusMessage message => exact s.receive_acts peerId message
  | timeoutMessage message =>
      unfold onNetworkMessage
      simp only
      split
      · exact onTimeoutMessage_acts hwf message _
      · exact .refl

theorem onBlockCommitted_acts (s : Stream) :
    Acts support event s.core (s.onBlockCommitted support).1.core := by
  unfold onBlockCommitted
  split
  · exact .refl
  · next storage h => exact .single (.refresh storage h)

/-- The leader runs in the view it was started for. -/
def Settled (s : Stream) : Prop := s.storage.view = s.currentView

theorem onValidatorConsensusMessage_acts {s : Stream} {message : ConsensusMessage}
    {address : Address} (hreceived : message ∈ s.received) (hwf : s.core.Wf)
    (hset : s.Settled) :
    Acts support event s.core
      (s.onValidatorConsensusMessage support oracle message address).1.core := by
  unfold onValidatorConsensusMessage
  split
  · next hstate =>
    exact (LeaderState.onValidatorConsensusMessage_acts hreceived).acts hstate hset
  · next hstate =>
    exact (ReplicaState.onValidatorConsensusMessage_acts hreceived hstate hwf).acts hstate
  · exact CommonActs.acts (ObserverState.onValidatorConsensusMessage_acts hreceived)

theorem onConsensusMessage_acts {s : Stream} {message : ConsensusMessage} {peerId : PeerId}
    (hreceived : message ∈ s.received) (hwf : s.core.Wf) (hset : s.Settled) :
    Acts support event s.core (s.onConsensusMessage support oracle message peerId).1.core := by
  unfold onConsensusMessage
  split
  · split
    · exact onValidatorConsensusMessage_acts hreceived hwf hset
    · exact .refl
  · refine .single (.common _ (.queue _ fun m hm => ?_))
    simp only [queued, List.mem_append, List.mem_flatMap] at hm
    rcases hm with (hm | ⟨p, hp, hm⟩) | hm
    · exact Or.inl (List.mem_append_left _ (List.mem_append_left _ hm))
    · have hpending : ∀ p ∈ s.pendingConsensusMessages, m ∈ p.2 → m ∈ s.queued :=
        fun p hp hm => List.mem_append_left _
          (List.mem_append_right _ (List.mem_flatMap.2 ⟨p, hp, hm⟩))
      rcases AssocMap.mem_insert hp with rfl | hp
      · rcases List.mem_append.1 hm with hm | hm
        · cases hget : AssocMap.get? s.pendingConsensusMessages peerId with
          | none => simp [hget] at hm
          | some messages =>
              rw [hget] at hm
              exact Or.inl (hpending _ (AssocMap.mem_of_get?_eq_some hget) hm)
        · exact Or.inr (List.mem_singleton.1 hm ▸ hreceived)
      · exact Or.inl (hpending p hp hm)
    · exact Or.inl (List.mem_append_right _ hm)

/-- Replaying keeps to any reflexive and transitive relation that the handler
keeps to, as long as the messages stay received. -/
theorem replay_induction {R : Core → Core → Prop} (hrefl : ∀ c, R c c)
    (htrans : ∀ {c c' c''}, R c c' → R c' c'' → R c c'')
    (hreceived : ∀ {c c' : Core}, R c c' → c'.received = c.received)
    {P : Core → Prop} (hP : ∀ {c c'}, R c c' → P c → P c')
    {handler : Stream → ConsensusMessage → Stream × Outcome}
    (hhandler : ∀ (s : Stream) (message : ConsensusMessage), message ∈ s.received →
      P s.core → R s.core (handler s message).1.core)
    {messages : List ConsensusMessage} {s : Stream}
    (hmessages : ∀ m ∈ messages, m ∈ s.received) (hs : P s.core) :
    R s.core (replay handler messages s).1.core := by
  induction messages generalizing s with
  | nil => exact hrefl s.core
  | cons message messages ih =>
      have hfirst := hhandler s message (hmessages _ List.mem_cons_self) hs
      unfold replay andThen
      split
      · refine htrans hfirst (ih (fun m hm => ?_) (hP hfirst hs))
        have hkeep : (handler s message).1.received = s.received := hreceived hfirst
        rw [hkeep]
        exact hmessages m (List.mem_cons_of_mem _ hm)
      · exact hfirst

/-- Taking the pending messages of a peer out of their queue. -/
theorem erasePending_act (s : Stream) (peerId : PeerId) :
    CommonAct support s.core
      { s with
        pendingConsensusMessages :=
          AssocMap.erase s.pendingConsensusMessages peerId }.core := by
  refine .queue _ fun m hm => Or.inl ?_
  simp only [queued, List.mem_append, List.mem_flatMap] at hm
  rcases hm with (hm | ⟨p, hp, hm⟩) | hm
  · exact List.mem_append_left _ (List.mem_append_left _ hm)
  · exact List.mem_append_left _ (List.mem_append_right _
      (List.mem_flatMap.2 ⟨p, (List.mem_filter.1 hp).1, hm⟩))
  · exact List.mem_append_right _ hm

theorem mem_received_of_pending {s : Stream} (hwf : s.core.Wf) {peerId : PeerId}
    {messages : List ConsensusMessage}
    (hget : AssocMap.get? s.pendingConsensusMessages peerId = some messages) :
    ∀ m ∈ messages, m ∈ s.received := by
  intro m hm
  refine hwf.queued m (List.mem_append_left _ (List.mem_append_right _ ?_))
  exact List.mem_flatMap.2 ⟨_, AssocMap.mem_of_get?_eq_some hget, hm⟩

theorem onValidatorRegistered_acts {s : Stream} (hwf : s.core.Wf) (hset : s.Settled)
    (address : Address) (peerId : PeerId) :
    Acts support event s.core (s.onValidatorRegistered support oracle address peerId).1.core := by
  unfold onValidatorRegistered
  split
  · next hstate =>
    unfold replayPending
    split
    · exact .refl
    · next messages hget =>
      refine LeaderActs.acts (.head (.common _ (s.erasePending_act peerId)) ?_) hstate hset
      exact replay_induction (P := fun _ => True) (fun _ => .refl)
        (fun h h' => h.trans h') (fun h => (LeaderActs.sameView h).received)
        (fun _ h => h)
        (fun s message hm _ => LeaderState.onValidatorConsensusMessage_acts hm)
        (mem_received_of_pending hwf hget) trivial
  · next hstate =>
    have hreplay : ∀ s' : Stream, s'.core = s.core →
        Acts support event s'.core (s'.replayPending peerId fun s message =>
          ReplicaState.onValidatorConsensusMessage support s message address).1.core := by
      intro s' hs'
      have hwf' : s'.core.Wf := hs' ▸ hwf
      have hstate' : s'.core.state = .replica := hs' ▸ hstate
      unfold replayPending
      split
      · exact .refl
      · next messages hget =>
        have herase : CommonAct support s'.core _ := s'.erasePending_act peerId
        refine ReplicaActs.acts (.head (.common _ herase) ?_) hstate'
        exact replay_induction (P := fun c => c.state = .replica ∧ c.Wf) (fun _ => .refl)
          (fun h h' => h.trans h') (fun h => (ReplicaActs.sameView h).received)
          (fun h hc => ⟨(ReplicaActs.sameView h).state.trans hc.1,
            ReplicaActs.wf h hc.2⟩)
          (fun s message hm hc =>
            ReplicaState.onValidatorConsensusMessage_acts hm hc.1 hc.2)
          (mem_received_of_pending hwf' hget) ⟨hstate', herase.wf hwf'⟩
    simp only
    split
    · have hsend := ReplicaState.core_sendNewView s
      unfold andThen
      split
      · rw [← hsend]
        exact hreplay _ hsend
      · rw [hsend]
    · exact hreplay s rfl
  · unfold replayPending
    split
    · exact .refl
    · next messages hget =>
      refine CommonActs.acts (.head (s.erasePending_act peerId) ?_)
      exact replay_induction (P := fun _ => True) (fun _ => .refl)
        (fun h h' => h.trans h') (fun h => (CommonActs.sameView h).received)
        (fun _ h => h)
        (fun s message hm _ => ObserverState.onValidatorConsensusMessage_acts hm)
        (mem_received_of_pending hwf hget) trivial

theorem onInternalMessage_acts {s : Stream} {internalMessage : InternalMessage}
    (hreceived : ∀ message ∈ internalMessage.consensus?, message ∈ s.received)
    (hwf : s.core.Wf) (hset : s.Settled) :
    Acts support event s.core (s.onInternalMessage support oracle internalMessage).1.core := by
  cases internalMessage with
  | validatorRegistered address peerId => exact onValidatorRegistered_acts hwf hset _ _
  | consensusMessage message peerId =>
      exact onConsensusMessage_acts (hreceived message rfl) hwf hset
  | proposal address proposal =>
      unfold onInternalMessage
      simp only
      split
      · next hstate =>
        exact (LeaderState.onRemoteProposal_acts hwf proposal).acts hstate hset
      · exact .refl

/-- Taking a message out of the internal queue. -/
theorem popInternal_act {s : Stream} {internalMessage : InternalMessage}
    {rest : List InternalMessage} (hinternal : s.internal = internalMessage :: rest) :
    CommonAct support s.core { s with internal := rest }.core := by
  refine .queue _ fun m hm => Or.inl ?_
  simp only [queued, List.mem_append, List.mem_filterMap] at hm
  rcases hm with (⟨x, hx, hm⟩ | hm) | hm
  · refine List.mem_append_left _ (List.mem_append_left _ (List.mem_filterMap.2 ⟨x, ?_, hm⟩))
    rw [hinternal]
    exact List.mem_cons_of_mem _ hx
  · exact List.mem_append_left _ (List.mem_append_right _ hm)
  · exact List.mem_append_right _ hm

theorem runView_acts (support : Support) (oracle : Oracle) (event : Event) {s : Stream}
    (hwf : s.core.Wf) :
    Acts support event s.core (s.runView support oracle).1.core ∧
      ((s.runView support oracle).2 = .ok () →
        (s.runView support oracle).1.Settled) := by
  unfold runView
  cases s.computeLeader with
  | error e => exact ⟨.refl, fun h => by cases h⟩
  | ok leader =>
      simp only
      have hact (state : State) (hown : state = .leader → s.address = leader)
          (hother : state = .replica → s.address ≠ leader) :
          Act support event s.core
            { s with
              state
              currentLeader := some leader
              currentView := s.storage.view
              leader := LeaderState.new }.core :=
        .runView state leader hown hother
      by_cases hown : s.address = leader
      · rw [if_pos hown]
        simp only
        have hstart := hact .leader (fun _ => hown) (fun h => by cases h)
        have hacts : LeaderActs support
            { s with
              state := .leader
              currentLeader := some leader
              currentView := s.storage.view
              leader := LeaderState.new }.core
            (LeaderState.start support oracle
              { s with
                state := .leader
                currentLeader := some leader
                currentView := s.storage.view
                leader := LeaderState.new }).1.core := by
          refine LeaderState.start_acts ?_
          intro p hp
          exact hwf.queued _ (List.mem_append_right _ (List.mem_map_of_mem hp))
        refine ⟨.head hstart (hacts.acts rfl rfl), fun _ => ?_⟩
        have hsame := LeaderActs.sameView hacts
        exact hsame.view.trans hsame.currentView.symm
      · rw [if_neg hown]
        by_cases hmember : s.authorities.members.any fun member => member.1 = s.address
        · simp only [hmember, if_true]
          rw [ReplicaState.core_sendNewView]
          refine ⟨.single (hact .replica (fun h => by cases h) fun _ => hown), fun _ => ?_⟩
          have hcore := ReplicaState.core_sendNewView
            { s with
              state := .replica
              currentLeader := some leader
              currentView := s.storage.view
              leader := LeaderState.new }
          have hview := congrArg (fun c : Core => c.storage.view) hcore
          have hcurrent := congrArg Core.currentView hcore
          exact hview.trans hcurrent.symm
        · simp only [hmember]
          exact ⟨.single (hact .observer (fun h => by cases h) fun h => by cases h),
            fun _ => rfl⟩

/-- A running node is in the view its role was started for. -/
def Running (s : Stream) : Prop := s.halted = false → s.Settled

theorem fatal_running {r : Stream × Outcome} (h : r.2 = .ok () → r.1.Settled) :
    (fatal r).Running := by
  unfold fatal
  split
  · intro hhalted
    cases hhalted
  · next hok => exact fun _ => h hok

/-- A start reads the storage first. -/
theorem spawn_restarted (oracle : Oracle) {s : Stream} (hwf : s.core.Wf) {storage : Storage}
    (h : Storage.refresh support s.storage.chain s.storage.db = some storage) :
    Acts support event (s.core.restarted support storage) (s.spawn support oracle).core ∧
      (s.spawn support oracle).Running := by
  unfold spawn Storage.new
  split
  · next hnone =>
    rw [hnone] at h
    cases h
  · next storage' h' =>
    rw [h'] at h
    cases h
    have hrestart : Act support event s.core (s.core.restarted support storage) :=
      .restart storage h'
    have hrun := runView_acts support oracle event
      (s := { s.setStorage storage with
        peers := []
        knownValidators := []
        nextRequestId := 0
        currentLeader := none
        state := .observer
        leader := LeaderState.new
        authorities := support.getHotstuffAuthorities storage.chain storage.chain.length
        lastAuthorities :=
          support.getHotstuffAuthorities storage.chain (storage.chain.length - 1)
        internal := []
        notices := 0
        unread := 0
        commitBlockParams := none
        pendingConsensusMessages := []
        pendingNewViewMessages := []
        timeoutMessageCollector := []
        timeoutTc := none
        halted := false }) (hrestart.wf hwf)
    refine ⟨?_, fatal_running hrun.2⟩
    rw [core_fatal]
    exact hrun.1

theorem spawn_acts (support : Support) (oracle : Oracle) (event : Event) {s : Stream}
    (hwf : s.core.Wf) :
    Acts support event s.core (s.spawn support oracle).core ∧
      (s.spawn support oracle).Running := by
  cases h : Storage.refresh support s.storage.chain s.storage.db with
  | none =>
      unfold spawn Storage.new
      rw [h]
      refine ⟨.refl, fun hhalted => ?_⟩
      cases hhalted
  | some storage =>
      obtain ⟨hacts, hrun⟩ := spawn_restarted oracle hwf h
      exact ⟨.head (.restart storage h) hacts, hrun⟩

theorem syncBlock_acts {s : Stream} (hrun : s.Running) (block : ConfirmedBlock) :
    Acts support (.sync block) s.core (s.syncBlock support block).core ∧
      (s.syncBlock support block).Running := by
  unfold syncBlock
  split
  · next chain hverify hcommit =>
    exact ⟨.single (.sync block _ chain rfl rfl rfl hcommit), hrun⟩
  · exact ⟨.refl, hrun⟩

theorem handle_acts {s : Stream} (hwf : s.core.Wf) (hset : s.Settled) (event : Event) :
    Acts support event s.core (s.handle support oracle event).core := by
  cases event with
  | timeout =>
      unfold handle
      simp only
      split
      · exact .refl
      · rw [core_fatal]
        exact onTimeout_acts hwf
  | schedule timestamp =>
      unfold handle
      simp only
      split
      · next hstate =>
        rw [core_logged]
        exact LeaderActs.acts (LeaderState.tryWork_acts (by simp)) hstate hset
      · exact .refl
  | internal =>
      unfold handle
      simp only
      split
      · exact .refl
      · next internalMessage rest hinternal =>
        rw [core_logged]
        have hpop : CommonAct support s.core { s with internal := rest }.core :=
          popInternal_act hinternal
        refine .head (.common _ hpop) (onInternalMessage_acts ?_ (hpop.wf hwf) hset)
        intro message hmessage
        refine hwf.queued message (List.mem_append_left _ (List.mem_append_left _ ?_))
        refine List.mem_filterMap.2 ⟨internalMessage, ?_, hmessage⟩
        rw [hinternal]
        exact List.mem_cons_self
  | «open» peerId localNonce remoteNonce =>
      exact registerValidator_acts
        { s with
          peers := AssocMap.insert s.peers peerId
            { localNonce, remoteNonce, address := none } } peerId
  | close peerId => exact .refl
  | message peerId message =>
      cases message with
      | none => exact .refl
      | some message =>
          unfold handle
          simp only
          rw [core_logged]
          exact onNetworkMessage_acts hwf peerId message
  | blockCommitted =>
      unfold handle
      simp only
      split
      · exact .refl
      · rw [core_logged]
        exact onBlockCommitted_acts { s with notices := s.notices - 1 }
  | restart => exact .refl
  | sync block => exact .refl

/-- Whatever event a node handles, its core moves by acts, and it stays in the
view of its role. -/
theorem step_acts (support : Support) (oracle : Oracle) {s : Stream} (hwf : s.core.Wf)
    (hrun : s.Running) (event : Event) :
    Acts support event s.core (s.step support oracle event).core ∧
      (s.step support oracle event).Running := by
  have hloop : Acts support event s.core
      (if s.halted then s
        else
          let s := s.handle support oracle event
          if s.halted ∨ s.storage.view = s.currentView then s
          else fatal (s.runView support oracle)).core ∧
      (if s.halted then s
        else
          let s := s.handle support oracle event
          if s.halted ∨ s.storage.view = s.currentView then s
          else fatal (s.runView support oracle)).Running := by
    split
    · exact ⟨.refl, hrun⟩
    · next hhalted =>
      have hacts : Acts support event s.core (s.handle support oracle event).core :=
        handle_acts hwf (hrun (by simpa using hhalted)) event
      simp only
      split
      · next hstay =>
        refine ⟨hacts, fun hrunning => ?_⟩
        rcases hstay with hstop | hview
        · rw [hrunning] at hstop
          cases hstop
        · exact hview
      · have hview := runView_acts support oracle event
          (Acts.wf hacts hwf)
        refine ⟨?_, fatal_running hview.2⟩
        rw [core_fatal]
        exact hacts.trans hview.1
  cases event with
  | restart => exact spawn_acts support oracle .restart hwf
  | sync block => exact syncBlock_acts hrun block
  | timeout => exact hloop
  | schedule timestamp => exact hloop
  | internal => exact hloop
  | «open» peerId localNonce remoteNonce => exact hloop
  | close peerId => exact hloop
  | message peerId message => exact hloop
  | blockCommitted => exact hloop

end Stream

end Finastate.Hotstuff
