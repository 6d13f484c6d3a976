import Finastate.Hotstuff.Views

/-!
# A network of honest nodes

The honest nodes of a network run the code; everything else is left to the
adversary, which delivers any event to any node in any order. The one thing it
cannot do is to make a valid signature under the key of an honest node: what an
event carries under such a key, the node has signed before.

`Network.Agrees` is what consensus is for: two honest nodes that have a block
of a number have the same one. `Entry.Proper` collects what the handlers take
for granted without checking it.
-/

namespace Finastate.Hotstuff

/-! ## Events and their signatures -/

def HotStuffMessage.signatures : HotStuffMessage → List (PublicKey × Signature)
  | .registerValidatorReq req => [(req.publicKey, req.signature)]
  | .consensusMessage message =>
      message.sig.toList ++ message.justify.toList.flatMap QC.sig
  | .timeoutMessage message =>
      message.sig.toList ++ message.justify.toList.flatMap TC.sig
  | _ => []

def Event.signatures : Event → List (PublicKey × Signature)
  | .message _ (some content) => content.signatures
  | .sync block => block.commitQc.sig
  | _ => []

/-- One authority set for all blocks, the honest nodes with their keys, and a
hash without collisions. The members that are not honest weigh at most a third
of the others. -/
structure Network where
  support : Support
  authorities : Authorities
  honest : Finset Address
  secretKey : Address → SecretKey
  fixed : ∀ chain, aggregateAuthorities (support.getAuthorities chain) = authorities
  total_pos : 0 < Weights.total authorities.members
  total_lt : Weights.total authorities.members < 2 ^ 32
  faulty_le : Weights.weightOf authorities.members
    ((authorities.members.map Prod.fst).toFinset \ honest) ≤
      (Weights.total authorities.members - 1) / 3
  own : ∀ a ∈ honest, support.basic.address (support.basic.publicKey (secretKey a)) = a
  hash_injective : Function.Injective support.basic.hash
  genesis_number : support.genesisHeader.number = 0

namespace Network

variable (net : Network)

/-- What is signed under the key of an honest node, the node has signed. -/
def Unforged (nodes : Address → Stream) (event : Event) : Prop :=
  ∀ s ∈ event.signatures, ∀ message,
    net.support.basic.verify message s.1 s.2 = .ok () →
      net.support.basic.address s.1 ∈ net.honest →
        message ∈ (nodes (net.support.basic.address s.1)).signed

/-- The states that the honest nodes can reach together. -/
inductive Reach : (Address → Stream) → Prop
  | start (oracle : Address → Oracle) :
      Reach fun a => (Stream.blank net.support (net.secretKey a)).spawn net.support (oracle a)
  | step {nodes : Address → Stream} (h : Reach nodes) (a : Address) (ha : a ∈ net.honest)
      (oracle : Oracle) (event : Event) (unforged : net.Unforged nodes event) :
      Reach (Function.update nodes a ((nodes a).step net.support oracle event))

/-- Honest nodes do not have different blocks of one number. -/
def Agrees (nodes : Address → Stream) : Prop :=
  ∀ a ∈ net.honest, ∀ b ∈ net.honest, ∀ number hash hash',
    net.support.getBlockHash (nodes a).storage.chain number = some hash →
    net.support.getBlockHash (nodes b).storage.chain number = some hash' → hash = hash'

/-- Every node of the network is in a run of its own. -/
theorem Reach.run {net : Network} {nodes : Address → Stream} (h : net.Reach nodes) (a : Address) :
    Run net.support (net.secretKey a) (nodes a) := by
  induction h with
  | start oracle => exact .start (oracle a)
  | step h b hb oracle event unforged ih =>
      by_cases hab : a = b
      · subst hab
        rw [Function.update_self]
        exact ih.step oracle event
      · rw [Function.update_of_ne hab]
        exact ih

end Network

/-! ## What has to be granted -/

/-- The certificate is for genesis, or members of quorum weight, each counted
once, have signed it. -/
def QC.Genuine (support : Support) (authorities : Authorities) (qc : QC) : Prop :=
  if qc.view = 0 then qc.node.blockHash = support.genesisHash
  else authorities.exactQuorum ≤ signedWeight support.basic authorities qc.sigMessage qc.sig

instance (support : Support) (authorities : Authorities) (qc : QC) :
    Decidable (qc.Genuine support authorities) :=
  inferInstanceAs (Decidable (if qc.view = 0 then _ else _))

/-- What the leader proposes, and on which certificate. -/
def Action.propose? : Action → Option (Node × QC)
  | .propose node highQc => some (node, highQc)
  | _ => none

/-- The view and the node of a prepare vote, of a replica or of the leader for its
own proposal. -/
def Entry.prepares (support : Support) (e : Entry) : Option (Nat × Node) :=
  match e.action, e.replicaVote support with
  | .propose node _, _ => some (e.storage.view, node)
  | _, some (.prepare, view, node, _) => some (view, node)
  | _, _ => none

/-- What the handlers rely on and do not check. Timeout messages keep the view.
The certificates that are acted on are genuine, those of the later phases of the
view of the message. A proposal of the leader itself passes the checks of a
replica. The certificate of a new block is a commit certificate, for this block.
Nobody votes in the name of the leader. -/
@[mk_iff]
structure Entry.Proper (support : Support) (authorities : Authorities) (address : Address)
    (e : Entry) : Prop where
  keepsView : e.KeepsView support
  votes : ∀ vote ∈ e.replicaVote support, vote.2.2.2.Genuine support authorities ∧
    (vote.1 ≠ .prepare → vote.2.2.2.view = vote.2.1)
  proposals : ∀ p ∈ e.action.propose?, p.2.Genuine support authorities ∧
    (e.storage.getProposal p.1.blockHash).map Proposal.parentHash = some p.1.parentHash ∧
    Stream.safeNode e.storage p.1 p.2
  commits : ∀ qc ∈ e.commitQc? support,
    qc.view ≠ 0 ∧ qc.messageType = .commit ∧ qc.Genuine support authorities
  blocks : ∀ block ∈ e.action.block?,
    block.commitQc.node.blockHash = support.basic.hash block.header
  foreign : ∀ p ∈ e.action.phase?, e.state = .leader → p.2 = address →
    p.1.messageType = .newView

instance (support : Support) (authorities : Authorities) (address : Address) (e : Entry) :
    Decidable (e.Proper support authorities address) :=
  decidable_of_iff _ (Entry.proper_iff support authorities address e).symm

/-- In every view the node is asked to prepare one node only. -/
def PreparesOne (support : Support) (trace : List Entry) : Prop :=
  ∀ e ∈ trace, ∀ e' ∈ trace, ∀ p ∈ e.prepares support, ∀ p' ∈ e'.prepares support,
    p.1 = p'.1 → p.2 = p'.2

instance (support : Support) (trace : List Entry) :
    Decidable (PreparesOne support trace) :=
  inferInstanceAs (Decidable (∀ e ∈ trace, ∀ e' ∈ trace, _))

/-- Everything a node has acted on is as its handlers expect it. -/
structure Network.Proper (net : Network) (address : Address) (trace : List Entry) : Prop where
  entries : ∀ e ∈ trace, e.Proper net.support net.authorities address
  once : PreparesOne net.support trace

theorem Network.Proper.suffix {net : Network} {address : Address} {trace trace' : List Entry}
    (h : net.Proper address trace') (hsuffix : trace <:+ trace') :
    net.Proper address trace where
  entries := fun e he => h.entries e (hsuffix.subset he)
  once := fun e he e' he' => h.once e (hsuffix.subset he) e' (hsuffix.subset he')

/-! ## Sample networks -/

namespace Network

/-- Events without signatures of honest nodes, at one node. -/
theorem Reach.steps {net : Network} {nodes : Address → Stream} (h : net.Reach nodes)
    (a : Address) (ha : a ∈ net.honest) (oracle : Oracle) (events : List Event)
    (hforeign : ∀ event ∈ events, ∀ s ∈ event.signatures,
      net.support.basic.address s.1 ∉ net.honest) :
    net.Reach (Function.update nodes a ((nodes a).steps net.support oracle events)) := by
  induction events generalizing nodes with
  | nil =>
      rw [Stream.steps, List.foldl_nil, Function.update_eq_self]
      exact h
  | cons event events ih =>
      have hfirst : net.Unforged nodes event := fun s hs message _ hhonest =>
        absurd hhonest (hforeign event List.mem_cons_self s hs)
      have hrest := ih (h.step a ha oracle event hfirst)
        fun e he => hforeign e (List.mem_cons_of_mem _ he)
      rw [Function.update_self, Function.update_idem] at hrest
      exact hrest

end Network

namespace Sample

theorem encodeNat_append_inj {n m : Nat} {x y : Bytes}
    (h : encodeNat n ++ x = encodeNat m ++ y) : n = m ∧ x = y := by
  induction n generalizing m with
  | zero =>
      cases m with
      | zero => exact ⟨rfl, by simpa [encodeNat] using h⟩
      | succ m => simp [encodeNat, List.replicate_succ] at h
  | succ n ih =>
      cases m with
      | zero => simp [encodeNat, List.replicate_succ] at h
      | succ m =>
          have htail : encodeNat n ++ x = encodeNat m ++ y := by
            simpa [encodeNat, List.replicate_succ] using h
          obtain ⟨rfl, hx⟩ := ih htail
          exact ⟨rfl, hx⟩

theorem encodeBytes_append_inj {b b' x y : Bytes}
    (h : encodeBytes b ++ x = encodeBytes b' ++ y) : b = b' ∧ x = y := by
  induction b generalizing b' with
  | nil =>
      cases b' with
      | nil => exact ⟨rfl, by simpa [encodeBytes] using h⟩
      | cons e b' => simp [encodeBytes] at h
  | cons d b ih =>
      cases b' with
      | nil => simp [encodeBytes] at h
      | cons e b' =>
          have htail : d = e ∧ encodeBytes b ++ x = encodeBytes b' ++ y := by
            simpa [encodeBytes] using h
          obtain ⟨rfl, htail⟩ := htail
          obtain ⟨rfl, hx⟩ := ih htail
          exact ⟨rfl, hx⟩

theorem encodeInt_append_inj {i j : Int} {x y : Bytes}
    (h : encodeInt i ++ x = encodeInt j ++ y) : i = j ∧ x = y := by
  cases i with
  | ofNat n =>
      cases j with
      | ofNat m =>
          obtain ⟨rfl, hx⟩ := encodeNat_append_inj (List.cons.inj h).2
          exact ⟨rfl, hx⟩
      | negSucc m => cases (List.cons.inj h).1
  | negSucc n =>
      cases j with
      | ofNat m => cases (List.cons.inj h).1
      | negSucc m =>
          obtain ⟨rfl, hx⟩ := encodeNat_append_inj (List.cons.inj h).2
          exact ⟨rfl, hx⟩

theorem encodeHeader_injective : Function.Injective encodeHeader := by
  intro header header' h
  obtain ⟨number, timestamp, ⟨parentHash⟩, ⟨metaTxsRoot⟩, ⟨metaStateRoot⟩, ⟨metaReceiptsRoot⟩,
    ⟨payloadTxsRoot⟩, gap, ⟨stateRoot⟩, ⟨receiptsRoot⟩⟩ := header
  obtain ⟨number', timestamp', ⟨parentHash'⟩, ⟨metaTxsRoot'⟩, ⟨metaStateRoot'⟩,
    ⟨metaReceiptsRoot'⟩, ⟨payloadTxsRoot'⟩, gap', ⟨stateRoot'⟩, ⟨receiptsRoot'⟩⟩ := header'
  simp only [encodeHeader, List.append_assoc] at h
  obtain ⟨hnumber, h⟩ := encodeNat_append_inj h
  obtain ⟨htimestamp, h⟩ := encodeNat_append_inj h
  obtain ⟨hparent, h⟩ := encodeBytes_append_inj h
  obtain ⟨hmetaTxs, h⟩ := encodeBytes_append_inj h
  obtain ⟨hmetaState, h⟩ := encodeBytes_append_inj h
  obtain ⟨hmetaReceipts, h⟩ := encodeBytes_append_inj h
  obtain ⟨hpayloadTxs, h⟩ := encodeBytes_append_inj h
  obtain ⟨hgap, h⟩ := encodeInt_append_inj h
  obtain ⟨hstate, h⟩ := encodeBytes_append_inj h
  rw [← List.append_nil (encodeBytes receiptsRoot),
    ← List.append_nil (encodeBytes receiptsRoot')] at h
  rw [hnumber, htimestamp, hparent, hmetaTxs, hmetaState, hmetaReceipts, hpayloadTxs, hgap,
    hstate, (encodeBytes_append_inj h).1]

/-- The validators `0, .., n - 1` with these honest nodes. -/
def network (n : Nat) (honest : Finset Address)
    (total_pos : 0 < Weights.total
      (aggregateAuthorities ((support n).getAuthorities [])).members)
    (total_lt : Weights.total
      (aggregateAuthorities ((support n).getAuthorities [])).members < 2 ^ 32)
    (faulty_le : Weights.weightOf
      (aggregateAuthorities ((support n).getAuthorities [])).members
        (((aggregateAuthorities ((support n).getAuthorities [])).members.map
          Prod.fst).toFinset \ honest) ≤
      (Weights.total (aggregateAuthorities ((support n).getAuthorities [])).members - 1) / 3) :
    Network where
  support := support n
  authorities := aggregateAuthorities ((support n).getAuthorities [])
  honest
  secretKey a := ⟨a.bytes⟩
  fixed _ := rfl
  total_pos
  total_lt
  faulty_le
  own _ _ := rfl
  hash_injective := fun _ _ h => encodeHeader_injective (Hash.mk.inj h)
  genesis_number := rfl

end Sample

end Finastate.Hotstuff
