import Finastate.Primitives.Types

/-!
# What a consensus engine is given

`Basic` holds the cryptographic algorithms of the chain. They come from
outside the node, so they are parameters: the hash of a header, the address of
a public key, signing and verification. A signature is made over the encoding
of a tuple; the tuple itself stands for its encoding, so `Message` is the type
of the tuples an engine signs.
-/

namespace Finastate

/-- `node_chain::Basic` (hash, dsa, address) as the consensus engines use it.
`verify` returns the text of the error of the dsa library. -/
structure Basic (Message : Type) where
  hash : Header → Hash
  address : PublicKey → Address
  publicKey : SecretKey → PublicKey
  sign : Message → SecretKey → Signature
  verify : Message → PublicKey → Signature → Except String Unit

/-- The signature is accepted for the message under the key. -/
def Basic.Valid {Message : Type} (basic : Basic Message) (message : Message)
    (publicKey : PublicKey) (signature : Signature) : Prop :=
  basic.verify message publicKey signature = .ok ()

namespace Consensus

/-- `node_consensus_base::errors::ErrorKind`, the part that the modelled
functions return. -/
inductive ErrorKind where
  | verifyProofError (msg : String)
  | data (msg : String)
  deriving DecidableEq, Repr

end Consensus

end Finastate
