import Finastate.Executor.Program

/-!
# Validating transactions

`validate_tx` checks the signature of a transaction, lets the module of its
call validate it and refuses calls that do not write. The module works on the
context as it does when it executes, so the context comes back with whatever it
did there.
-/

namespace Finastate

/-- What the hash of a transaction covers: all but the signature. -/
structure TransactionForHash where
  witness : Option (PublicKey × Nat × BlockNumber)
  call : Call
  deriving DecidableEq, Repr

def Transaction.forHash (tx : Transaction) : TransactionForHash where
  witness := tx.witness.map fun witness =>
    (witness.publicKey, witness.nonce, witness.untilNumber)
  call := tx.call

namespace Executor

/-- The errors behind `CommonError` that `validate_tx` returns. -/
inductive TxError where
  | invalidTxWitness (msg : String)
  | application (msg : String)
  | common (e : CommonError)
  | crypto (msg : String)
  deriving DecidableEq, Repr

/-- What `validate_tx` is given: the modules and the signatures of the chain.
`verify` is the text of the error of a key that is none, or whether the
signature is valid. -/
structure Validator where
  validateCall : Context → Option Address → Call → Context × Except CommonError (Except String Unit)
  isWriteCall : Call → Except CommonError Bool
  address : PublicKey → Address
  verify : PublicKey → Bytes → Signature → Except String Bool

/-- What the signature of a witness is made over. -/
def witnessMessage (witness : Witness) (call : Call) (genesisHash : Hash) : Bytes :=
  Codec.encodeLe 4 witness.nonce ++ Codec.encodeU64 witness.untilNumber ++
    (Codec.encodeBytes (asBytes call.module) ++ Codec.encodeBytes (asBytes call.method) ++
      Codec.encodeBytes call.params) ++ Codec.encodeBytes genesisHash.bytes

namespace Validator

variable (validator : Validator)

def validateWitness (genesisHash : Hash) (tx : Transaction) (witnessRequired : Bool) :
    Except TxError Unit :=
  match tx.witness with
  | some witness =>
      match validator.verify witness.publicKey (witnessMessage witness tx.call genesisHash)
          witness.signature with
      | .error e => .error (.crypto e)
      | .ok false => .error (.invalidTxWitness "Invalid signature")
      | .ok true => .ok ()
  | none =>
      if witnessRequired then .error (.invalidTxWitness "Missing witness") else .ok ()

def validateTx (genesisHash : Hash) (context : Context) (tx : Transaction)
    (witnessRequired : Bool) : Context × Except TxError Unit :=
  match validator.validateWitness genesisHash tx witnessRequired with
  | .error e => (context, .error e)
  | .ok _ =>
      let sender := tx.witness.map fun witness => validator.address witness.publicKey
      match validator.validateCall context sender tx.call with
      | (context, .error e) => (context, .error (.common e))
      | (context, .ok (.error e)) => (context, .error (.application e))
      | (context, .ok (.ok _)) =>
          match validator.isWriteCall tx.call with
          | .error e => (context, .error (.common e))
          | .ok false =>
              (context, .error (.common (.invalidTxMethod (tx.call.method ++ ": not write"))))
          | .ok true => (context, .ok ())

end Validator

/-- Validation works on its context through the calls of a program only. -/
def Validator.Modular (validator : Validator) : Prop :=
  ∀ context sender call, ∃ isMeta,
    Context.Keeps isMeta context (validator.validateCall context sender call).1

theorem Validator.Modular.validateTx {validator : Validator} (h : validator.Modular)
    (genesisHash : Hash) (context : Context) (tx : Transaction) (witnessRequired : Bool) :
    ∃ isMeta, Context.Keeps isMeta context
      (validator.validateTx genesisHash context tx witnessRequired).1 := by
  unfold Validator.validateTx
  split
  · exact ⟨true, .refl _ _⟩
  · obtain ⟨isMeta, hkeeps⟩ :=
      h context (tx.witness.map fun witness => validator.address witness.publicKey) tx.call
    refine ⟨isMeta, ?_⟩
    simp only
    generalize validator.validateCall _ _ _ = out at hkeeps ⊢
    obtain ⟨c, result⟩ := out
    match result with
    | .error e => exact hkeeps
    | .ok (.error e) => exact hkeeps
    | .ok (.ok u) =>
        cases validator.isWriteCall tx.call with
        | error e => exact hkeeps
        | ok isWrite =>
            cases isWrite with
            | false => exact hkeeps
            | true => exact hkeeps

/-- The validator on these modules. -/
def Modules.validator (modules : Modules) (address : PublicKey → Address)
    (verify : PublicKey → Bytes → Signature → Except String Bool) : Validator where
  validateCall := fun context sender call =>
    match modules.isMeta call.module with
    | .error e => (context, .error e)
    | .ok isMeta => (modules.validateCall sender call).run isMeta context
  isWriteCall := modules.isWriteCall
  address := address
  verify := verify

theorem Modules.validator_modular (modules : Modules) (address : PublicKey → Address)
    (verify : PublicKey → Bytes → Signature → Except String Bool) :
    (modules.validator address verify).Modular := by
  intro context sender call
  simp only [validator]
  split
  · exact ⟨true, .refl _ _⟩
  · next isMeta _ => exact ⟨isMeta, Program.run_keeps isMeta _ context⟩

end Executor

end Finastate
