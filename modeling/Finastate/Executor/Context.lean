import Finastate.Library.Overlay
import Finastate.Primitives.Codec

/-!
# The context of an execution

Modules read and write the state through a `Context`. The context of the
executor keeps, for the meta state and for the payload state, the writes of
the running transaction (`tx_buffer`) over those of the transactions before it
(`buffer`) over the state database. A module does not know which context it
works on, so the functions of a module are written for any `ContextT`. Only
payload modules are modelled on it, hence only its payload part.
-/

namespace Finastate

/-- `str::as_bytes`. -/
def asBytes (s : String) : Bytes := s.toUTF8.toList

theorem toList_loop (bs : ByteArray) (i : ℕ) (r : List UInt8) :
    ByteArray.toList.loop bs i r = r.reverse ++ bs.data.toList.drop i := by
  fun_induction ByteArray.toList.loop bs i r with
  | case1 i r hlt ih =>
      have hlt' : i < bs.data.toList.length := hlt
      have hget : bs.get! i = bs.data.toList[i] := getElem!_pos bs.data i hlt
      rw [ih, List.drop_eq_getElem_cons hlt', hget]
      simp
  | case2 i r hle =>
      have hle' : bs.data.toList.length ≤ i := Nat.le_of_not_lt hle
      rw [List.drop_eq_nil_of_le hle', List.append_nil]

theorem asBytes_injective : Function.Injective asBytes := by
  intro s t h
  rw [asBytes, asBytes, ByteArray.toList, ByteArray.toList, toList_loop, toList_loop] at h
  have hdata : s.toUTF8.data = t.toUTF8.data := Array.toList_inj.1 (by simpa using h)
  exact String.toByteArray_inj.1 (ByteArray.ext hdata)

namespace Executor

abbrev DBKey := Bytes

abbrev DBValue := Bytes

/-- `HashMap<DBKey, Option<DBValue>>`; a `none` deletes the key. -/
abbrev Buffer := Overlay.Layer DBKey DBValue

/-- `Event(Vec<u8>)`. The bytes of an event made by `Event::from_data` are the
JSON text of a name and the data; here they are kept apart, with the data in
SCALE. -/
inductive Event where
  | raw (data : Bytes)
  | fromData (name : String) (data : Bytes)
  deriving DecidableEq, Repr

structure ContextEnv where
  number : BlockNumber
  timestamp : Nat
  deriving DecidableEq, Repr

structure CallEnv where
  txHash : Option Hash
  deriving DecidableEq, Repr

/-- The errors behind `CommonError` that the modelled functions meet. -/
inductive CommonError where
  | invalidTxs (msg : String)
  | invalidTxModule (msg : String)
  | invalidTxMethod (msg : String)
  | invalidTxParams (msg : String)
  | codec
  | wasm (msg : String)
  deriving DecidableEq, Repr

inductive ApplicationError where
  | invalidAddress (address : Address)
  | unsigned
  | user (msg : String)
  deriving DecidableEq, Repr

/-- `hex::encode`. -/
def hexEncode (bytes : Bytes) : String :=
  String.ofList (bytes.flatMap fun b => [Nat.digitChar (b.toNat / 16), Nat.digitChar (b.toNat % 16)])

/-- `Display for ApplicationError`. -/
def ApplicationError.toString : ApplicationError → String
  | invalidAddress address => "Invalid address: " ++ hexEncode address.bytes
  | unsigned => "Unsigned"
  | user msg => msg

/-- A system error should not be accepted, an application error should. -/
inductive ModuleError where
  | system (e : CommonError)
  | application (e : ApplicationError)
  deriving DecidableEq, Repr

abbrev ModuleResult := Except ModuleError

/-- `From<&str> for ModuleError`. -/
def ModuleError.ofString (msg : String) : ModuleError := .application (.user msg)

/-- The trait `executor_primitives::Context`. -/
class ContextT (C : Type) where
  env : C → ContextEnv
  callEnv : C → CallEnv
  payloadGet : C → DBKey → Option DBValue
  payloadSet : C → DBKey → Option DBValue → C
  emitEvent : C → Event → C

/-- The hash and the addresses of the chain, from the crypto library. -/
structure Util where
  hash : Bytes → Hash
  address : Bytes → Address
  addressLength : Nat

/-- `Util::validate_address`. -/
def Util.validateAddress (util : Util) (address : Address) : ModuleResult Unit :=
  if address.bytes.length ≠ util.addressLength then
    .error (.application (.invalidAddress address))
  else .ok ()

def SEPARATOR : Bytes := asBytes "_"

section Storage

variable {C K V : Type} [ContextT C]

/-- `context_get`. -/
def contextGet (decode : Codec.Decoder V) (context : C) (key : DBKey) :
    ModuleResult (Option V) :=
  match ContextT.payloadGet context key with
  | some value =>
      match decode value with
      | some (value, _) => .ok (some value)
      | none => .error (.system .codec)
  | none => .ok none

/-- `StorageValue`: one value under `module_storage_key _ storage_key`. -/
structure StorageValue (V : Type) where
  moduleKey : Bytes
  storageKey : Bytes
  encode : V → Bytes
  decode : Codec.Decoder V

namespace StorageValue

def key (s : StorageValue V) : DBKey := s.moduleKey ++ SEPARATOR ++ s.storageKey

def get (s : StorageValue V) (context : C) : ModuleResult (Option V) :=
  contextGet s.decode context s.key

def set (s : StorageValue V) (context : C) (value : V) : C :=
  ContextT.payloadSet context s.key (some (s.encode value))

end StorageValue

/-- `StorageMap`: a value under `module_storage_key _ storage_key _ key` for
every encoded key. -/
structure StorageMap (K V : Type) where
  moduleKey : Bytes
  storageKey : Bytes
  encodeKey : K → Bytes
  encode : V → Bytes
  decode : Codec.Decoder V

namespace StorageMap

def key (s : StorageMap K V) (k : K) : DBKey :=
  s.moduleKey ++ SEPARATOR ++ s.storageKey ++ SEPARATOR ++ s.encodeKey k

def get (s : StorageMap K V) (context : C) (k : K) : ModuleResult (Option V) :=
  contextGet s.decode context (s.key k)

def set (s : StorageMap K V) (context : C) (k : K) (value : V) : C :=
  ContextT.payloadSet context (s.key k) (some (s.encode value))

def delete (s : StorageMap K V) (context : C) (k : K) : C :=
  ContextT.payloadSet context (s.key k) none

end StorageMap

end Storage

structure ContextState where
  statedb : List (DBKey × DBValue)
  txBuffer : Buffer
  buffer : Buffer
  deriving DecidableEq, Repr

namespace ContextState

def new (statedb : List (DBKey × DBValue)) : ContextState :=
  { statedb, txBuffer := [], buffer := [] }

def get (s : ContextState) (key : DBKey) : Option DBValue :=
  match AssocMap.get? s.txBuffer key with
  | some value => value
  | none =>
      match AssocMap.get? s.buffer key with
      | some value => value
      | none => AssocMap.get? s.statedb key

def set (s : ContextState) (key : DBKey) (value : Option DBValue) : ContextState :=
  { s with txBuffer := AssocMap.insert s.txBuffer key value }

/-- The drained writes and the state without them. -/
def drainTxBuffer (s : ContextState) : List (DBKey × Option DBValue) × ContextState :=
  (s.txBuffer, { s with txBuffer := [] })

def apply (s : ContextState) (items : List (DBKey × Option DBValue)) : ContextState :=
  { s with buffer := AssocMap.extend s.buffer items }

theorem get_eq_read (s : ContextState) :
    s.get = Overlay.read (AssocMap.get? s.statedb) [s.txBuffer, s.buffer] := by
  funext key
  rw [get, Overlay.read_cons, Overlay.read_cons, Overlay.read_nil]
  cases AssocMap.get? s.txBuffer key with
  | some value => rfl
  | none =>
      cases AssocMap.get? s.buffer key with
      | some value => rfl
      | none => rfl

@[simp] theorem get_set (s : ContextState) (key key' : DBKey) (value : Option DBValue) :
    (s.set key value).get key' = if key' = key then value else s.get key' := by
  rw [get_eq_read, get_eq_read, set, Overlay.read_insert_cons]

/-- Making the writes of a transaction permanent does not change the state. -/
theorem get_apply_drain (s : ContextState) :
    (s.drainTxBuffer.2.apply s.drainTxBuffer.1).get = s.get := by
  rw [get_eq_read, get_eq_read]
  funext key
  simp only [drainTxBuffer, apply, Overlay.read_empty_cons, Overlay.read_extend_cons]

end ContextState

/-- `CallResult<Vec<u8>>`. -/
abbrev OpaqueCallResult := Except String Bytes

structure Receipt where
  blockNumber : BlockNumber
  events : List Event
  result : OpaqueCallResult

structure FullReceipt where
  receipt : Receipt
  txHash : Hash

/-- The context of the executor. -/
structure Context where
  env : ContextEnv
  callEnv : CallEnv
  metaState : ContextState
  metaTxs : List FullTransaction
  metaReceipts : List FullReceipt
  payloadState : ContextState
  payloadTxs : List FullTransaction
  payloadReceipts : List FullReceipt
  events : List Event
  payloadPhase : Bool

namespace Context

def new (env : ContextEnv) (metaStatedb payloadStatedb : List (DBKey × DBValue)) : Context where
  env := env
  callEnv := { txHash := none }
  metaState := .new metaStatedb
  metaTxs := []
  metaReceipts := []
  payloadState := .new payloadStatedb
  payloadTxs := []
  payloadReceipts := []
  events := []
  payloadPhase := false

/-- The writes of the transaction go into the buffers, or are dropped, and its
events are taken. -/
def applyTx (c : Context) : Context :=
  { c with
    metaState := c.metaState.drainTxBuffer.2.apply c.metaState.drainTxBuffer.1
    payloadState := c.payloadState.drainTxBuffer.2.apply c.payloadState.drainTxBuffer.1
    events := [] }

def dropTx (c : Context) : Context :=
  { c with
    metaState := c.metaState.drainTxBuffer.2
    payloadState := c.payloadState.drainTxBuffer.2
    events := [] }

def payloadGet (c : Context) (key : DBKey) : Option DBValue := c.payloadState.get key

def payloadSet (c : Context) (key : DBKey) (value : Option DBValue) : Context :=
  { c with payloadState := c.payloadState.set key value }

def emitEvent (c : Context) (event : Event) : Context :=
  { c with events := c.events ++ [event] }

instance : ContextT Context where
  env := env
  callEnv := callEnv
  payloadGet := payloadGet
  payloadSet := payloadSet
  emitEvent := emitEvent

@[simp] theorem payloadGet_payloadSet (c : Context) (key key' : DBKey)
    (value : Option DBValue) :
    (c.payloadSet key value).payloadGet key' = if key' = key then value else c.payloadGet key' :=
  ContextState.get_set c.payloadState key key' value

@[simp] theorem payloadGet_emitEvent (c : Context) (event : Event) :
    (c.emitEvent event).payloadGet = c.payloadGet := rfl

theorem payloadGet_foldl_emitEvent (c : Context) (events : List Event) :
    (events.foldl emitEvent c).payloadGet = c.payloadGet := by
  induction events generalizing c with
  | nil => rfl
  | cons event events ih => exact ih (c.emitEvent event)

theorem payloadGet_foldr_payloadSet (c : Context) (items : List (DBKey × Option DBValue))
    (key : DBKey) :
    (items.foldr (fun item c => c.payloadSet item.1 item.2) c).payloadGet key =
      (AssocMap.get? items key).getD (c.payloadGet key) := by
  induction items with
  | nil => rfl
  | cons item items ih =>
      rw [List.foldr_cons, payloadGet_payloadSet, AssocMap.get?_cons, ih]
      by_cases hkey : item.1 = key
      · simp [hkey]
      · simp [hkey, Ne.symm hkey]

theorem payloadGet_applyTx (c : Context) : c.applyTx.payloadGet = c.payloadGet :=
  ContextState.get_apply_drain c.payloadState

/-- What lies below the transaction buffer of the payload state is the same. -/
structure SameBase (c c' : Context) : Prop where
  statedb : c'.payloadState.statedb = c.payloadState.statedb
  buffer : c'.payloadState.buffer = c.payloadState.buffer

namespace SameBase

variable {c c' c'' : Context}

theorem refl (c : Context) : SameBase c c := ⟨rfl, rfl⟩

theorem trans (h : SameBase c c') (h' : SameBase c' c'') : SameBase c c'' :=
  ⟨h'.statedb.trans h.statedb, h'.buffer.trans h.buffer⟩

theorem payloadSet (c : Context) (key : DBKey) (value : Option DBValue) :
    SameBase c (c.payloadSet key value) := ⟨rfl, rfl⟩

theorem foldr_payloadSet (c : Context) (items : List (DBKey × Option DBValue)) :
    SameBase c (items.foldr (fun item c => c.payloadSet item.1 item.2) c) := by
  induction items with
  | nil => exact refl c
  | cons item items ih => exact ih.trans (payloadSet _ item.1 item.2)

theorem foldl_emitEvent (c : Context) (events : List Event) :
    SameBase c (events.foldl emitEvent c) := by
  induction events generalizing c with
  | nil => exact refl c
  | cons event events ih =>
      have hevent : SameBase c (c.emitEvent event) := ⟨rfl, rfl⟩
      exact hevent.trans (ih (c.emitEvent event))

/-- A dropped transaction leaves what was there before it. -/
theorem payloadGet_dropTx (h : SameBase c c') (hdrained : c.payloadState.txBuffer = []) :
    c'.dropTx.payloadGet = c.payloadGet := by
  funext key
  change (c'.payloadState.drainTxBuffer.2).get key = c.payloadState.get key
  rw [ContextState.get_eq_read, ContextState.get_eq_read, hdrained, ← h.buffer, ← h.statedb]
  rfl

end SameBase

end Context

end Executor

end Finastate
