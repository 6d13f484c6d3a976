import Finastate.Vm.Basic

/-!
# Linear memory

A contract hands bytes to the host by a length and a pointer, two integers of 64
bits of its own choice. `State::memory_to_vec` and `State::vec_to_memory` index
the view of the linear memory with the range that the two make up, and an index
outside the view is a panic of the host function. An `Import` is a call with the
arguments as the contract passes them, a `Request` is the same call with the bytes
that the host has read for it.
-/

namespace Finastate.Vm

/-- The memory of a contract, in pages of WebAssembly. -/
structure Memory where
  pages : Nat
  bound : pages ≤ 2 ^ 16
  cell : Nat → UInt8

namespace Memory

variable (m : Memory)

def size : Nat := 2 ^ 16 * m.pages

/-- The index `ptr..(ptr + len)` of the view is checked, and so is its sum. -/
def InView (ptr len : Nat) : Prop := ptr + len < 2 ^ 64 ∧ ptr + len ≤ m.size

instance (ptr len : Nat) : Decidable (m.InView ptr len) := inferInstanceAs (Decidable (_ ∧ _))

theorem size_le : m.size ≤ 2 ^ 32 := by
  have hpages := Nat.mul_le_mul_left (2 ^ 16) m.bound
  exact hpages

theorem inView_iff {ptr len : Nat} : m.InView ptr len ↔ ptr + len ≤ m.size := by
  have hsize := m.size_le
  unfold InView
  omega

/-- The bytes of a range. -/
def bytes (len ptr : Nat) : Bytes := (List.range len).map fun i => m.cell (ptr + i)

/-- `memory_to_vec`, unless it panics. A vector that is too long to allocate is
longer than the memory. -/
def memoryToVec (len ptr : Nat) : Option Bytes :=
  if m.InView ptr len then some (m.bytes len ptr) else none

/-- `vec_to_memory`, unless it panics. -/
def vecToMemory (ptr : Nat) (data : Bytes) : Option Memory :=
  if m.InView ptr data.length then
    some { m with
      cell := fun i => if ptr ≤ i then data.getD (i - ptr) (m.cell i) else m.cell i }
  else none

variable {m}

theorem isSome_vecToMemory {ptr : Nat} {data : Bytes} :
    (m.vecToMemory ptr data).isSome ↔ ptr + data.length ≤ m.size := by
  unfold vecToMemory
  rw [← m.inView_iff]
  split
  · next hview => simp [hview]
  · next hview => simp [hview]

end Memory

/-! ## The imported functions -/

/-- A call of an imported function. The arguments of `abort` are not looked at. -/
inductive Import where
  | shareRead (shareId ptr : UInt64)
  | shareLen (shareId : UInt64)
  | shareWrite (dataLen dataPtr shareId : UInt64)
  | methodRead (shareId : UInt64)
  | paramsRead (shareId : UInt64)
  | payValueRead
  | resultWrite (len ptr : UInt64)
  | errorReturn (len ptr : UInt64)
  | abort
  | envBlockNumber
  | envBlockTimestamp
  | envTxHashRead (shareId : UInt64)
  | envContractAddressRead (shareId : UInt64)
  | envSenderAddressRead (shareId : UInt64)
  | storageRead (keyLen keyPtr shareId : UInt64)
  | storageWrite (keyLen keyPtr valueExist valueLen valuePtr : UInt64)
  | eventWrite (len ptr : UInt64)
  | utilHash (dataLen dataPtr shareId : UInt64)
  | utilAddress (dataLen dataPtr shareId : UInt64)
  | utilValidateAddress (dataLen dataPtr : UInt64)
  | utilValidateAddressEa (dataLen dataPtr errorShareId : UInt64)
  | balanceRead (addressLen addressPtr : UInt64)
  | balanceTransfer (recipientAddressLen recipientAddressPtr value : UInt64)
  | balanceTransferEa (recipientAddressLen recipientAddressPtr value errorShareId : UInt64)
  | pay
  | contractExecute (contractAddressLen contractAddressPtr methodLen methodPtr paramsLen paramsPtr
      payValue shareId : UInt64)
  | contractExecuteEa (contractAddressLen contractAddressPtr methodLen methodPtr paramsLen
      paramsPtr payValue shareId errorShareId : UInt64)
  deriving DecidableEq, Repr

/-- A call with the bytes that are read for it. -/
inductive Request where
  | host (c : HostCall)
  | nested (c : NestedCall)
  deriving DecidableEq, Repr

/-- A method name has to be UTF-8. -/
def NestedCall.method? (c : NestedCall) : Option String := String.fromUTF8? ⟨c.method.toArray⟩

namespace Import

variable (m : Memory)

/-- What `contract_execute` reads. It fails on a method that is not UTF-8 before
it comes to the params. -/
def nestedRequest (contractAddressLen contractAddressPtr methodLen methodPtr paramsLen paramsPtr
    payValue shareId : UInt64) (errorShareId : Option UInt64) : Option Request := do
  let contractAddress ← m.memoryToVec contractAddressLen.toNat contractAddressPtr.toNat
  let method ← m.memoryToVec methodLen.toNat methodPtr.toNat
  let call : NestedCall :=
    { contractAddress := ⟨contractAddress⟩
      method
      params := []
      payValue := payValue.toNat
      shareId := shareId.toNat
      errorShareId := errorShareId.map UInt64.toNat }
  match call.method? with
  | none => return .nested call
  | some _ =>
      let params ← m.memoryToVec paramsLen.toNat paramsPtr.toNat
      return .nested { call with params }

/-- The recipient of a transfer is only read for a contract that has an address. -/
def recipient (addressed : Bool) (len ptr : UInt64) : Option Address :=
  if addressed then (m.memoryToVec len.toNat ptr.toNat).map Address.mk else some ⟨[]⟩

/-- What the host reads from memory for a call. -/
def request (addressed : Bool) : Import → Option Request
  | shareRead shareId _ => some (.host (.shareRead shareId.toNat))
  | shareLen shareId => some (.host (.shareLen shareId.toNat))
  | shareWrite dataLen dataPtr shareId => do
      let data ← m.memoryToVec dataLen.toNat dataPtr.toNat
      return .host (.shareWrite data shareId.toNat)
  | methodRead shareId => some (.host (.methodRead shareId.toNat))
  | paramsRead shareId => some (.host (.paramsRead shareId.toNat))
  | payValueRead => some (.host .payValueRead)
  | resultWrite len ptr => do
      let result ← m.memoryToVec len.toNat ptr.toNat
      return .host (.resultWrite result)
  | errorReturn len ptr => do
      let msg ← m.memoryToVec len.toNat ptr.toNat
      return .host (.errorReturn msg)
  | abort => some (.host .abort)
  | envBlockNumber => some (.host .envBlockNumber)
  | envBlockTimestamp => some (.host .envBlockTimestamp)
  | envTxHashRead shareId => some (.host (.envTxHashRead shareId.toNat))
  | envContractAddressRead shareId => some (.host (.envContractAddressRead shareId.toNat))
  | envSenderAddressRead shareId => some (.host (.envSenderAddressRead shareId.toNat))
  | storageRead keyLen keyPtr shareId => do
      let key ← m.memoryToVec keyLen.toNat keyPtr.toNat
      return .host (.storageRead key shareId.toNat)
  | storageWrite keyLen keyPtr valueExist valueLen valuePtr => do
      let key ← m.memoryToVec keyLen.toNat keyPtr.toNat
      if valueExist = 1 then
        let value ← m.memoryToVec valueLen.toNat valuePtr.toNat
        return .host (.storageWrite key (some value))
      else return .host (.storageWrite key none)
  | eventWrite len ptr => do
      let event ← m.memoryToVec len.toNat ptr.toNat
      return .host (.eventWrite event)
  | utilHash dataLen dataPtr shareId => do
      let data ← m.memoryToVec dataLen.toNat dataPtr.toNat
      return .host (.utilHash data shareId.toNat)
  | utilAddress dataLen dataPtr shareId => do
      let data ← m.memoryToVec dataLen.toNat dataPtr.toNat
      return .host (.utilAddress data shareId.toNat)
  | utilValidateAddress dataLen dataPtr => do
      let address ← m.memoryToVec dataLen.toNat dataPtr.toNat
      return .host (.utilValidateAddress ⟨address⟩)
  | utilValidateAddressEa dataLen dataPtr errorShareId => do
      let address ← m.memoryToVec dataLen.toNat dataPtr.toNat
      return .host (.utilValidateAddressEa ⟨address⟩ errorShareId.toNat)
  | balanceRead addressLen addressPtr => do
      let address ← m.memoryToVec addressLen.toNat addressPtr.toNat
      return .host (.balanceRead ⟨address⟩)
  | balanceTransfer len ptr value => do
      let recipient ← recipient m addressed len ptr
      return .host (.balanceTransfer recipient value.toNat)
  | balanceTransferEa len ptr value errorShareId => do
      let recipient ← recipient m addressed len ptr
      return .host (.balanceTransferEa recipient value.toNat errorShareId.toNat)
  | pay => some (.host .pay)
  | contractExecute addressLen addressPtr methodLen methodPtr paramsLen paramsPtr payValue
      shareId =>
      nestedRequest m addressLen addressPtr methodLen methodPtr paramsLen paramsPtr payValue
        shareId none
  | contractExecuteEa addressLen addressPtr methodLen methodPtr paramsLen paramsPtr payValue
      shareId errorShareId =>
      nestedRequest m addressLen addressPtr methodLen methodPtr paramsLen paramsPtr payValue
        shareId (some errorShareId)

/-- A range of arguments lies in memory. -/
def Within (len ptr : UInt64) : Prop := ptr.toNat + len.toNat ≤ m.size

instance (len ptr : UInt64) : Decidable (Within m len ptr) := inferInstanceAs (Decidable (_ ≤ _))

/-- What the host reads for a call lies in memory. -/
def Reads (addressed : Bool) : Import → Prop
  | shareWrite len ptr _ | resultWrite len ptr | errorReturn len ptr | storageRead len ptr _
  | eventWrite len ptr | utilHash len ptr _ | utilAddress len ptr _ | utilValidateAddress len ptr
  | utilValidateAddressEa len ptr _ | balanceRead len ptr => Within m len ptr
  | storageWrite keyLen keyPtr valueExist valueLen valuePtr =>
      Within m keyLen keyPtr ∧ (valueExist = 1 → Within m valueLen valuePtr)
  | balanceTransfer len ptr _ | balanceTransferEa len ptr _ _ => addressed → Within m len ptr
  | contractExecute addressLen addressPtr methodLen methodPtr paramsLen paramsPtr _ _
  | contractExecuteEa addressLen addressPtr methodLen methodPtr paramsLen paramsPtr _ _ _ =>
      Within m addressLen addressPtr ∧ Within m methodLen methodPtr ∧
        ((String.fromUTF8? ⟨(m.bytes methodLen.toNat methodPtr.toNat).toArray⟩).isSome →
          Within m paramsLen paramsPtr)
  | _ => True

instance decidableReads (addressed : Bool) (c : Import) : Decidable (c.Reads m addressed) := by
  cases c <;> unfold Reads <;> infer_instance

variable {m}

theorem isSome_read {len ptr : UInt64} {α : Type} {f : Bytes → Option α} :
    (m.memoryToVec len.toNat ptr.toNat >>= f).isSome ↔
      Within m len ptr ∧ (f (m.bytes len.toNat ptr.toNat)).isSome := by
  unfold Memory.memoryToVec Within
  rw [← m.inView_iff]
  split
  · next hview =>
    rw [and_iff_right hview]
    rfl
  · next hview => exact ⟨nofun, fun h => absurd h.1 hview⟩

/-- Once it is read, nothing can fail. -/
theorem isSome_read_pure {len ptr : UInt64} {α : Type} {f : Bytes → α} :
    (do let data ← m.memoryToVec len.toNat ptr.toNat
        return f data : Option α).isSome ↔ Within m len ptr := by
  rw [isSome_read]
  exact and_iff_left rfl

theorem isSome_recipient (addressed : Bool) {len ptr : UInt64} {α : Type} {f : Address → α} :
    (do let recipient ← recipient m addressed len ptr
        return f recipient : Option α).isSome ↔ (addressed → Within m len ptr) := by
  cases addressed with
  | false => exact ⟨fun _ => nofun, fun _ => rfl⟩
  | true =>
      have hread : (do let recipient ← recipient m true len ptr
                       return f recipient : Option α) =
          (do let data ← m.memoryToVec len.toNat ptr.toNat
              return f ⟨data⟩) := by
        unfold recipient
        rw [if_pos rfl]
        cases m.memoryToVec len.toNat ptr.toNat with
        | none => rfl
        | some data => rfl
      rw [hread, isSome_read_pure]
      exact ⟨fun h _ => h, fun h => h rfl⟩

theorem isSome_nestedRequest {addressLen addressPtr methodLen methodPtr paramsLen paramsPtr payValue
    shareId : UInt64} {errorShareId : Option UInt64} :
    (nestedRequest m addressLen addressPtr methodLen methodPtr paramsLen paramsPtr payValue shareId
      errorShareId).isSome ↔
      Within m addressLen addressPtr ∧ Within m methodLen methodPtr ∧
        ((String.fromUTF8? ⟨(m.bytes methodLen.toNat methodPtr.toNat).toArray⟩).isSome →
          Within m paramsLen paramsPtr) := by
  unfold nestedRequest
  rw [isSome_read, isSome_read]
  refine and_congr_right fun _ => and_congr_right fun _ => ?_
  simp only [NestedCall.method?]
  cases String.fromUTF8? ⟨(m.bytes methodLen.toNat methodPtr.toNat).toArray⟩ with
  | none => exact ⟨fun _ => nofun, fun _ => rfl⟩
  | some method =>
      simp only [Option.isSome_some, true_imp_iff]
      exact isSome_read_pure

/-- A call is read if and only if what it reads lies in memory. -/
theorem isSome_request (addressed : Bool) (c : Import) :
    (c.request m addressed).isSome ↔ c.Reads m addressed := by
  have htrivial {r : Request} : (some r : Option Request).isSome ↔ True := iff_true_intro rfl
  cases c with
  | shareWrite len ptr shareId => exact isSome_read_pure
  | resultWrite len ptr => exact isSome_read_pure
  | errorReturn len ptr => exact isSome_read_pure
  | storageRead len ptr shareId => exact isSome_read_pure
  | storageWrite keyLen keyPtr valueExist valueLen valuePtr =>
      unfold request Reads
      rw [isSome_read]
      refine and_congr_right fun _ => ?_
      split
      · next hexist =>
        rw [isSome_read_pure]
        exact ⟨fun h _ => h, fun h => h hexist⟩
      · next hexist => exact ⟨fun _ h => absurd h hexist, fun _ => rfl⟩
  | eventWrite len ptr => exact isSome_read_pure
  | utilHash len ptr shareId => exact isSome_read_pure
  | utilAddress len ptr shareId => exact isSome_read_pure
  | utilValidateAddress len ptr => exact isSome_read_pure
  | utilValidateAddressEa len ptr errorShareId => exact isSome_read_pure
  | balanceRead len ptr => exact isSome_read_pure
  | balanceTransfer len ptr value => exact isSome_recipient addressed
  | balanceTransferEa len ptr value errorShareId => exact isSome_recipient addressed
  | contractExecute => exact isSome_nestedRequest
  | contractExecuteEa => exact isSome_nestedRequest
  | _ => exact htrivial

end Import

end Finastate.Vm
