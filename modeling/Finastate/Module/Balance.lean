import Finastate.Executor.Context
import Finastate.Library.Ledger
import Finastate.Library.Result

/-!
# The balance module

`transfer` reads both balances, checks them and writes both. All checks stand
before the first write, so a failed call returns no context: the one it was
given is still the current one.
-/

namespace Finastate.BalanceModule

open Executor

def STORAGE_KEY : Bytes := asBytes "balance"

/-- `balance: StorageMap<Address, Balance>`. -/
def balance : StorageMap Address Balance where
  moduleKey := STORAGE_KEY
  storageKey := asBytes "balance"
  encodeKey := fun address => Codec.encodeBytes address.bytes
  encode := Codec.encodeU64
  decode := Codec.decodeU64

structure TransferParams where
  recipient : Address
  value : Balance
  deriving DecidableEq, Repr

def decodeTransferParams : Codec.Decoder TransferParams := fun input => do
  let (recipient, rest) ← Codec.decodeAddress input
  let (value, rest) ← Codec.decodeU64 rest
  return ({ recipient, value }, rest)

/-- `u64::overflowing_sub`. -/
def overflowingSub (a b : Nat) : Nat × Bool := (wrapSub 64 a b, decide (a < b))

/-- `u64::overflowing_add`. -/
def overflowingAdd (a b : Nat) : Nat × Bool := (wrapAdd 64 a b, decide (2 ^ 64 ≤ a + b))

def transferred (sender recipient : Address) (value : Balance) : Event :=
  .fromData "Transferred"
    (Codec.encodeBytes sender.bytes ++ Codec.encodeBytes recipient.bytes ++
      Codec.encodeU64 value)

section Methods

variable {C : Type} [ContextT C]

def getBalance (context : C) (sender : Option Address) : ModuleResult Balance :=
  match sender with
  | none => .error (.application .unsigned)
  | some sender => (balance.get context sender).map fun balance => balance.getD 0

def transfer (context : C) (sender : Option Address) (params : TransferParams) :
    ModuleResult C :=
  match sender with
  | none => .error (.application .unsigned)
  | some sender =>
      if sender = params.recipient then
        .error (.ofString "Should not transfer to oneself")
      else
        (balance.get context sender).bind fun senderBalance =>
          if senderBalance.getD 0 < params.value then
            .error (.ofString "Insufficient balance")
          else
            (balance.get context params.recipient).bind fun recipientBalance =>
              let (senderBalance, overflow) :=
                overflowingSub (senderBalance.getD 0) params.value
              if overflow then .error (.ofString "U64 overflow")
              else
                let (recipientBalance, overflow) :=
                  overflowingAdd (recipientBalance.getD 0) params.value
                if overflow then .error (.ofString "U64 overflow")
                else
                  let context := balance.set context sender senderBalance
                  let context := balance.set context params.recipient recipientBalance
                  .ok (ContextT.emitEvent context
                    (transferred sender params.recipient params.value))

def validateTransfer (util : Util) (params : TransferParams) : ModuleResult Unit :=
  util.validateAddress params.recipient

end Methods

/-- What the account holds in the state that `get` reads. An entry that does
not decode makes every call on it fail; it counts as nothing. -/
def balances (get : DBKey → Option DBValue) (account : Address) : Nat :=
  (((get (balance.key account)).bind Codec.decodeU64).map Prod.fst).getD 0

theorem balances_congr {get get' : DBKey → Option DBValue}
    (h : ∀ account, get (balance.key account) = get' (balance.key account)) :
    balances get = balances get' := by
  funext account
  rw [balances, balances, h account]

theorem key_injective : Function.Injective balance.key := by
  intro account account' h
  have hbytes : Codec.encodeBytes account.bytes = Codec.encodeBytes account'.bytes :=
    List.append_cancel_left h
  have := Codec.encodeBytes_injective hbytes
  cases account
  cases account'
  cases this
  rfl

theorem balances_lt (get : DBKey → Option DBValue) (account : Address) :
    balances get account < 2 ^ 64 := by
  rw [balances]
  cases hread : (get (balance.key account)).bind Codec.decodeU64 with
  | none => simp
  | some p =>
      obtain ⟨value, -, hdecode⟩ := Option.bind_eq_some_iff.1 hread
      exact Codec.decodeU64_lt hdecode

theorem balances_of_get_eq_encode {get : DBKey → Option DBValue} {account : Address}
    {n : Nat} (hn : n < 2 ^ 64) (h : get (balance.key account) = some (Codec.encodeU64 n)) :
    balances get account = n := by
  have hdecode : Codec.decodeU64 (Codec.encodeU64 n) = some (n, []) := by
    have := Codec.decodeU64_encodeU64 hn []
    rwa [List.append_nil] at this
  simp [balances, h, hdecode]

section Methods

variable {C : Type} [ContextT C]

theorem balance_get_eq_ok {context : C} {account : Address} {found : Option Balance}
    (h : balance.get context account = .ok found) :
    found.getD 0 = balances (ContextT.payloadGet context) account := by
  rw [StorageMap.get, contextGet] at h
  rw [balances]
  cases hread : ContextT.payloadGet context (balance.key account) with
  | none =>
      rw [hread] at h
      cases h
      rfl
  | some value =>
      have hcodec : balance.decode = Codec.decodeU64 := rfl
      rw [hread] at h
      simp only [hcodec] at h
      rw [Option.bind_some]
      cases hdecode : Codec.decodeU64 value with
      | none =>
          rw [hdecode] at h
          cases h
      | some p =>
          rw [hdecode] at h
          cases h
          rfl

/-- What a successful transfer has checked and written. -/
structure Transferred (context : C) (sender : Address) (params : TransferParams)
    (context' : C) : Prop where
  ne : sender ≠ params.recipient
  enough : params.value ≤ balances (ContextT.payloadGet context) sender
  fits : balances (ContextT.payloadGet context) params.recipient + params.value < 2 ^ 64
  eq : context' =
    ContextT.emitEvent
      (balance.set
        (balance.set context sender
          (balances (ContextT.payloadGet context) sender - params.value))
        params.recipient
        (balances (ContextT.payloadGet context) params.recipient + params.value))
      (transferred sender params.recipient params.value)

theorem transfer_eq_ok {context context' : C} {sender : Option Address}
    {params : TransferParams} (h : transfer context sender params = .ok context') :
    ∃ account, sender = some account ∧ Transferred context account params context' := by
  cases sender with
  | none => cases h
  | some account =>
      rw [transfer] at h
      by_cases hne : account = params.recipient
      · rw [if_pos hne] at h
        cases h
      rw [if_neg hne, Result.bind_eq_ok] at h
      obtain ⟨senderBalance, hsender, h⟩ := h
      rw [balance_get_eq_ok hsender] at h
      by_cases henough :
          balances (ContextT.payloadGet context) account < params.value
      · rw [if_pos henough] at h
        cases h
      rw [if_neg henough, Result.bind_eq_ok] at h
      obtain ⟨recipientBalance, hrecipient, h⟩ := h
      rw [balance_get_eq_ok hrecipient] at h
      have hlt := balances_lt (ContextT.payloadGet context) account
      simp only [overflowingSub, overflowingAdd, henough, decide_false, Bool.false_eq_true,
        if_false] at h
      by_cases hfits : 2 ^ 64 ≤
          balances (ContextT.payloadGet context) params.recipient + params.value
      · rw [if_pos (decide_eq_true hfits)] at h
        cases h
      · have hsum : balances (ContextT.payloadGet context) params.recipient + params.value <
            2 ^ 64 := Nat.lt_of_not_le hfits
        have hle : params.value ≤ balances (ContextT.payloadGet context) account :=
          Nat.le_of_not_lt henough
        rw [if_neg (by simpa using hfits), wrapSub_of_le hlt hle, wrapAdd_of_lt hsum] at h
        cases h
        exact ⟨account, rfl, hne, hle, hsum, rfl⟩

/-- The module cannot tell two contexts apart in which it reads the same: its
transfers on them go alike. -/
theorem transfer_map {D : Type} [ContextT D] {f : C → D}
    (hget : ∀ c, ContextT.payloadGet (f c) = ContextT.payloadGet c)
    (hset : ∀ c key value, ContextT.payloadSet (f c) key value = f (ContextT.payloadSet c key value))
    (hemit : ∀ c event, ContextT.emitEvent (f c) event = f (ContextT.emitEvent c event))
    (context : C) (sender : Option Address) (params : TransferParams) :
    transfer (f context) sender params = (transfer context sender params).map f := by
  have hread : ∀ account, balance.get (f context) account = balance.get context account := by
    intro account
    rw [StorageMap.get, StorageMap.get, contextGet, contextGet, hget]
  have hwrite : ∀ c account value, balance.set (f c) account value =
      f (balance.set c account value) := by
    intro c account value
    rw [StorageMap.set, StorageMap.set, hset]
  cases sender with
  | none => rfl
  | some account =>
      rw [transfer, transfer]
      simp only [hread, hwrite, hemit]
      split
      · rfl
      · cases balance.get context account with
        | error e => rfl
        | ok senderBalance =>
            simp only [Except.bind]
            split
            · rfl
            · cases balance.get context params.recipient with
              | error e => rfl
              | ok recipientBalance =>
                  dsimp only
                  split
                  · rfl
                  · split
                    · rfl
                    · rfl

end Methods

end Finastate.BalanceModule
