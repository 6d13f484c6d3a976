import Finastate.Contract.Isolation
import Finastate.Contract.SdkHost
import Finastate.Library.Allowance
import Mathlib.Data.FinEnum
import Mathlib.Data.Set.Finite.List

/-!
# The token contract

A contract that keeps a balance for every address and, for every two addresses,
what the second may take of the first. The methods read and write the storage of
the contract through the library. `accounts` is what the storage stands for, a
ledger with allowances over the addresses of the chain (`Holder`). A method that
succeeds has made operations of its caller on it, or none.

A transfer does not compare the two accounts. It reads both balances before it
writes them, so that a transfer of an account to itself adds the value to it.
-/

namespace Finastate.Contract.Token

open Executor Vm Sdk Dialogue BalanceModule

structure InitParams where
  name : String
  symbol : String
  decimals : UInt8
  totalSupply : Balance

structure BalanceParams where
  address : Address

structure TransferParams where
  recipient : Address
  value : Balance

structure ApproveParams where
  spender : Address
  value : Balance

structure AllowanceParams where
  owner : Address
  spender : Address

structure TransferFromParams where
  sender : Address
  recipient : Address
  value : Balance

structure TransferEvent where
  sender : Address
  recipient : Address
  value : Balance

structure ApprovalEvent where
  owner : Address
  spender : Address
  value : Balance

instance instInitParams : Deserialize InitParams where
  deserialize json := do
    match ← json.fields ["name", "symbol", "decimals", "total_supply"] with
    | [name, symbol, decimals, totalSupply] =>
        return {
          name := ← deserialize name
          symbol := ← deserialize symbol
          decimals := ← deserialize decimals
          totalSupply := ← deserialize totalSupply }
    | _ => none

instance instBalanceParams : Deserialize BalanceParams where
  deserialize json := do
    match ← json.fields ["address"] with
    | [address] => return { address := ← deserialize address }
    | _ => none

instance instTransferParams : Deserialize TransferParams where
  deserialize json := do
    match ← json.fields ["recipient", "value"] with
    | [recipient, value] =>
        return { recipient := ← deserialize recipient, value := ← deserialize value }
    | _ => none

instance instApproveParams : Deserialize ApproveParams where
  deserialize json := do
    match ← json.fields ["spender", "value"] with
    | [spender, value] =>
        return { spender := ← deserialize spender, value := ← deserialize value }
    | _ => none

instance instAllowanceParams : Deserialize AllowanceParams where
  deserialize json := do
    match ← json.fields ["owner", "spender"] with
    | [owner, spender] =>
        return { owner := ← deserialize owner, spender := ← deserialize spender }
    | _ => none

instance instTransferFromParams : Deserialize TransferFromParams where
  deserialize json := do
    match ← json.fields ["sender", "recipient", "value"] with
    | [sender, recipient, value] =>
        return {
          sender := ← deserialize sender
          recipient := ← deserialize recipient
          value := ← deserialize value }
    | _ => none

theorem InitParams.totalSupply_lt {json : Json} {params : InitParams}
    (h : deserialize json = some params) : params.totalSupply < 2 ^ 64 := by
  obtain ⟨values, -, h⟩ := Option.bind_eq_some_iff.1 h
  split at h
  · obtain ⟨name, -, h⟩ := Option.bind_eq_some_iff.1 h
    obtain ⟨symbol, -, h⟩ := Option.bind_eq_some_iff.1 h
    obtain ⟨decimals, -, h⟩ := Option.bind_eq_some_iff.1 h
    obtain ⟨totalSupply, htotalSupply, h⟩ := Option.bind_eq_some_iff.1 h
    cases h
    exact deserialize_nat_lt htotalSupply
  · cases h

theorem ApproveParams.value_lt {json : Json} {params : ApproveParams}
    (h : deserialize json = some params) : params.value < 2 ^ 64 := by
  obtain ⟨values, -, h⟩ := Option.bind_eq_some_iff.1 h
  split at h
  · obtain ⟨spender, -, h⟩ := Option.bind_eq_some_iff.1 h
    obtain ⟨value, hvalue, h⟩ := Option.bind_eq_some_iff.1 h
    cases h
    exact deserialize_nat_lt hvalue
  · cases h

instance instTransferEvent : Serialize TransferEvent where
  serialize event := .object [("sender", serialize event.sender),
    ("recipient", serialize event.recipient), ("value", serialize event.value)]

instance instApprovalEvent : Serialize ApprovalEvent where
  serialize event := .object [("owner", serialize event.owner),
    ("spender", serialize event.spender), ("value", serialize event.value)]

/-- A contract, with the context of its call. -/
structure Contract where
  context : Sdk.Context
  name : Sdk.StorageValue String
  symbol : Sdk.StorageValue String
  decimals : Sdk.StorageValue UInt8
  totalSupply : Sdk.StorageValue Balance
  balance : Sdk.StorageMap Balance
  allowance : Sdk.StorageMap Balance

def new : ContractResult Contract := do
  let context ← Context.new
  return {
    context
    name := .new "name"
    symbol := .new "symbol"
    decimals := .new "decimals"
    totalSupply := .new "totalSupply"
    balance := .new "balance"
    allowance := .new "allowance" }

/-- `Option::expect`. A panic is a trap, of which the text is the library's. -/
def expect {α : Type} (trap : VMError) : Option α → ContractResult α
  | some a => pure a
  | none => liftM (.stop trap : Sdk.Program α)

section Methods

variable (serde : SerdeJson) (trap : VMError) (self : Contract)

/-- The sender, without whom there is an error. -/
def signed : ContractResult Address := okOr .unsigned self.context.contractEnv.senderAddress

def allowanceKey (owner spender : Address) : Bytes :=
  owner.bytes ++ asBytes "_" ++ spender.bytes

def innerTransfer (senderAddress recipientAddress : Address) (value : Balance) :
    ContractResult Unit := do
  Util.validateAddress senderAddress
  Util.validateAddress recipientAddress
  let senderBalance := (← self.balance.get serde senderAddress.bytes).getD 0
  let recipientBalance := (← self.balance.get serde recipientAddress.bytes).getD 0
  failIf (senderBalance < value) (.ofString "Insufficient balance")
  let (senderBalance, overflow) := overflowingSub senderBalance value
  failIf overflow (.ofString "U64 overflow")
  let (recipientBalance, overflow) := overflowingAdd recipientBalance value
  failIf overflow (.ofString "U64 overflow")
  self.balance.set serde senderAddress.bytes senderBalance
  self.balance.set serde recipientAddress.bytes recipientBalance
  Context.emitEvent serde "Transfer"
    { sender := senderAddress, recipient := recipientAddress, value : TransferEvent }

def innerApprove (ownerAddress spenderAddress : Address) (value : Balance) :
    ContractResult Unit := do
  Util.validateAddress ownerAddress
  Util.validateAddress spenderAddress
  self.allowance.set serde (allowanceKey ownerAddress spenderAddress) value
  Context.emitEvent serde "Approval"
    { owner := ownerAddress, spender := spenderAddress, value : ApprovalEvent }

def init (params : InitParams) : ContractResult Unit := do
  self.name.set serde params.name
  self.symbol.set serde params.symbol
  self.decimals.set serde params.decimals
  self.totalSupply.set serde params.totalSupply
  let senderAddress ← signed self
  self.balance.set serde senderAddress.bytes params.totalSupply

def name (_ : EmptyParams) : ContractResult String := do
  expect trap (← self.name.get serde)

def symbol (_ : EmptyParams) : ContractResult String := do
  expect trap (← self.symbol.get serde)

def decimals (_ : EmptyParams) : ContractResult UInt8 := do
  expect trap (← self.decimals.get serde)

def totalSupply (_ : EmptyParams) : ContractResult Balance := do
  expect trap (← self.totalSupply.get serde)

def balance (params : BalanceParams) : ContractResult Balance := do
  return (← self.balance.get serde params.address.bytes).getD 0

def transfer (params : TransferParams) : ContractResult Unit := do
  let senderAddress ← signed self
  innerTransfer serde self senderAddress params.recipient params.value

def approve (params : ApproveParams) : ContractResult Unit := do
  let ownerAddress ← signed self
  innerApprove serde self ownerAddress params.spender params.value

def allowance (params : AllowanceParams) : ContractResult Balance := do
  Util.validateAddress params.owner
  Util.validateAddress params.spender
  return (← self.allowance.get serde (allowanceKey params.owner params.spender)).getD 0

def transferFrom (params : TransferFromParams) : ContractResult Unit := do
  let spenderAddress ← signed self
  let allowance := (← self.allowance.get serde (allowanceKey params.sender spenderAddress)).getD 0
  failIf (allowance < params.value) (.ofString "Exceed allowance")
  innerTransfer serde self params.sender params.recipient params.value
  let (allowance, overflow) := overflowingSub allowance params.value
  failIf overflow (.ofString "U64 overflow")
  innerApprove serde self params.sender spenderAddress allowance

end Methods

section Exports

variable (serde : SerdeJson) (trap : VMError)

def initMethods : List (ModuleMethod Contract) :=
  [moduleMethod serde "init" false none (init serde)]

def callMethods : List (ModuleMethod Contract) :=
  [moduleMethod serde "name" false none (name serde trap),
    moduleMethod serde "symbol" false none (symbol serde trap),
    moduleMethod serde "decimals" false none (decimals serde trap),
    moduleMethod serde "total_supply" false none (totalSupply serde trap),
    moduleMethod serde "balance" false none (balance serde),
    moduleMethod serde "transfer" false none (transfer serde),
    moduleMethod serde "approve" false none (approve serde),
    moduleMethod serde "allowance" false none (allowance serde),
    moduleMethod serde "transfer_from" false none (transferFrom serde)]

/-- `execute_init`. -/
def executeInit : Sdk.Program Unit := execute new (initMethods serde)

/-- `execute_call`. -/
def executeCall : Sdk.Program Unit := execute new (callMethods serde trap)

end Exports

/-! ## The ledger -/

/-- An address of the chain. -/
abbrev Holder (util : Executor.Util) :=
  { address : Address // address.bytes.length = util.addressLength }

/-- There are finitely many texts of one length. -/
instance finite_holder {util : Executor.Util} : Finite (Holder util) := by
  have htexts : {bytes : Bytes | bytes.length = util.addressLength}.Finite :=
    List.finite_length_eq UInt8 util.addressLength
  refine htexts.to_subtype.of_injective (fun i => ⟨i.1.bytes, i.2⟩) fun i j h => ?_
  exact Subtype.ext (congrArg Address.mk (congrArg Subtype.val h))

section Ledger

variable (serde : SerdeJson)

/-- The amount in an entry. One in which there is none counts as nothing. -/
def amount (found : Option DBValue) : ℕ :=
  ((found.bind serde.fromSlice).bind fun json =>
    (deserialize json : Option (Option Balance))).join.getD 0

def balanceEntry (address : Address) : Bytes :=
  (Sdk.StorageMap.new "balance" : Sdk.StorageMap Balance).entryKey address.bytes

def allowanceEntry (owner spender : Address) : Bytes :=
  (Sdk.StorageMap.new "allowance" : Sdk.StorageMap Balance).entryKey (allowanceKey owner spender)

/-- The ledger of a token that has `own` in its storage. -/
def accounts (util : Executor.Util) (own : Bytes → Option DBValue) :
    Ledger.Accounts (Holder util) where
  balance i := amount serde (own (balanceEntry i.1))
  allowance i j := amount serde (own (allowanceEntry i.1 j.1))

variable {serde} {util : Executor.Util} {n : ℕ} {text : Bytes}

theorem balanceEntry_injective : Function.Injective balanceEntry := by
  intro address address' h
  have hbytes : address.bytes = address'.bytes := List.append_cancel_left h
  exact congrArg Address.mk hbytes

theorem allowanceEntry_inj {i j i' j' : Holder util}
    (h : allowanceEntry i.1 j.1 = allowanceEntry i'.1 j'.1) : i = i' ∧ j = j' := by
  have hkey : allowanceKey i.1 j.1 = allowanceKey i'.1 j'.1 := List.append_cancel_left h
  rw [allowanceKey, allowanceKey, List.append_assoc, List.append_assoc] at hkey
  obtain ⟨howner, hrest⟩ := List.append_inj hkey (i.2.trans i'.2.symm)
  have hspender := List.append_cancel_left hrest
  exact ⟨Subtype.ext (congrArg Address.mk howner), Subtype.ext (congrArg Address.mk hspender)⟩

theorem head?_balanceEntry (address : Address) : (balanceEntry address).head? = some 98 := by
  have hhead : (asBytes "balance").head? = some 98 := by decide +kernel
  simp only [balanceEntry, Sdk.StorageMap.entryKey, Sdk.StorageMap.new, List.append_assoc,
    List.head?_append, hhead, Option.some_or]

theorem head?_allowanceEntry (owner spender : Address) :
    (allowanceEntry owner spender).head? = some 97 := by
  have hhead : (asBytes "allowance").head? = some 97 := by decide +kernel
  simp only [allowanceEntry, Sdk.StorageMap.entryKey, Sdk.StorageMap.new, List.append_assoc,
    List.head?_append, hhead, Option.some_or]

theorem balanceEntry_ne_allowanceEntry (address owner spender : Address) :
    balanceEntry address ≠ allowanceEntry owner spender := by
  intro h
  have hhead := congrArg List.head? h
  rw [head?_balanceEntry, head?_allowanceEntry] at hhead
  exact absurd hhead (by decide)

theorem amount_text (hn : n < 2 ^ 64) (htext : serde.toVec (serialize n) = some text) :
    amount serde (some text) = n := by
  have hread : serde.fromSlice text = some (.number n) := serde.fromSlice_toVec hn htext
  rw [amount, Option.bind_some, hread, Option.bind_some, deserialize_option_number hn]
  rfl

theorem amount_lt (found : Option DBValue) : amount serde found < 2 ^ 64 := by
  have hpos : 0 < 2 ^ 64 := Nat.two_pow_pos 64
  rw [amount]
  cases hread : found.bind serde.fromSlice with
  | none => exact hpos
  | some json =>
      rw [Option.bind_some]
      cases hvalue : (deserialize json : Option (Option Balance)) with
      | none => exact hpos
      | some value =>
          cases value with
          | none => exact hpos
          | some n => exact deserialize_option_lt hvalue

theorem accounts_set_balance (own : Bytes → Option DBValue) (i : Holder util)
    (hn : n < 2 ^ 64) (htext : serde.toVec (serialize n) = some text) :
    accounts serde util (Function.update own (balanceEntry i.1) (some text)) =
      { accounts serde util own with
        balance := Function.update (accounts serde util own).balance i n } := by
  simp only [accounts, Ledger.Accounts.mk.injEq]
  constructor
  · funext j
    by_cases hj : j = i
    · subst hj
      rw [Function.update_self, Function.update_self, amount_text hn htext]
    · rw [Function.update_of_ne hj, Function.update_of_ne]
      exact fun h => hj (Subtype.ext (balanceEntry_injective h))
  · funext j k
    rw [Function.update_of_ne (balanceEntry_ne_allowanceEntry _ _ _).symm]

theorem accounts_set_allowance (own : Bytes → Option DBValue) (i j : Holder util)
    (hn : n < 2 ^ 64) (htext : serde.toVec (serialize n) = some text) :
    accounts serde util (Function.update own (allowanceEntry i.1 j.1) (some text)) =
      (accounts serde util own).approve i j n := by
  simp only [accounts, Ledger.Accounts.approve, Ledger.Accounts.mk.injEq]
  constructor
  · funext k
    rw [Function.update_of_ne (balanceEntry_ne_allowanceEntry _ _ _)]
  · funext k l
    by_cases hk : k = i
    · subst hk
      rw [Function.update_self]
      by_cases hl : l = j
      · subst hl
        rw [Function.update_self, Function.update_self, amount_text hn htext]
      · rw [Function.update_of_ne hl, Function.update_of_ne]
        exact fun h => hl (allowanceEntry_inj h).2
    · rw [Function.update_of_ne hk, Function.update_of_ne]
      exact fun h => hk (allowanceEntry_inj h).1

/-- An entry of neither map. -/
theorem accounts_set_other (own : Bytes → Option DBValue) {key : Bytes}
    (hbalance : key.head? ≠ some 98) (hallowance : key.head? ≠ some 97) (value : Option DBValue) :
    accounts serde util (Function.update own key value) = accounts serde util own := by
  simp only [accounts, Ledger.Accounts.mk.injEq]
  constructor
  · funext i
    rw [Function.update_of_ne]
    rintro rfl
    exact hbalance (head?_balanceEntry i.1)
  · funext i j
    rw [Function.update_of_ne]
    rintro rfl
    exact hallowance (head?_allowanceEntry i.1 j.1)

variable (serde util) in
/-- A token has been issued: the supply is stored, and it belongs to the sender. -/
structure Issued (sender : Option Address) (own own' : Bytes → Option DBValue) (supply : ℕ) :
    Prop where
  entry : amount serde (own' (asBytes "totalSupply")) = supply
  accounts : ∀ i : Holder util, sender = some i.1 →
    accounts serde util own' =
      { accounts serde util own with
        balance := Function.update (accounts serde util own).balance i supply }

end Ledger

/-! ## What the methods do -/

theorem reads_expect {vm : VM} {callee : Env NestedCall Reply (State × CallStack)} {w : CallStack}
    {α : Type} {trap : VMError} {found : Option α} :
    Reads vm callee w (expect trap found) fun _ => True := by
  cases found with
  | none => exact fun _ => returns_lift.2 trivial
  | some a => exact reads_pure trivial

/-- A value that has been stored, without which there is a panic. -/
theorem reads_expectGet {vm : VM} {callee : Env NestedCall Reply (State × CallStack)}
    {w : CallStack} {address : Address} {α : Type} [Deserialize α] {serde : SerdeJson}
    {trap : VMError} {v : Sdk.StorageValue α}
    (haddress : w.top.contractEnv.contractAddress = some address) :
    Reads vm callee w (do expect trap (← v.get serde)) fun _ => True :=
  (reads_storageGet haddress).bind fun _ _ => reads_expect

section Methods

variable (serde : SerdeJson) (util : Executor.Util) (token : Address)

/-- The ledger of the token, as the running contract sees it. -/
def ledger (w : CallStack) : Ledger.Accounts (Holder util) :=
  accounts serde util (owned util token w)

/-- What operations of the caller have made of the ledger. -/
def Acted (w w' : CallStack) : Prop :=
  Ledger.Reaches (fun i : Holder util => w.top.contractEnv.senderAddress = some i.1)
    (ledger serde util token w) (ledger serde util token w')

/-- What `new` makes. -/
structure Made (w : CallStack) (contract : Contract) : Prop where
  env : contract.context.contractEnv = w.top.contractEnv
  name : contract.name = .new "name"
  symbol : contract.symbol = .new "symbol"
  decimals : contract.decimals = .new "decimals"
  totalSupply : contract.totalSupply = .new "totalSupply"
  balance : contract.balance = .new "balance"
  allowance : contract.allowance = .new "allowance"

variable {serde token} {vm : VM} {callee : Env NestedCall Reply (State × CallStack)}
  {w : CallStack} {s : State} {self : Contract}

theorem owned_payloadSet (hinj : Function.Injective vm.util.hash) (key : Bytes)
    (value : Option DBValue) :
    owned vm.util token (w.payloadSet (moduleKey vm.util token key) value) =
      Function.update (owned vm.util token w) key value := by
  funext k
  rw [owned, Machine.payloadGet_payloadSet]
  by_cases hk : k = key
  · subst hk
    rw [if_pos rfl, Function.update_self]
  · rw [if_neg fun h => hk (Machine.moduleKey_inj hinj rfl h).2, Function.update_of_ne hk, owned]

theorem reads_new : Reads vm callee w new (Made w) := by
  refine reads_contextNew.bind ?_
  rintro context rfl
  exact reads_pure ⟨rfl, rfl, rfl, rfl, rfl, rfl, rfl⟩

theorem reads_mapGet {m : Sdk.StorageMap Balance} {key : Bytes}
    (haddress : w.top.contractEnv.contractAddress = some token) :
    Reads vm callee w (m.get serde key) fun found =>
      found.getD 0 = amount serde (owned vm.util token w (m.entryKey key)) := by
  refine (reads_storageGet haddress).mono fun found hfound => ?_
  cases hown : owned vm.util token w (m.entryKey key) with
  | none =>
      simp only [hown] at hfound
      rw [hfound]
      rfl
  | some value =>
      simp only [hown] at hfound
      rw [amount, Option.bind_some, hfound]
      rfl

variable (hinj : Function.Injective vm.util.hash)
  (haddress : w.top.contractEnv.contractAddress = some token) (hself : Made w self)

include hinj haddress hself

theorem returns_innerTransfer {sender recipient : Address} {value : Balance} :
    Returns (hostEnv vm callee) (innerTransfer serde self sender recipient value) (s, w)
      fun _ σ => σ.2.top.contractEnv = w.top.contractEnv ∧
        ∃ hs hr, value ≤ (ledger serde vm.util token w).balance ⟨sender, hs⟩ ∧
          ledger serde vm.util token σ.2 =
            (ledger serde vm.util token w).transfer ⟨sender, hs⟩ ⟨recipient, hr⟩ value := by
  refine (reads_validateAddress sender).returns_bind fun _ hs s => ?_
  refine (reads_validateAddress recipient).returns_bind fun _ hr s => ?_
  refine (reads_mapGet haddress).returns_bind fun senderBalance hsender s => ?_
  refine (reads_mapGet haddress).returns_bind fun recipientBalance hrecipient s => ?_
  rw [hself.balance] at hsender hrecipient
  refine reads_failIf.returns_bind fun _ henough s => ?_
  refine reads_failIf.returns_bind fun _ _ s => ?_
  refine reads_failIf.returns_bind fun _ hfits s => ?_
  have hle : value ≤ senderBalance.getD 0 := Nat.le_of_not_lt henough
  have hlt : senderBalance.getD 0 < 2 ^ 64 := hsender ▸ amount_lt _
  have hsum : recipientBalance.getD 0 + value < 2 ^ 64 :=
    Nat.lt_of_not_le fun h => hfits (decide_eq_true h)
  have hrest : senderBalance.getD 0 - value < 2 ^ 64 := lt_of_le_of_lt (Nat.sub_le _ _) hlt
  have haddress₁ (key : DBKey) (value : Option DBValue) :
      (w.payloadSet key value).top.contractEnv.contractAddress = some token := haddress
  rw [wrapSub_of_le hlt hle, wrapAdd_of_lt hsum, hself.balance]
  refine Dialogue.returns_bind.2 ((returns_storageSet haddress).mono ?_)
  rintro _ ⟨s₁, w₁⟩ ⟨text, htext, rfl⟩
  refine Dialogue.returns_bind.2 ((returns_storageSet (haddress₁ _ _)).mono ?_)
  rintro _ ⟨s₂, w₂⟩ ⟨text', htext', rfl⟩
  refine returns_emitEvent.mono ?_
  rintro _ ⟨s₃, w₃⟩ ⟨event, rfl⟩
  refine ⟨rfl, hs, hr, hle.trans (le_of_eq hsender), ?_⟩
  have hledger := accounts_set_balance (owned vm.util token w) ⟨sender, hs⟩ hrest htext
  have hledger' := accounts_set_balance (Function.update (owned vm.util token w)
    (balanceEntry sender) (some text)) ⟨recipient, hr⟩ hsum htext'
  rw [hledger, ← owned_payloadSet hinj, ← owned_payloadSet hinj] at hledger'
  rw [hsender, hrecipient] at hledger'
  exact hledger'

theorem returns_innerApprove {owner spender : Address} {value : Balance} (hvalue : value < 2 ^ 64) :
    Returns (hostEnv vm callee) (innerApprove serde self owner spender value) (s, w)
      fun _ σ => ∃ ho hs, ledger serde vm.util token σ.2 =
        (ledger serde vm.util token w).approve ⟨owner, ho⟩ ⟨spender, hs⟩ value := by
  refine (reads_validateAddress owner).returns_bind fun _ ho s => ?_
  refine (reads_validateAddress spender).returns_bind fun _ hs s => ?_
  rw [hself.allowance]
  refine Dialogue.returns_bind.2 ((returns_storageSet haddress).mono ?_)
  rintro _ ⟨s₁, w₁⟩ ⟨text, htext, rfl⟩
  refine returns_emitEvent.mono ?_
  rintro _ ⟨s₂, w₂⟩ ⟨event, rfl⟩
  refine ⟨ho, hs, ?_⟩
  have hledger := accounts_set_allowance (owned vm.util token w) ⟨owner, ho⟩ ⟨spender, hs⟩
    hvalue htext
  rw [← owned_payloadSet hinj] at hledger
  exact hledger

theorem returns_init {params : InitParams} (hsupply : params.totalSupply < 2 ^ 64) :
    Returns (hostEnv vm callee) (init serde self params) (s, w) fun _ σ =>
      ∃ supply, Issued serde vm.util w.top.contractEnv.senderAddress
        (owned vm.util token w) (owned vm.util token σ.2) supply := by
  have hset {w : CallStack} (h : w.top.contractEnv.contractAddress = some token) (key : DBKey)
      (value : Option DBValue) :
      (w.payloadSet key value).top.contractEnv.contractAddress = some token := h
  rw [init, hself.name, hself.symbol, hself.decimals, hself.totalSupply, hself.balance]
  refine Dialogue.returns_bind.2 ((returns_storageSet haddress).mono ?_)
  rintro _ ⟨s₁, w₁⟩ ⟨name, -, rfl⟩
  have haddress₁ := hset haddress (moduleKey vm.util token (asBytes "name")) (some name)
  refine Dialogue.returns_bind.2 ((returns_storageSet haddress₁).mono ?_)
  rintro _ ⟨s₂, w₂⟩ ⟨symbol, -, rfl⟩
  have haddress₂ := hset haddress₁ (moduleKey vm.util token (asBytes "symbol")) (some symbol)
  refine Dialogue.returns_bind.2 ((returns_storageSet haddress₂).mono ?_)
  rintro _ ⟨s₃, w₃⟩ ⟨decimals, -, rfl⟩
  have haddress₃ := hset haddress₂ (moduleKey vm.util token (asBytes "decimals")) (some decimals)
  refine Dialogue.returns_bind.2 ((returns_storageSet haddress₃).mono ?_)
  rintro _ ⟨s₄, w₄⟩ ⟨totalSupply, htotalSupply, rfl⟩
  have haddress₄ := hset haddress₃ (moduleKey vm.util token (asBytes "totalSupply"))
    (some totalSupply)
  refine reads_okOr.returns_bind fun sender hsender s => ?_
  rw [hself.env] at hsender
  refine (returns_storageSet haddress₄).mono ?_
  rintro _ ⟨s₅, w₅⟩ ⟨balance, hbalance, rfl⟩
  refine ⟨params.totalSupply, ?_, ?_⟩
  · have hne : asBytes "totalSupply" ≠ balanceEntry sender := by
      intro h
      have hhead := congrArg List.head? h
      rw [head?_balanceEntry] at hhead
      exact absurd hhead (by decide +kernel)
    simp only [owned_payloadSet hinj]
    change amount serde (Function.update (Function.update (_ : Bytes → Option DBValue)
      (asBytes "totalSupply") _) (balanceEntry sender) _ (asBytes "totalSupply")) = _
    rw [Function.update_of_ne hne, Function.update_self]
    exact amount_text hsupply htotalSupply
  · intro i hi
    cases Option.some.inj (hsender.symm.trans hi)
    simp only [owned_payloadSet hinj]
    change accounts serde vm.util (Function.update _ (balanceEntry i.1) _) = _
    rw [accounts_set_balance _ i hsupply hbalance, accounts_set_other _ _ _,
      accounts_set_other _ _ _, accounts_set_other _ _ _, accounts_set_other _ _ _]
    all_goals decide +kernel

/-- What the methods do to the ledger: the caller has acted on it. -/
theorem returns_transfer {params : TransferParams} :
    Returns (hostEnv vm callee) (transfer serde self params) (s, w) fun _ σ =>
      Acted serde vm.util token w σ.2 := by
  refine reads_okOr.returns_bind fun sender hsender s => ?_
  rw [hself.env] at hsender
  refine (returns_innerTransfer hinj haddress hself).mono ?_
  rintro _ σ ⟨-, hs, hr, hle, hledger⟩
  have hallowed : Ledger.Op.Allowed (ledger serde vm.util token w)
    (.transfer ⟨sender, hs⟩ ⟨params.recipient, hr⟩ params.value) := hle
  rw [Acted, hledger]
  exact Ledger.Reaches.single hsender hallowed

theorem returns_approve {params : ApproveParams} (hvalue : params.value < 2 ^ 64) :
    Returns (hostEnv vm callee) (approve serde self params) (s, w) fun _ σ =>
      Acted serde vm.util token w σ.2 := by
  refine reads_okOr.returns_bind fun owner howner s => ?_
  rw [hself.env] at howner
  refine (returns_innerApprove hinj haddress hself hvalue).mono ?_
  rintro _ σ ⟨ho, hs, hledger⟩
  have hallowed : Ledger.Op.Allowed (ledger serde vm.util token w)
    (.approve ⟨owner, ho⟩ ⟨params.spender, hs⟩ params.value) := trivial
  rw [Acted, hledger]
  exact Ledger.Reaches.single howner hallowed

theorem returns_transferFrom {params : TransferFromParams} :
    Returns (hostEnv vm callee) (transferFrom serde self params) (s, w) fun _ σ =>
      Acted serde vm.util token w σ.2 := by
  refine reads_okOr.returns_bind fun spender hspender s => ?_
  rw [hself.env] at hspender
  refine (reads_mapGet haddress).returns_bind fun allowance hallowance s => ?_
  rw [hself.allowance] at hallowance
  refine reads_failIf.returns_bind fun _ henough s => ?_
  have hle : params.value ≤ allowance.getD 0 := Nat.le_of_not_lt henough
  have hlt : allowance.getD 0 < 2 ^ 64 := hallowance ▸ amount_lt _
  refine Dialogue.returns_bind.2 ((returns_innerTransfer hinj haddress hself).mono ?_)
  rintro _ ⟨s₁, w₁⟩ ⟨henv, hs, hr, hbalance, htransfer⟩
  have hself₁ : Made w₁ self := { hself with env := hself.env.trans henv.symm }
  have haddress₁ : w₁.top.contractEnv.contractAddress = some token := by
    rw [henv]
    exact haddress
  refine reads_failIf.returns_bind fun _ _ s => ?_
  rw [wrapSub_of_le hlt hle]
  have hrest : allowance.getD 0 - params.value < 2 ^ 64 := lt_of_le_of_lt (Nat.sub_le _ _) hlt
  refine (returns_innerApprove hinj haddress₁ hself₁ hrest).mono ?_
  rintro _ σ ⟨ho, hp, hledger⟩
  have hallowed : Ledger.Op.Allowed (ledger serde vm.util token w)
      (.transferFrom ⟨spender, hp⟩ ⟨params.sender, hs⟩ ⟨params.recipient, hr⟩ params.value) :=
    ⟨hle.trans (le_of_eq hallowance), hbalance⟩
  rw [Acted, hledger, htransfer, hallowance]
  exact Ledger.Reaches.single hspender hallowed

omit hself in
/-- A token whose creation succeeds has been issued to its creator. -/
theorem ends_executeInit :
    Ends (hostEnv vm callee) (executeInit serde) (s, w) fun _ σ =>
      ∃ supply, Issued serde vm.util w.top.contractEnv.senderAddress
        (owned vm.util token w) (owned vm.util token σ.2) supply := by
  let Q (w' : CallStack) : Prop :=
    ∃ supply, Issued serde vm.util w.top.contractEnv.senderAddress
      (owned vm.util token w) (owned vm.util token w') supply
  refine ends_execute (Q := Q) reads_new ?_
  intro m hm contract hmade params payValue s
  rw [initMethods, List.mem_singleton] at hm
  subst hm
  refine returns_moduleMethod (Q := Q) fun params hparams s =>
    returns_init hinj haddress hmade ?_
  obtain ⟨json, hjson⟩ := hparams
  exact InitParams.totalSupply_lt hjson

omit hself in
/-- A call of the token that succeeds is an operation of its caller, or none. -/
theorem ends_executeCall {trap : VMError} :
    Ends (hostEnv vm callee) (executeCall serde trap) (s, w) fun _ σ =>
      Acted serde vm.util token w σ.2 := by
  have hacted : Acted serde vm.util token w w := Ledger.Reaches.refl _ _
  refine ends_execute reads_new ?_
  intro m hm contract hmade params payValue s
  simp only [callMethods, List.mem_cons, List.not_mem_nil, or_false] at hm
  rcases hm with rfl | rfl | rfl | rfl | rfl | rfl | rfl | rfl | rfl
  · exact returns_readMethod (fun _ => reads_expectGet haddress) hacted
  · exact returns_readMethod (fun _ => reads_expectGet haddress) hacted
  · exact returns_readMethod (fun _ => reads_expectGet haddress) hacted
  · exact returns_readMethod (fun _ => reads_expectGet haddress) hacted
  · refine returns_readMethod (fun _ => ?_) hacted
    exact (reads_storageGet haddress).bind fun _ _ => reads_pure trivial
  · exact returns_moduleMethod fun _ _ s => returns_transfer hinj haddress hmade
  · refine returns_moduleMethod fun params hparams s => returns_approve hinj haddress hmade ?_
    obtain ⟨json, hjson⟩ := hparams
    exact ApproveParams.value_lt hjson
  · refine returns_readMethod (fun _ => ?_) hacted
    refine (reads_validateAddress _).bind fun _ _ => ?_
    refine (reads_validateAddress _).bind fun _ _ => ?_
    exact (reads_storageGet haddress).bind fun _ _ => reads_pure trivial
  · exact returns_moduleMethod fun _ _ s => returns_transferFrom hinj haddress hmade

end Methods

end Finastate.Contract.Token
