import Finastate.Contract.Conservation
import Finastate.Contract.TokenRuns
import Mathlib.Data.Nat.Digits.Defs

/-!
# The token over batches of transactions

A batch transfers native balances and creates and executes contracts. What such
a call of a module writes is not the code of the token, and of the data of the
token it changes only what the contracts that run change (`TokenRuns`). So over
the whole batch the ledger of the token goes through allowed operations, each of
a signer or of a contract: no account loses more than it has sent or allowed.
When a token is created its supply belongs to its creator, and from then on the
total is the supply and what accounts have sent to themselves.
-/

namespace Finastate.Contract.Token

open Executor Vm Sdk

variable {serde : SerdeJson} {trap : VMError} {token : Address} {P : Address → Prop}
  (lib : Library) {context context' context'' : Executor.Context}

variable (serde token P context context') in
/-- The code of the token is the same, and its ledger has gone through operations. -/
structure Advances : Prop where
  code : innerGetCode context' token none = innerGetCode context token none
  grows : Grows lib.util P (contextLedger serde lib.util token context)
    (contextLedger serde lib.util token context')

namespace Advances

variable {lib}

theorem of_congr (hcode : ∀ key ∈ Governance.ContractOffice.codeKeys token,
      context'.payloadGet key = context.payloadGet key)
    (hdata : ∀ key, context'.payloadGet (moduleKey lib.util token key) =
      context.payloadGet (moduleKey lib.util token key)) :
    Advances serde token P lib context context' where
  code := innerGetCode_eq_of_codeKeys hcode
  grows := by
    have hledger : contextLedger serde lib.util token context' =
        contextLedger serde lib.util token context := copyLedger_congr hdata
    rw [hledger]
    exact Ledger.Reaches.refl _ _

theorem of_payloadGet (hget : context'.payloadGet = context.payloadGet) :
    Advances serde token P lib context context' :=
  of_congr (fun key _ => congrFun hget key) fun _ => congrFun hget _

theorem refl : Advances serde token P lib context context := of_payloadGet rfl

theorem trans (h : Advances serde token P lib context context')
    (h' : Advances serde token P lib context' context'') :
    Advances serde token P lib context context'' where
  code := h'.code.trans h.code
  grows := Ledger.Reaches.trans h.grows h'.grows

theorem isToken (h : Advances serde token P lib context context')
    (hcode : IsToken serde trap token lib context) : IsToken serde trap token lib context' :=
  fun code hget => hcode code (h.code ▸ hget)

/-- Writes that are neither of the code nor of data. -/
theorem of_touched {keys : Set DBKey} (h : Touched keys context context')
    (hcode : ∀ key ∈ Governance.ContractOffice.codeKeys token, key ∉ keys)
    (hdata : ∀ key, moduleKey lib.util token key ∉ keys) :
    Advances serde token P lib context context' :=
  of_congr (fun key hkey => h.payloadGet_eq (hcode key hkey))
    fun key => h.payloadGet_eq (hdata key)

end Advances

theorem Follows.advances {α : Type} {r : Executor.Context × ModuleResult α} {out : α}
    (h : Follows serde token P lib context r) (hout : r.2 = .ok out) :
    Advances serde token P lib context r.1 :=
  ⟨h.code out hout, h.grows out hout⟩

theorem Follows.trans {α : Type} {r : Executor.Context × ModuleResult α}
    (hbase : context.SameBase context') (h : Advances serde token P lib context context')
    (h' : Follows serde token P lib context' r) : Follows serde token P lib context r where
  base := hbase.trans h'.base
  code := fun _ hout => (h.trans (h'.advances lib hout)).code
  grows := fun _ hout => (h.trans (h'.advances lib hout)).grows

/-! ## Calls -/

theorem codeKeys_notMem_vmKeys {key : DBKey} (h : key ∈ Governance.ContractOffice.codeKeys token) :
    key ∉ vmKeys lib.util :=
  Governance.ContractOffice.entryKeys_notMem_vmKeys
    (Governance.ContractOffice.mem_entryKeys_of_codeKeys h)

/-- A transfer of native balance. -/
theorem follows_transfer {sender : Option Address} {params : BalanceModule.TransferParams}
    (h : BalanceModule.transfer context sender params = .ok context') :
    Follows serde token P lib context (context', (.ok [] : ModuleResult Bytes)) := by
  obtain ⟨account, -, ht⟩ := BalanceModule.transfer_eq_ok h
  have htouched : Touched (Set.range BalanceModule.balance.key) context context' := by
    have hsender := Set.mem_range_self (f := BalanceModule.balance.key) account
    have hrecipient := Set.mem_range_self (f := BalanceModule.balance.key) params.recipient
    rw [ht.eq]
    exact ((Touched.refl.set hsender _).set hrecipient _).emit _
  have hadvances : Advances serde token P lib context context' := by
    refine .of_touched htouched ?_ ?_
    · rintro key hkey ⟨account, rfl⟩
      exact codeKeys_notMem_vmKeys lib hkey (Or.inr ⟨account, rfl⟩)
    · rintro key ⟨account, hkey⟩
      exact (dataKey lib.util token key).ne_balanceKey account hkey.symm
  refine ⟨?_, fun _ _ => hadvances.code, fun _ _ => hadvances.grows⟩
  rw [ht.eq]
  exact ⟨rfl, rfl⟩

/-- A new contract is stored apart from the data of the contracts. -/
theorem stored_store (address sender : Address) (newCode : Bytes) :
    stored token lib.util (lib.store context sender address newCode) =
      stored token lib.util context := by
  funext key
  have htouched := Governance.ContractOffice.touched_store lib context address sender newCode
  refine htouched.payloadGet_eq fun hstored => ?_
  have hvm : moduleKey lib.util token key ∈ vmKeys lib.util := Or.inl ⟨token, key, rfl⟩
  exact Governance.ContractOffice.entryKeys_notMem_vmKeys
    (Governance.ContractOffice.stored_subset_entryKeys address hstored) hvm

/-- The entries of another contract are written. -/
theorem advances_store (hlength : token.bytes.length = lib.util.addressLength) {address : Address}
    (haddress : address.bytes.length = lib.util.addressLength) (hne : address ≠ token)
    (sender : Address) (newCode : Bytes) :
    Advances serde token P lib context (lib.store context sender address newCode) := by
  refine .of_congr (fun key hkey => ?_) (congrFun (stored_store lib address sender newCode))
  have htouched := Governance.ContractOffice.touched_store lib context address sender newCode
  refine htouched.payloadGet_eq fun hstored => ?_
  exact Governance.ContractOffice.entryKeys_disjoint hlength haddress hne.symm
    (Governance.ContractOffice.mem_entryKeys_of_codeKeys hkey)
    (Governance.ContractOffice.stored_subset_entryKeys address hstored)

/-! ## The creation of a token -/

theorem create_eq_ok {sender : Address} {params : Library.CreateParams}
    (hok : lib.create context (some sender) params = (context', .ok token)) :
    ∃ out, lib.innerVmExecute (lib.store context sender token params.code) sender token
      params.code .init params.initMethod params.initParams params.initPayValue =
        (context', .ok out) := by
  rw [Library.create] at hok
  cases htxHash : context.callEnv.txHash with
  | none =>
      simp only [htxHash] at hok
      cases hok
  | some txHash =>
      simp only [htxHash] at hok
      generalize hresult : lib.innerVmExecute
        (lib.store context sender (lib.contractAddress txHash) params.code) sender
        (lib.contractAddress txHash) params.code .init params.initMethod
        params.initParams params.initPayValue = r at hok
      obtain ⟨context₁, result⟩ := r
      cases result with
      | error e => cases hok
      | ok out =>
          cases hok
          exact ⟨out, hresult⟩

/-- The code of a new contract is the one that has been stored. -/
theorem innerGetCode_store (address sender : Address) {newCode : Bytes}
    (hcode : Codec.ValidBytes newCode) :
    innerGetCode (lib.store context sender address newCode) address none = .ok (some newCode) := by
  have hkeys := fun (f f' : Keys.ContractField) (h : f ≠ f') => Place.contract_key_ne h address
  have hversioned := fun f f' => Place.contract_ne_versioned f f' address (address, 1)
  have hentry : lib.store context sender address newCode =
      (codeHash.entry (address, 1)).set ((code.entry (address, 1)).set
        ((admin.entry address).set ((version.entry address).set context 1) ⟨1, [(sender, 1)]⟩)
          newCode) (lib.util.hash newCode) := by
    rw [Executor.StorageMap.set_entry, Executor.StorageMap.set_entry,
      Executor.StorageMap.set_entry, Executor.StorageMap.set_entry]
    rfl
  have hversion : version.get (lib.store context sender address newCode) address =
      .ok (some 1) := by
    rw [hentry, ← Executor.StorageMap.get_entry, Executor.StorageValue.get_set_of_ne,
      Executor.StorageValue.get_set_of_ne, Executor.StorageValue.get_set_of_ne]
    · have hone : Codec.U32 1 := Nat.one_lt_two_pow (by decide)
      exact Executor.StorageValue.get_set Codec.roundTrip_u32 hone _
    · rw [Executor.StorageMap.key_entry, Executor.StorageMap.key_entry]
      exact hkeys .version .admin nofun
    · rw [Executor.StorageMap.key_entry, Executor.StorageMap.key_entry]
      exact hversioned .version .code
    · rw [Executor.StorageMap.key_entry, Executor.StorageMap.key_entry]
      exact hversioned .version .codeHash
  have hget : code.get (lib.store context sender address newCode) (address, 1) =
      .ok (some newCode) := by
    rw [hentry, ← Executor.StorageMap.get_entry, Executor.StorageValue.get_set_of_ne]
    · exact Executor.StorageValue.get_set Codec.roundTrip_bytes hcode _
    · rw [Executor.StorageMap.key_entry, Executor.StorageMap.key_entry]
      exact Place.code_key_ne_codeHash address 1
  rw [innerGetCode, innerGetVersion, hversion]
  exact hget

theorem innerGetCode_create {sender : Address} {params : Library.CreateParams}
    (hcode : Codec.ValidBytes params.code)
    (hok : lib.create context (some sender) params = (context', .ok token)) :
    innerGetCode context' token none = .ok (some params.code) := by
  obtain ⟨out, hresult⟩ := create_eq_ok lib hok
  have htouched : Touched (vmKeys lib.util) (lib.store context sender token params.code)
      (lib.innerVmExecute (lib.store context sender token params.code) sender token
        params.code .init params.initMethod params.initParams params.initPayValue).1 :=
    lib.touched_innerVmExecute sender token params.code .init params.initMethod params.initParams
      params.initPayValue
  rw [hresult] at htouched
  rw [innerGetCode_touched token htouched, innerGetCode_store lib token sender hcode]

/-- The creation of a token issues it. -/
theorem issued_create (hinj : Function.Injective lib.util.hash) {sender : Address}
    {params : Library.CreateParams}
    (hrun : ∀ config, lib.run config params.code Mode.init.executeFunc =
      toProcess (executeInit serde))
    (hok : lib.create context (some sender) params = (context', .ok token)) :
    ∃ supply, Issued serde lib.util (some sender) (stored token lib.util context)
      (stored token lib.util context') supply := by
  obtain ⟨out, hresult⟩ := create_eq_ok lib hok
  obtain ⟨supply, hissued⟩ := issued_innerVmExecute lib hinj hrun (congrArg Prod.snd hresult)
  rw [hresult, stored_store] at hissued
  exact ⟨supply, hissued⟩

/-- A token that is created where nothing has been stored belongs to its creator, as
much of it as its supply says. -/
theorem total_create (hinj : Function.Injective lib.util.hash) {sender : Address}
    (hsender : sender.bytes.length = lib.util.addressLength) {params : Library.CreateParams}
    (hrun : ∀ config, lib.run config params.code Mode.init.executeFunc =
      toProcess (executeInit serde))
    (hempty : ∀ key, stored token lib.util context key = none)
    (hok : lib.create context (some sender) params = (context', .ok token)) :
    (contextLedger serde lib.util token context').balance = Pi.single ⟨sender, hsender⟩
        (amount serde (stored token lib.util context' (asBytes "totalSupply"))) ∧
      (∀ owner spender,
        (contextLedger serde lib.util token context').allowance owner spender = 0) ∧
      Ledger.total (contextLedger serde lib.util token context').balance =
        amount serde (stored token lib.util context' (asBytes "totalSupply")) := by
  obtain ⟨supply, hissued⟩ := issued_create lib hinj hrun hok
  have hledger : contextLedger serde lib.util token context' = _ :=
    hissued.accounts ⟨sender, hsender⟩ rfl
  have hnothing : stored token lib.util context = fun _ => none := funext hempty
  rw [hnothing] at hledger
  have hbalance : (contextLedger serde lib.util token context').balance =
      Pi.single ⟨sender, hsender⟩ supply := by
    rw [hledger]
    rfl
  rw [hissued.entry, hbalance]
  refine ⟨rfl, ?_, ?_⟩
  · intro owner spender
    rw [hledger]
    rfl
  · rw [Ledger.total, finsum_eq_single _ ⟨sender, hsender⟩ fun i hi => Pi.single_eq_of_ne hi _,
      Pi.single_eq_same]

/-! ## Calls that run contracts -/

theorem follows_create (hinj : Function.Injective lib.util.hash)
    (hlengths : ∀ data, (lib.util.address data).bytes.length = lib.util.addressLength)
    (hlength : token.bytes.length = lib.util.addressLength)
    (hcode : IsToken serde trap token lib context) {call : Call}
    {sender : Option Address} (hsender : ∀ a, sender = some a → P a)
    (hapart : ∀ txHash, context.callEnv.txHash = some txHash → lib.contractAddress txHash ≠ token)
    (hmodule : call.module = "contract") (hmethod : call.method = "create")
    (hregular : ∀ config m m', lib.start? context sender call = some (config, m) →
      Machine.Steps (lib.vm config) m m' → Kept.Regular token P m')
    {params : Library.CreateParams} {rest : Bytes}
    (hparams : Library.decodeCreateParams call.params = some (params, rest)) :
    Follows serde token P lib context (lib.create context sender params) := by
  cases sender with
  | none => exact .error lib context _
  | some sender =>
      rw [Library.create]
      cases htxHash : context.callEnv.txHash with
      | none => exact .error lib context _
      | some txHash =>
          have hne := hapart txHash htxHash
          have hstore : Advances serde token P lib context
              (lib.store context sender (lib.contractAddress txHash) params.code) :=
            advances_store lib hlength (hlengths _) hne sender params.code
          have hfollows : Follows serde token P lib context (lib.innerVmExecute
              (lib.store context sender (lib.contractAddress txHash) params.code) sender
              (lib.contractAddress txHash) params.code .init params.initMethod
              params.initParams params.initPayValue) := by
            refine .trans lib (lib.sameBase_store sender _ _) hstore ?_
            refine follows_innerVmExecute lib hinj (hstore.isToken hcode) (hsender _ rfl)
              (fun heq => absurd heq hne) ?_
            intro config hconfig m hsteps
            refine hregular config _ m ?_ hsteps
            simp [Library.start?, hmodule, hmethod, hparams, htxHash, hconfig, Except.toOption]
          simp only
          generalize lib.innerVmExecute
            (lib.store context sender (lib.contractAddress txHash) params.code) sender
            (lib.contractAddress txHash) params.code .init params.initMethod
            params.initParams params.initPayValue = r at hfollows
          obtain ⟨context', result⟩ := r
          cases result with
          | error e => exact ⟨hfollows.base, by rintro _ ⟨⟩, by rintro _ ⟨⟩⟩
          | ok out =>
              exact ⟨hfollows.base, fun _ _ => hfollows.code out rfl,
                fun _ _ => hfollows.grows out rfl⟩

theorem follows_execute (hinj : Function.Injective lib.util.hash)
    (htoken : IsToken serde trap token lib context) {call : Call} {sender : Option Address}
    (hsender : ∀ a, sender = some a → P a)
    (hmodule : call.module = "contract") (hmethod : call.method = "execute")
    (hregular : ∀ config m m', lib.start? context sender call = some (config, m) →
      Machine.Steps (lib.vm config) m m' → Kept.Regular token P m')
    {params : Library.ExecuteParams} {rest : Bytes}
    (hparams : Library.decodeExecuteParams call.params = some (params, rest)) :
    Follows serde token P lib context (lib.execute context sender params) := by
  cases sender with
  | none => exact .error lib context _
  | some sender =>
      rw [Library.execute]
      cases hhash : innerGetCodeHash context params.contractAddress none with
      | error e => exact .error lib context e
      | ok hash =>
          cases hash with
          | none => exact .error lib context _
          | some hash =>
              cases hconfig : innerGetVmConfig context with
              | error e => exact .error lib context e
              | ok config =>
                  cases hcode : innerGetCode context params.contractAddress none with
                  | error e => exact .error lib context _
                  | ok code =>
                      cases code with
                      | none => exact .error lib context _
                      | some code =>
                          refine follows_innerVmExecute lib hinj htoken (hsender _ rfl)
                            (fun heq => htoken code (heq ▸ hcode)) ?_
                          intro config' hconfig' m hsteps
                          rw [hconfig] at hconfig'
                          cases hconfig'
                          refine hregular config _ m ?_ hsteps
                          simp [Library.start?, hmodule, hmethod, hparams, hhash, hconfig, hcode,
                            Except.toOption]

theorem follows_executeCall (hinj : Function.Injective lib.util.hash)
    (hlengths : ∀ data, (lib.util.address data).bytes.length = lib.util.addressLength)
    (hlength : token.bytes.length = lib.util.addressLength)
    (htoken : IsToken serde trap token lib context)
    {others : Executor.Context → Option Address → Call → Executor.Context × ModuleResult Bytes}
    {call : Call} {sender : Option Address} (hsender : ∀ a, sender = some a → P a)
    (hapart : ∀ txHash, context.callEnv.txHash = some txHash → lib.contractAddress txHash ≠ token)
    (hcall : Library.Moneyed call)
    (hregular : ∀ config m m', lib.start? context sender call = some (config, m) →
      Machine.Steps (lib.vm config) m m' → Kept.Regular token P m') :
    Follows serde token P lib context (lib.executeCall others context sender call) := by
  rcases hcall with ⟨hmodule, hmethod⟩ | ⟨hmodule, hmethod | hmethod⟩
  · simp only [Library.executeCall, hmodule, hmethod, Library.decoded]
    cases BalanceModule.decodeTransferParams call.params with
    | none => exact .error lib context _
    | some p =>
        obtain ⟨params, rest⟩ := p
        simp only
        cases htransfer : BalanceModule.transfer context sender params with
        | error e => exact .error lib context e
        | ok context' => exact follows_transfer lib htransfer
  · simp only [Library.executeCall, hmodule, hmethod, Library.decoded]
    cases hparams : Library.decodeCreateParams call.params with
    | none => exact .error lib context _
    | some p =>
        exact (follows_create lib hinj hlengths hlength htoken hsender hapart hmodule hmethod
          hregular hparams).map lib _
  · simp only [Library.executeCall, hmodule, hmethod, Library.decoded]
    cases hparams : Library.decodeExecuteParams call.params with
    | none => exact .error lib context _
    | some p =>
        exact (follows_execute lib hinj htoken hsender hmodule hmethod hregular hparams).map lib _

/-! ## Batches -/

section Batch

variable (others : Executor.Context → Option Address → Call →
    Executor.Context × ModuleResult Bytes)
  (address : PublicKey → Address)

variable (token P) in
/-- The transaction transfers native balance, or creates or executes a contract,
is signed by an account that may act, and creates no contract at the address of
the token. -/
structure Fair (tx : FullTransaction) : Prop where
  moneyed : Library.Moneyed tx.tx.call
  signer : ∀ witness, tx.tx.witness = some witness → P (address witness.publicKey)
  apart : lib.contractAddress tx.txHash ≠ token

variable (hinj : Function.Injective lib.util.hash)
  (hlengths : ∀ data, (lib.util.address data).bytes.length = lib.util.addressLength)
  (hlength : token.bytes.length = lib.util.addressLength)

include hinj hlengths hlength

theorem advances_executeTx (htoken : IsToken serde trap token lib context) {tx : FullTransaction}
    {receipt : FullReceipt}
    (hdrained : context.payloadState.txBuffer = []) (hfair : Fair token P lib address tx)
    (hregular : ∀ config m m',
      lib.start? { context with callEnv := { txHash := some tx.txHash } }
        (tx.tx.witness.map fun witness => address witness.publicKey) tx.tx.call =
          some (config, m) →
      Machine.Steps (lib.vm config) m m' → Kept.Regular token P m')
    (htx : (lib.executor others address).executeTx context tx = (context', .ok receipt)) :
    context'.payloadState.txBuffer = [] ∧ Advances serde token P lib context context' := by
  have hsender : ∀ a, (tx.tx.witness.map fun witness => address witness.publicKey) = some a →
      P a := by
    intro a ha
    obtain ⟨witness, hwitness, rfl⟩ := Option.map_eq_some_iff.1 ha
    exact hfair.signer witness hwitness
  have hapart : ∀ txHash, some tx.txHash = some txHash → lib.contractAddress txHash ≠ token := by
    rintro txHash ⟨⟩
    exact hfair.apart
  have hcode : IsToken serde trap token lib
      { context with callEnv := { txHash := some tx.txHash } } := htoken
  have hfollows : Follows serde token P lib { context with callEnv := { txHash := some tx.txHash } }
      (lib.executeCall others { context with callEnv := { txHash := some tx.txHash } }
        (tx.tx.witness.map fun witness => address witness.publicKey) tx.tx.call) :=
    follows_executeCall lib hinj hlengths hlength hcode hsender hapart hfair.moneyed hregular
  simp only [Executor.executeTx, Library.executor, Library.dispatcher] at htx
  generalize lib.executeCall others { context with callEnv := { txHash := some tx.txHash } }
    (tx.tx.witness.map fun witness => address witness.publicKey) tx.tx.call = r at hfollows htx
  obtain ⟨context₁, result⟩ := r
  cases result with
  | ok out =>
      cases htx
      have hadvances := hfollows.advances lib rfl
      refine ⟨rfl, Advances.trans ⟨hadvances.code, hadvances.grows⟩ (.of_payloadGet ?_)⟩
      exact Context.payloadGet_applyTx context₁
  | error e =>
      cases e with
      | system e => cases htx
      | application e =>
          cases htx
          refine ⟨rfl, .of_payloadGet ?_⟩
          rw [id, Context.SameBase.payloadGet_dropTx hfollows.base hdrained]
          rfl

theorem advances_executeTxs (htoken : IsToken serde trap token lib context)
    {txs : List FullTransaction} (hdrained : context.payloadState.txBuffer = [])
    (hfair : ∀ tx ∈ txs, Fair token P lib address tx)
    (hregular : ∀ vm m, lib.Visited others address context txs vm m → Kept.Regular token P m)
    (hok : (lib.executor others address).executeTxs context txs = (context', .ok ())) :
    Advances serde token P lib context context' := by
  let R (c : Executor.Context) (rest : List FullTransaction) : Prop :=
    c.payloadState.txBuffer = [] ∧ Advances serde token P lib context c ∧
      (∀ tx ∈ rest, Fair token P lib address tx) ∧
        ∀ vm m, lib.Visited others address c rest vm m → Kept.Regular token P m
  have hstart : R context txs := ⟨hdrained, .refl, hfair, hregular⟩
  have hstep : ∀ (c c' : Executor.Context) (tx : FullTransaction) (rest : List FullTransaction)
      (receipt : FullReceipt), R c (tx :: rest) →
      (lib.executor others address).executeTx c tx = (c', .ok receipt) → R c' rest := by
    rintro c c' tx rest receipt ⟨hdrained, hadvances, hfair, hregular⟩ htx
    obtain ⟨hdrained', hadvances'⟩ := advances_executeTx lib others address hinj hlengths hlength
      (hadvances.isToken htoken) hdrained (hfair tx List.mem_cons_self)
      (fun config m m' hstart hsteps => hregular _ m' (.here hstart hsteps)) htx
    exact ⟨hdrained', hadvances.trans hadvances',
      fun tx htx => hfair tx (List.mem_cons_of_mem _ htx),
      fun vm m hvisited => hregular vm m (.later htx hvisited)⟩
  obtain ⟨context₁, ⟨-, hadvances, -⟩, hget⟩ := Library.keeps_executeTxs hstep hstart hok
  exact hadvances.trans (.of_payloadGet hget)

/-- Over a batch of transfers, creations and executions of contracts, the ledger of
the token goes through allowed operations of signers and contracts, and the total
grows by what accounts send to themselves, whatever other contracts do. -/
theorem run_executeTxs (htoken : IsToken serde trap token lib context)
    {txs : List FullTransaction} (hdrained : context.payloadState.txBuffer = [])
    (hfair : ∀ tx ∈ txs, Fair token P lib address tx)
    (hregular : ∀ vm m, lib.Visited others address context txs vm m → Kept.Regular token P m)
    (hok : (lib.executor others address).executeTxs context txs = (context', .ok ())) :
    ∃ ops, (∀ op ∈ ops, P (Ledger.Op.actor op).1) ∧
      Ledger.Run (contextLedger serde lib.util token context) ops
        (contextLedger serde lib.util token context') ∧
      Ledger.total (contextLedger serde lib.util token context').balance =
        Ledger.total (contextLedger serde lib.util token context).balance +
          (ops.map Ledger.Op.minted).sum := by
  obtain ⟨ops, hactors, hrun⟩ := (advances_executeTxs lib others address hinj hlengths hlength
    htoken hdrained hfair hregular hok).grows
  exact ⟨ops, hactors, hrun, hrun.total_eq (Set.toFinite _)⟩

/-- An account that signs nothing and runs no contract loses no more than what it
has allowed those that do. -/
theorem balance_le_executeTxs (htoken : IsToken serde trap token lib context)
    {txs : List FullTransaction} (hdrained : context.payloadState.txBuffer = [])
    (hfair : ∀ tx ∈ txs, Fair token P lib address tx)
    (hregular : ∀ vm m, lib.Visited others address context txs vm m → Kept.Regular token P m)
    (hok : (lib.executor others address).executeTxs context txs = (context', .ok ()))
    {account : Holder lib.util} (haccount : ¬ P account.1) :
    ∃ spenders : Finset (Holder lib.util), (∀ i ∈ spenders, P i.1) ∧
      (contextLedger serde lib.util token context).balance account ≤
        (contextLedger serde lib.util token context').balance account +
          ∑ i ∈ spenders, (contextLedger serde lib.util token context).allowance account i := by
  obtain ⟨ops, hactors, hrun⟩ := (advances_executeTxs lib others address hinj hlengths hlength
    htoken hdrained hfair hregular hok).grows
  refine ⟨(ops.map Ledger.Op.actor).toFinset, ?_, hrun.balance_le ?_⟩
  · intro i hi
    obtain ⟨op, hop, rfl⟩ := List.mem_map.1 (List.mem_toFinset.1 hi)
    exact hactors op hop
  · rintro op hop rfl
    exact haccount (hactors op hop)

/-- From the creation of the token on, the total is the supply and what accounts
have sent to themselves. -/
theorem total_executeTxs_of_create {sender : Address}
    (hsender : sender.bytes.length = lib.util.addressLength) {params : Library.CreateParams}
    (hinit : ∀ config, lib.run config params.code Mode.init.executeFunc =
      toProcess (executeInit serde))
    (hcall : ∀ config, lib.run config params.code Mode.call.executeFunc =
      toProcess (executeCall serde trap))
    (hcode : Codec.ValidBytes params.code)
    (hempty : ∀ key, stored token lib.util context key = none)
    (hcreate : lib.create context (some sender) params = (context', .ok token))
    {txs : List FullTransaction} (hfair : ∀ tx ∈ txs, Fair token P lib address tx)
    (hregular : ∀ vm m, lib.Visited others address context'.applyTx txs vm m →
      Kept.Regular token P m)
    (hok : (lib.executor others address).executeTxs context'.applyTx txs = (context'', .ok ())) :
    ∃ ops, (∀ op ∈ ops, P (Ledger.Op.actor op).1) ∧
      Ledger.Run (contextLedger serde lib.util token context') ops
        (contextLedger serde lib.util token context'') ∧
      Ledger.total (contextLedger serde lib.util token context'').balance =
        amount serde (stored token lib.util context' (asBytes "totalSupply")) +
          (ops.map Ledger.Op.minted).sum := by
  have happlied : contextLedger serde lib.util token context'.applyTx =
      contextLedger serde lib.util token context' :=
    copyLedger_congr fun key => congrFun (Context.payloadGet_applyTx context') _
  have htoken : IsToken serde trap token lib context'.applyTx := by
    intro code hget config
    have hcreated : innerGetCode context'.applyTx token none = .ok (some params.code) :=
      (innerGetCode_eq_of_codeKeys fun key _ =>
        congrFun (Context.payloadGet_applyTx context') key).trans
          (innerGetCode_create lib hcode hcreate)
    cases hcreated.symm.trans hget
    exact hcall config
  obtain ⟨ops, hactors, hops⟩ := (advances_executeTxs lib others address hinj hlengths hlength
    htoken rfl hfair hregular hok).grows
  rw [happlied] at hops
  obtain ⟨-, -, htotal⟩ := total_create lib hinj hsender hinit hempty hcreate
  refine ⟨ops, hactors, hops, ?_⟩
  rw [hops.total_eq (Set.toFinite _), htotal]

end Batch

end Finastate.Contract.Token

/-! A token with two accounts that act, one that has allowed the first to take
some of its own, and a contract that sends tokens of its own. -/

namespace Finastate.Contract.Sample

open Executor Vm

/-- Decimal digits. -/
def digits (n : Nat) : Bytes :=
  if n = 0 then asBytes "0" else ((Nat.digits 10 n).map fun d => UInt8.ofNat (48 + d)).reverse

def digitsValue (text : Bytes) : Nat := Nat.ofDigits 10 (text.reverse.map fun b => b.toNat - 48)

theorem digitsValue_digits (n : Nat) : digitsValue (digits n) = n := by
  rw [digitsValue, digits]
  split
  · next hn =>
      rw [hn]
      decide +kernel
  · have hmap : ((Nat.digits 10 n).map fun d => UInt8.ofNat (48 + d)).map
        (fun b => b.toNat - 48) = Nat.digits 10 n := by
      rw [List.map_map]
      refine (List.map_congr_left fun d hd => ?_).trans (List.map_id _)
      have hlt : d < 10 := Nat.digits_lt_base (by decide) hd
      have hbyte : (UInt8.ofNat (48 + d)).toNat = 48 + d :=
        UInt8.toNat_ofNat_of_lt (by change _ < 256; omega)
      rw [Function.comp_apply, hbyte, id]
      omega
    rw [List.reverse_reverse, hmap, Nat.ofDigits_digits]

def quoted (s : String) : Bytes := asBytes "\"" ++ asBytes s ++ asBytes "\""

/-- A text without spaces. Strings that have to be escaped are not written here. -/
def text : Json → Bytes
  | .null => asBytes "null"
  | .number n => digits n
  | .string s => quoted s
  | .array items => [91] ++ itemsText items ++ [93]
  | .object entries => [123] ++ entriesText entries ++ [125]
  | .other => asBytes "false"
where
  itemsText : List Json → Bytes
    | [] => []
    | [item] => text item
    | item :: items => text item ++ [44] ++ itemsText items
  entriesText : List (String × Json) → Bytes
    | [] => []
    | [(name, value)] => quoted name ++ [58] ++ text value
    | (name, value) :: entries => quoted name ++ [58] ++ text value ++ [44] ++ entriesText entries

/-- Reads numbers and the texts of some values. -/
def serde (known : List Json) : SerdeJson where
  toVec json := some (text json)
  fromSlice bytes :=
    if digits (digitsValue bytes) = bytes then some (.number (digitsValue bytes))
    else known.find? fun json => text json = bytes
  fromSlice_toVec := by
    rintro n _ - ⟨⟩
    rw [text, digitsValue_digits, if_pos rfl]

/-- The parameters of `transfer`. -/
def transferParams (recipient : UInt8) (value : Nat) : Json :=
  .object [("recipient", serialize (account recipient)), ("value", serialize value)]

def transferFromParams (sender recipient : UInt8) (value : Nat) : Json :=
  .object [("sender", serialize (account sender)), ("recipient", serialize (account recipient)),
    ("value", serialize value)]

def holdersSerde : SerdeJson :=
  serde [transferParams 2 30, transferParams 9 5, transferParams 9 30, transferFromParams 7 9 15]

def unreachable : VMError := .system (.wasm "unreachable")

/-- The first contract is the token, the second one sends tokens of its own. -/
def holders : List (Bytes × Process) :=
  [([1], Sdk.toProcess (Token.executeCall holdersSerde unreachable)),
    ([2], Sdk.toProcess (discard (Sdk.Context.contractExecute (account 1) "transfer"
      (text (transferParams 9 5)) 0).run))]

/-- Both contracts are there. The account `7` has tokens and has allowed `9` to
take some. -/
def holdersContext : Context :=
  let own := moduleKey util (account 1)
  let context := (library holders).store (context []) (account 9) (account 1) [1]
  let context := (library holders).store context (account 9) (account 2) [2]
  let context := context.payloadSet (own (Token.balanceEntry (account 9))) (some (digits 100))
  let context := context.payloadSet (own (Token.balanceEntry (account 7))) (some (digits 50))
  let context := context.payloadSet (own (Token.allowanceEntry (account 7) (account 9)))
    (some (digits 20))
  context.applyTx

/-- A call of a method of a contract. -/
def executeMethod (sender hash contract : UInt8) (method : String) (params : Bytes) :
    FullTransaction :=
  transaction sender hash "contract" "execute"
    (Codec.encodeBytes [contract] ++ Codec.encodeBytes (asBytes method) ++
      Codec.encodeBytes params ++ Codec.encodeU64 0)

def holdersTxs : List FullTransaction :=
  [executeMethod 9 50 1 "transfer" (text (transferParams 2 30)), execute 9 51 2 0,
    executeMethod 9 52 1 "transfer_from" (text (transferFromParams 7 9 15))]

def actors : List Address := [account 1, account 2, account 9]

/-- The context after the batch. -/
def holdersAfter : Context :=
  (((library holders).executor others address).executeTxs holdersContext holdersTxs).1

theorem executeTxs_holders : ((library holders).executor others address).executeTxs holdersContext
    holdersTxs = (holdersAfter, .ok ()) := by
  have hok : (((library holders).executor others address).executeTxs holdersContext
      holdersTxs).2 = .ok () := by decide +kernel
  exact Prod.ext rfl hok

theorem isToken_holders :
    Token.IsToken holdersSerde unreachable (account 1) (library holders) holdersContext := by
  intro code hcode config
  have hget : innerGetCode holdersContext (account 1) none = .ok (some [1]) := by decide +kernel
  cases hget.symm.trans hcode
  rfl

theorem fair_of_forall {lib : Library} {txs : List FullTransaction}
    (h : ∀ tx ∈ txs, Library.Moneyed tx.tx.call ∧
      (∀ witness ∈ tx.tx.witness, address witness.publicKey ∈ actors) ∧
        lib.contractAddress tx.txHash ≠ account 1) :
    ∀ tx ∈ txs, Token.Fair (account 1) (· ∈ actors) lib address tx := by
  intro tx htx
  obtain ⟨hmoneyed, hsigner, hapart⟩ := h tx htx
  exact ⟨hmoneyed, hsigner, hapart⟩

theorem regular_of_alwaysTxs {lib : Library} {context : Context} {txs : List FullTransaction}
    (halways : lib.alwaysTxs others address
      (fun _ m => decide (m.Matched ∧ m.Clean ∧
        ∀ a ∈ m.world.top.contractEnv.contractAddress, a ∈ actors ∧ a.bytes.length = 1)) 100
      context txs = true) (vm : VM) (m : Machine)
    (h : lib.Visited others address context txs vm m) :
    Token.Kept.Regular (account 1) (· ∈ actors) m := by
  obtain ⟨hmatched, hclean, hruns⟩ := of_decide_eq_true (h.of_alwaysTxs _ halways)
  exact ⟨hmatched, hclean, hruns⟩

theorem fair_holdersTxs :
    ∀ tx ∈ holdersTxs, Token.Fair (account 1) (· ∈ actors) (library holders) address tx := by
  apply fair_of_forall
  unfold Library.Moneyed
  decide +kernel

theorem regular_holders : ∀ vm m,
    (library holders).Visited others address holdersContext holdersTxs vm m →
      Token.Kept.Regular (account 1) (· ∈ actors) m := by
  apply regular_of_alwaysTxs
  decide +kernel

theorem run_executeTxs_holders :
    ∃ ops, (∀ op ∈ ops, (Ledger.Op.actor op).1 ∈ actors) ∧
      Ledger.Run (Token.contextLedger holdersSerde util (account 1) holdersContext) ops
        (Token.contextLedger holdersSerde util (account 1) holdersAfter) ∧
      Ledger.total (Token.contextLedger holdersSerde util (account 1) holdersAfter).balance =
        Ledger.total (Token.contextLedger holdersSerde util (account 1) holdersContext).balance +
          (ops.map Ledger.Op.minted).sum := by
  have hinj : Function.Injective (library holders).util.hash := fun x y h => Hash.mk.inj h
  have hdrained : holdersContext.payloadState.txBuffer = [] := by decide +kernel
  exact Token.run_executeTxs (library holders) others address hinj (fun _ => rfl) rfl
    isToken_holders hdrained fair_holdersTxs regular_holders executeTxs_holders

/-- A transfer of an account to itself adds to its tokens. -/
example :
    Token.amount holdersSerde ((((library holders).executor others address).executeTxs
      holdersContext [executeMethod 9 50 1 "transfer" (text (transferParams 9 30))]).1.payloadGet
        (moduleKey util (account 1) (Token.balanceEntry (account 9)))) = 130 := by
  decide +kernel

/-- The account `7` has lost no more than what it has allowed. -/
theorem balance_le_executeTxs_holders :
    ∃ spenders : Finset (Token.Holder util), (∀ i ∈ spenders, i.1 ∈ actors) ∧
      (Token.contextLedger holdersSerde util (account 1) holdersContext).balance
          ⟨account 7, rfl⟩ ≤
        (Token.contextLedger holdersSerde util (account 1) holdersAfter).balance ⟨account 7, rfl⟩ +
          ∑ i ∈ spenders, (Token.contextLedger holdersSerde util (account 1)
            holdersContext).allowance ⟨account 7, rfl⟩ i := by
  have hinj : Function.Injective (library holders).util.hash := fun x y h => Hash.mk.inj h
  have hdrained : holdersContext.payloadState.txBuffer = [] := by decide +kernel
  have hresting : account 7 ∉ actors := by decide
  exact Token.balance_le_executeTxs (library holders) others address hinj (fun _ => rfl) rfl
    isToken_holders hdrained fair_holdersTxs regular_holders executeTxs_holders
    hresting

def initParams : Json :=
  .object [("name", serialize "Token"), ("symbol", serialize "T"),
    ("decimals", serialize (2 : UInt8)), ("total_supply", serialize 1000)]

def issuerSerde : SerdeJson := serde [initParams, transferParams 2 30]

/-- Every contract is a token. -/
def issuer : Library where
  util := util
  run _ _ func :=
    if func = Mode.init.executeFunc then Sdk.toProcess (Token.executeInit issuerSerde)
    else Sdk.toProcess (Token.executeCall issuerSerde unreachable)

def issueContext : Context := { context [] with callEnv := { txHash := some ⟨[1]⟩ } }

def issueParams : Library.CreateParams where
  code := [1]
  initMethod := "init"
  initParams := text initParams
  initPayValue := 0

theorem stored_issueContext (key : Bytes) :
    Token.stored (account 1) util issueContext key = none := by
  have hgenesis : ∀ item ∈ genesis [], ¬ dataPrefix <+: item.1 := by decide +kernel
  have hget : Token.stored (account 1) util issueContext key =
    AssocMap.get? (genesis []) (moduleKey util (account 1) key) := rfl
  rw [hget]
  cases hfound : AssocMap.get? (genesis []) (moduleKey util (account 1) key) with
  | none => rfl
  | some value =>
      exact absurd (dataKey util (account 1) key).2
        (hgenesis _ (AssocMap.mem_of_get?_eq_some hfound))

/-- The context after the creation. -/
def issuedContext : Context := (issuer.create issueContext (some (account 9)) issueParams).1

def issuerTxs : List FullTransaction :=
  [executeMethod 9 50 1 "transfer" (text (transferParams 2 30))]

/-- The context after the transfer. -/
def issuerAfter : Context :=
  ((issuer.executor others address).executeTxs issuedContext.applyTx issuerTxs).1

theorem total_executeTxs_of_create_issuer :
    ∃ ops, (∀ op ∈ ops, (Ledger.Op.actor op).1 ∈ actors) ∧
      Ledger.Run (Token.contextLedger issuerSerde util (account 1) issuedContext) ops
        (Token.contextLedger issuerSerde util (account 1) issuerAfter) ∧
      Ledger.total (Token.contextLedger issuerSerde util (account 1) issuerAfter).balance =
        1000 + (ops.map Ledger.Op.minted).sum := by
  have hinj : Function.Injective issuer.util.hash := fun x y h => Hash.mk.inj h
  have hsender : (account 9).bytes.length = issuer.util.addressLength := rfl
  have hcreate : (issuer.create issueContext (some (account 9)) issueParams).2 =
      .ok (account 1) := by
    decide +kernel
  have hok : ((issuer.executor others address).executeTxs issuedContext.applyTx
      issuerTxs).2 = .ok () := by decide +kernel
  have hfair : ∀ tx ∈ issuerTxs, Token.Fair (account 1) (· ∈ actors) issuer address tx := by
    apply fair_of_forall
    unfold Library.Moneyed
    decide +kernel
  have hregular : ∀ vm m, issuer.Visited others address issuedContext.applyTx issuerTxs vm m →
      Token.Kept.Regular (account 1) (· ∈ actors) m := by
    apply regular_of_alwaysTxs
    decide +kernel
  have hsupply : Token.amount issuerSerde (Token.stored (account 1) util issuedContext
      (asBytes "totalSupply")) = 1000 := by
    decide +kernel
  obtain ⟨ops, hactors, hrun, htotal⟩ := Token.total_executeTxs_of_create issuer others address
    hinj (fun _ => rfl) rfl hsender (fun _ => rfl) (fun _ => rfl) (by decide) stored_issueContext
    (Prod.ext rfl hcreate) hfair hregular (Prod.ext rfl hok)
  exact ⟨ops, hactors, hrun, htotal.trans (congrArg (· + _) hsupply)⟩

end Finastate.Contract.Sample
