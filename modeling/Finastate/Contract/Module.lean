import Finastate.Contract.Machine
import Finastate.Executor.Executor

/-!
# The contract module

`create` stores the code of a new contract and runs its initialisation,
`execute` runs the current code of a contract. Both run it in a fresh context
on top of the executor and apply its writes when it succeeds.
-/

namespace Finastate.Contract

open Executor Vm

/-- `vm_to_module_error`. The unwinding of a panic leaves through every
function, like a system error. -/
def vmToModuleError : VMError → ModuleError
  | .system e => .system e
  | .application e => .ofString e.toString
  | .panic => .system (.wasm "panic")

/-- A limit as the genesis has set it, or the default. -/
def limit (context : Context) (value : StorageValue (Option Nat)) (default : Nat) :
    ModuleResult Nat :=
  (value.get context).bind fun found =>
    match found with
    | none => .error (.ofString "Unexpected none")
    | some found => .ok (found.getD default)

def innerGetVmConfig (context : Context) : ModuleResult VMConfig := do
  let maxStackHeight ← limit context maxStackHeight VMConfig.default.maxStackHeight
  let initialMemoryPages ← limit context initialMemoryPages VMConfig.default.initialMemoryPages
  let maxMemoryPages ← limit context maxMemoryPages VMConfig.default.maxMemoryPages
  let maxShareValueLen ← limit context maxShareValueLen VMConfig.default.maxShareValueLen
  let maxShareSize ← limit context maxShareSize VMConfig.default.maxShareSize
  let maxNestDepth ← limit context maxNestDepth VMConfig.default.maxNestDepth
  return { maxStackHeight, initialMemoryPages, maxMemoryPages, maxShareValueLen, maxShareSize,
           maxNestDepth }

/-- What the contract module is given: the algorithms of the chain and the
WebAssembly library. -/
structure Library where
  util : Util
  run : VMConfig → Bytes → String → Process

namespace Library

variable (lib : Library)

def vm (config : VMConfig) : VM := { config, util := lib.util, run := lib.run config }

/-- The machine on which `inner_vm_execute` starts a contract. -/
def start (config : VMConfig) (context : Context) (senderAddress contractAddress : Address)
    (code : Bytes) (mode : Mode) (method : String) (params : Bytes) (payValue : Balance) :
    Machine where
  world :=
    { executor := context
      top := .new { contractAddress := some contractAddress, senderAddress := some senderAddress }
      callers := []
      nested := [] }
  state := .new method params payValue
  process := lib.run config code mode.executeFunc
  frames := []

/-- What `inner_vm_execute` does when the run is over. -/
def finish (f : Final) : Context × ModuleResult Bytes :=
  match f.result with
  | .ok _ =>
      (((f.world.drain.payloadApply f.world.top.payload).applyEvents f.world.top.events).executor,
        .ok f.state.output)
  | .error e => (f.world.drain.executor, .error (vmToModuleError e))

def innerVmExecute (context : Context) (senderAddress contractAddress : Address) (code : Bytes)
    (mode : Mode) (method : String) (params : Bytes) (payValue : Balance) :
    Context × ModuleResult Bytes :=
  match innerGetVmConfig context with
  | .error e => (context, .error e)
  | .ok config =>
      let m := lib.start config context senderAddress contractAddress code mode method params
        payValue
      finish (Contract.run (lib.vm config) config.maxNestDepth m.process m.state m.world)

structure CreateParams where
  code : Bytes
  initMethod : String
  initParams : Bytes
  initPayValue : Balance
  deriving DecidableEq, Repr

def decodeCreateParams : Codec.Decoder CreateParams := fun input => do
  let (code, rest) ← Codec.decodeBytes input
  let (initMethod, rest) ← Codec.decodeString rest
  let (initParams, rest) ← Codec.decodeBytes rest
  let (initPayValue, rest) ← Codec.decodeU64 rest
  return ({ code, initMethod, initParams, initPayValue }, rest)

structure ExecuteParams where
  contractAddress : Address
  method : String
  params : Bytes
  payValue : Balance
  deriving DecidableEq, Repr

def decodeExecuteParams : Codec.Decoder ExecuteParams := fun input => do
  let (contractAddress, rest) ← Codec.decodeAddress input
  let (method, rest) ← Codec.decodeString rest
  let (params, rest) ← Codec.decodeBytes rest
  let (payValue, rest) ← Codec.decodeU64 rest
  return ({ contractAddress, method, params, payValue }, rest)

/-- The entries `create` stores for a new contract. -/
def store (context : Context) (sender contractAddress : Address) (newCode : Bytes) : Context :=
  let context := version.set context contractAddress 1
  let context := admin.set context contractAddress
    { threshold := 1, members := [(sender, 1)] }
  let context := code.set context (contractAddress, 1) newCode
  codeHash.set context (contractAddress, 1) (lib.util.hash newCode)

/-- The address of the contract that a transaction creates. -/
def contractAddress (txHash : Hash) : Address :=
  lib.util.address (lib.util.hash txHash.bytes).bytes

def create (context : Context) (sender : Option Address) (params : CreateParams) :
    Context × ModuleResult Address :=
  match sender with
  | none => (context, .error (.application .unsigned))
  | some sender =>
      match context.callEnv.txHash with
      | none => (context, .error (.ofString "Tx hash not found"))
      | some txHash =>
          let address := lib.contractAddress txHash
          let context := lib.store context sender address params.code
          match lib.innerVmExecute context sender address params.code .init params.initMethod
              params.initParams params.initPayValue with
          | (context, .error e) => (context, .error e)
          | (context, .ok _) => (context, .ok address)

def execute (context : Context) (sender : Option Address) (params : ExecuteParams) :
    Context × ModuleResult Bytes :=
  match sender with
  | none => (context, .error (.application .unsigned))
  | some sender =>
      match innerGetCodeHash context params.contractAddress none with
      | .error e => (context, .error e)
      | .ok none => (context, .error (.ofString "Contract not found"))
      | .ok (some _) =>
          match innerGetVmConfig context, innerGetCode context params.contractAddress none with
          | .error e, _ => (context, .error e)
          | .ok _, .error e =>
              (context, .error (vmToModuleError (CallStack.moduleToVmError e)))
          | .ok _, .ok none =>
              (context, .error (vmToModuleError (.contract (.user "Contract not found"))))
          | .ok _, .ok (some code) =>
              lib.innerVmExecute context sender params.contractAddress code .call params.method
                params.params params.payValue

/-- A call is decoded before the method runs. -/
def decoded {α : Type} (decode : Codec.Decoder α) (context : Context) (params : Bytes)
    (method : α → Context × ModuleResult Bytes) : Context × ModuleResult Bytes :=
  match decode params with
  | none => (context, .error (.system (.invalidTxParams "Codec error")))
  | some (params, _) => method params

/-- `execute_call` of the balance and the contract module for the methods
modelled here; `others` stands for all other calls. -/
def executeCall (others : Context → Option Address → Call → Context × ModuleResult Bytes)
    (context : Context) (sender : Option Address) (call : Call) : Context × ModuleResult Bytes :=
  match call.module, call.method with
  | "balance", "transfer" =>
      decoded BalanceModule.decodeTransferParams context call.params fun params =>
        match BalanceModule.transfer context sender params with
        | .error e => (context, .error e)
        | .ok context => (context, .ok [])
  | "contract", "create" =>
      decoded decodeCreateParams context call.params fun params =>
        (lib.create context sender params).map id fun result =>
          result.map fun address => Codec.encodeBytes address.bytes
  | "contract", "execute" =>
      decoded decodeExecuteParams context call.params fun params =>
        (lib.execute context sender params).map id fun result => result.map Codec.encodeBytes
  | _, _ => others context sender call

def isMeta : String → Except CommonError Bool
  | "system" => .ok true
  | "balance" => .ok false
  | "poa" => .ok true
  | "raft" => .ok true
  | "hotstuff" => .ok true
  | "contract" => .ok false
  | other => .error (.invalidTxModule other)

def dispatcher (others : Context → Option Address → Call → Context × ModuleResult Bytes) :
    Dispatcher where
  isMeta := isMeta
  executeCall := fun context sender call =>
    (lib.executeCall others context sender call).map id opaqueCallResult

/-- The executor of the chain. -/
def executor (others : Context → Option Address → Call → Context × ModuleResult Bytes)
    (address : PublicKey → Address) : Executor where
  dispatcher := lib.dispatcher others
  address := address

/-- The machine that a call starts, if it gets to running a contract. -/
def start? (context : Context) (sender : Option Address) (call : Call) :
    Option (VMConfig × Machine) :=
  match call.module, call.method with
  | "contract", "create" => do
      let (params, _) ← decodeCreateParams call.params
      let sender ← sender
      let txHash ← context.callEnv.txHash
      let address := lib.contractAddress txHash
      let context := lib.store context sender address params.code
      let config ← (innerGetVmConfig context).toOption
      return (config, lib.start config context sender address params.code .init
        params.initMethod params.initParams params.initPayValue)
  | "contract", "execute" => do
      let (params, _) ← decodeExecuteParams call.params
      let sender ← sender
      let _ ← (innerGetCodeHash context params.contractAddress none).toOption.join
      let config ← (innerGetVmConfig context).toOption
      let code ← (innerGetCode context params.contractAddress none).toOption.join
      return (config, lib.start config context sender params.contractAddress code .call
        params.method params.params params.payValue)
  | _, _ => none

/-- The states of the executions of contracts that a batch of transactions
goes through, each with the virtual machine it runs on. -/
inductive Visited (others : Context → Option Address → Call → Context × ModuleResult Bytes)
    (address : PublicKey → Address) : Context → List FullTransaction → VM → Machine → Prop
  | here {context : Context} {tx : FullTransaction} {txs : List FullTransaction}
      {config : VMConfig} {m m' : Machine}
      (hstart : lib.start? { context with callEnv := { txHash := some tx.txHash } }
        (tx.tx.witness.map fun witness => address witness.publicKey) tx.tx.call =
          some (config, m))
      (hsteps : Machine.Steps (lib.vm config) m m') :
      Visited others address context (tx :: txs) (lib.vm config) m'
  | later {context context' : Context} {tx : FullTransaction} {txs : List FullTransaction}
      {receipt : FullReceipt} {vm : VM} {m : Machine}
      (htx : (lib.executor others address).executeTx context tx = (context', .ok receipt))
      (hvisited : Visited others address context' txs vm m) :
      Visited others address context (tx :: txs) vm m

/-- `P` holds of every state that a batch goes through, none of whose executions
takes `n` steps. -/
def alwaysTxs (others : Context → Option Address → Call → Context × ModuleResult Bytes)
    (address : PublicKey → Address) (P : VM → Machine → Bool) (n : Nat) :
    Context → List FullTransaction → Bool
  | _, [] => true
  | context, tx :: txs =>
      (match lib.start? { context with callEnv := { txHash := some tx.txHash } }
          (tx.tx.witness.map fun witness => address witness.publicKey) tx.tx.call with
        | none => true
        | some (config, m) => Machine.always (lib.vm config) (P (lib.vm config)) n m) &&
      match (lib.executor others address).executeTx context tx with
      | (context', .ok _) => alwaysTxs others address P n context' txs
      | (_, .error _) => true

theorem Visited.of_alwaysTxs
    {others : Context → Option Address → Call → Context × ModuleResult Bytes}
    {address : PublicKey → Address} {P : VM → Machine → Bool} {n : Nat} {context : Context}
    {txs : List FullTransaction} {vm : VM} {m : Machine}
    (hvisited : lib.Visited others address context txs vm m)
    (h : lib.alwaysTxs others address P n context txs = true) : P vm m = true := by
  induction hvisited with
  | here hstart hsteps =>
      rw [alwaysTxs, hstart, Bool.and_eq_true] at h
      exact Machine.of_always h.1 hsteps
  | later htx hvisited ih =>
      rw [alwaysTxs, htx, Bool.and_eq_true] at h
      exact ih h.2

/-- `P` holds of one of the first `n` states of one of the executions of a
batch. -/
def sometimeTxs (others : Context → Option Address → Call → Context × ModuleResult Bytes)
    (address : PublicKey → Address) (P : VM → Machine → Bool) (n : Nat) :
    Context → List FullTransaction → Bool
  | _, [] => false
  | context, tx :: txs =>
      (match lib.start? { context with callEnv := { txHash := some tx.txHash } }
          (tx.tx.witness.map fun witness => address witness.publicKey) tx.tx.call with
        | none => false
        | some (config, m) => Machine.sometime (lib.vm config) (P (lib.vm config)) n m) ||
      match (lib.executor others address).executeTx context tx with
      | (context', .ok _) => sometimeTxs others address P n context' txs
      | (_, .error _) => false

theorem exists_visited
    {others : Context → Option Address → Call → Context × ModuleResult Bytes}
    {address : PublicKey → Address} {P : VM → Machine → Bool} {n : Nat} {context : Context}
    {txs : List FullTransaction}
    (h : lib.sometimeTxs others address P n context txs = true) :
    ∃ vm m, lib.Visited others address context txs vm m ∧ P vm m = true := by
  induction txs generalizing context with
  | nil => cases h
  | cons tx txs ih =>
      rw [sometimeTxs, Bool.or_eq_true] at h
      rcases h with h | h
      · cases hstart : lib.start? { context with callEnv := { txHash := some tx.txHash } }
            (tx.tx.witness.map fun witness => address witness.publicKey) tx.tx.call with
        | none =>
            rw [hstart] at h
            cases h
        | some p =>
            rw [hstart] at h
            obtain ⟨m', hsteps, hm'⟩ := Machine.of_sometime h
            exact ⟨_, m', .here hstart hsteps, hm'⟩
      · cases htx : (lib.executor others address).executeTx context tx with
        | mk context' result =>
            rw [htx] at h
            cases result with
            | error e => cases h
            | ok receipt =>
                obtain ⟨vm, m, hvisited, hm⟩ := ih h
                exact ⟨vm, m, .later htx hvisited, hm⟩

theorem wf_start (config : VMConfig) (context : Context)
    (senderAddress contractAddress : Address) (code : Bytes) (mode : Mode) (method : String)
    (params : Bytes) (payValue : Balance) :
    Machine.WF (lib.vm config) (lib.start config context senderAddress contractAddress code mode
      method params payValue) := by
  refine ⟨⟨VMContext.idle_new _, nofun, nofun⟩, rfl, ?_⟩
  simp [start]

/-- A machine that a call starts stands at the start of a contract. -/
theorem start?_eq_some {context : Context} {sender : Option Address} {call : Call}
    {config : VMConfig} {m : Machine} (h : lib.start? context sender call = some (config, m)) :
    ∃ context' senderAddress contractAddress code mode method params payValue,
      m = lib.start config context' senderAddress contractAddress code mode method params
        payValue := by
  unfold start? at h
  split at h
  · simp only [Option.bind_eq_bind, Option.bind_eq_some_iff] at h
    obtain ⟨params, -, sender, -, txHash, -, config', -, h⟩ := h
    cases h
    exact ⟨_, _, _, _, _, _, _, _, rfl⟩
  · simp only [Option.bind_eq_bind, Option.bind_eq_some_iff] at h
    obtain ⟨params, -, sender, -, hash, -, config', -, code, -, h⟩ := h
    cases h
    exact ⟨_, _, _, _, _, _, _, _, rfl⟩
  · cases h

/-- What holds at the start of every contract and is kept by every step holds
of every state that a batch goes through, as long as the steps come from states
that meet the condition `C`. -/
theorem Visited.invariant
    {others : Context → Option Address → Call → Context × ModuleResult Bytes}
    {address : PublicKey → Address} {context : Context} {txs : List FullTransaction}
    {C P : VM → Machine → Prop}
    (hcondition : ∀ vm m, lib.Visited others address context txs vm m → C vm m)
    (hstart : ∀ config context senderAddress contractAddress code mode method params payValue,
      P (lib.vm config) (lib.start config context senderAddress contractAddress code mode method
        params payValue))
    (hstep : ∀ config m m', C (lib.vm config) m → P (lib.vm config) m →
      Machine.Step (lib.vm config) m m' → P (lib.vm config) m')
    {vm : VM} {m : Machine} (hvisited : lib.Visited others address context txs vm m) :
    P vm m := by
  induction hvisited with
  | here hstart? hsteps =>
      obtain ⟨_, _, _, _, _, _, _, _, rfl⟩ := lib.start?_eq_some hstart?
      induction hsteps with
      | refl => exact hstart _ _ _ _ _ _ _ _ _
      | tail hsteps hlast ih =>
          exact hstep _ _ _ (hcondition _ _ (.here hstart? hsteps)) ih hlast
  | later htx hvisited ih =>
      exact ih fun vm m h => hcondition vm m (.later htx h)

/-- `inner_vm_execute` runs the machine from its start to its end. -/
theorem innerVmExecute_eq_finish {config : VMConfig} {context : Context}
    (hconfig : innerGetVmConfig context = .ok config) (senderAddress contractAddress : Address)
    (code : Bytes) (mode : Mode) (method : String) (params : Bytes) (payValue : Balance) :
    ∃ f, Machine.Steps (lib.vm config)
        (lib.start config context senderAddress contractAddress code mode method params payValue)
        (Machine.ended f []) ∧
      lib.innerVmExecute context senderAddress contractAddress code mode method params payValue =
        finish f := by
  refine ⟨_, Machine.run_steps config.maxNestDepth _ _ _ [] (lib.wf_start config context
    senderAddress contractAddress code mode method params payValue) ?_, ?_⟩
  · simp only [vm]
    omega
  · rw [innerVmExecute, hconfig]
    rfl

end Library

/-! A small chain to run contracts on: addresses are single bytes, the hash of
a text is the text, and a contract is created at the first byte of the hash of
the transaction. -/

namespace Sample

def account (n : UInt8) : Address := ⟨[n]⟩

def util : Util where
  hash := fun data => ⟨data⟩
  address := fun data => ⟨[data.headD 0]⟩
  addressLength := 1

/-- Contracts by their code. They do nothing when they are created. -/
def library (contracts : List (Bytes × Process)) : Library where
  util := util
  run := fun _ code func =>
    if func = Mode.call.executeFunc then
      (AssocMap.get? contracts code).getD (.done (.ok ()))
    else .done (.ok ())

def others : Context → Option Address → Call → Context × ModuleResult Bytes :=
  fun context _ call => (context, .error (.system (.invalidTxMethod call.method)))

def address (publicKey : PublicKey) : Address := ⟨publicKey.bytes⟩

/-- The genesis state: default limits and some balances. -/
def genesis (balances : List (UInt8 × Nat)) : List (DBKey × DBValue) :=
  [maxStackHeight, initialMemoryPages, maxMemoryPages, maxShareValueLen, maxShareSize,
    maxNestDepth].map (fun limit => (limit.key, limit.encode none)) ++
  balances.map fun (n, balance) =>
    (BalanceModule.balance.key (account n), BalanceModule.balance.encode balance)

def context (balances : List (UInt8 × Nat)) : Context :=
  .new { number := 1, timestamp := 0 } [] (genesis balances)

/-- A transaction of the account `sender` with the hash `hash`. -/
def transaction (sender hash : UInt8) (module method : String) (params : Bytes) :
    FullTransaction where
  tx :=
    { witness := some
        { publicKey := ⟨[sender]⟩, signature := ⟨[]⟩, nonce := 0, untilNumber := 10 }
      call := { module, method, params } }
  txHash := ⟨[hash]⟩

def transfer (sender hash recipient : UInt8) (value : Nat) : FullTransaction :=
  transaction sender hash "balance" "transfer"
    (Codec.encodeBytes [recipient] ++ Codec.encodeU64 value)

/-- The contract gets the address `contract`. -/
def create (sender contract : UInt8) (code : Bytes) : FullTransaction :=
  transaction sender contract "contract" "create"
    (Codec.encodeBytes code ++ Codec.encodeBytes (asBytes "init") ++ Codec.encodeBytes [] ++
      Codec.encodeU64 0)

def execute (sender hash contract : UInt8) (payValue : Nat) : FullTransaction :=
  transaction sender hash "contract" "execute"
    (Codec.encodeBytes [contract] ++ Codec.encodeBytes (asBytes "call") ++
      Codec.encodeBytes [] ++ Codec.encodeU64 payValue)

/-- A nested call of a contract, error aware or not. -/
def nested (contract : UInt8) (payValue : Nat) (errorShareId : Option Nat) : NestedCall where
  contractAddress := account contract
  method := asBytes "call"
  params := []
  payValue := payValue
  shareId := 0
  errorShareId := errorShareId

/-- The host calls of a list one after another, whatever they answer. -/
def sequence (calls : List (HostCall ⊕ NestedCall)) : Process :=
  calls.foldr
    (fun call process =>
      match call with
      | .inl c => .call c fun _ => process
      | .inr c => .execute c fun _ => process)
    (.done (.ok ()))

end Sample

end Finastate.Contract
