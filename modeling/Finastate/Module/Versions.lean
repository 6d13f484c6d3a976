import Finastate.Module.Governed

/-!
# The versions of contracts

A new contract has version 1, and every code proposal that passes adds a
version. So the codes of a contract are a list that only grows, and version `k`
is its entry before `k`. `Holds` says of the storage that it is this list, with
the hash beside each code and the version as its length. A course is a run with
the codes of all contracts. The storage agrees with them as long as no contract
is created where one is already and the version is not the last of its type
when a proposal passes.
-/

namespace Finastate.Governance

open Executor
open Contract (Admin Library)

/-- The codes of every contract, the first version first. -/
abbrev Codes : Type := Address → List Bytes

/-- The codes with the one that has passed for a contract. -/
def Codes.add (codes : Codes) : Option (Address × Bytes) → Codes
  | some (a, code) => Function.update codes a (codes a ++ [code])
  | none => codes

namespace Invocation

/-- The code for which this vote brings enough weight. -/
def passedCode (c : Context) (sender : Option Address) (a : Address) (value : Bytes)
    (vote : List Address) : Option Bytes :=
  match sender, Contract.admin.get c a with
  | some x, .ok (some admin) =>
      if admin.threshold ≤ tally admin.members (Ballot.addVote vote x) then some value else none
  | _, _ => none

/-- The contract and the code of the code proposal that passes with a call. -/
def passes (c : Context) (sender : Option Address) : Invocation → Option (Address × Bytes)
  | .propose (.contract .code a) value =>
      (passedCode c sender a value []).map fun code => (a, code)
  | .vote (.contract .code a) _ =>
      match Contract.updateCodeProposal.get c a with
      | .ok (some p) => (passedCode c sender a p.value p.vote).map fun code => (a, code)
      | _ => none
  | _ => none

/-- The codes after a call that succeeds. -/
def addCodes (lib : Library) (c : Context) (sender : Option Address) (codes : Codes)
    (call : Invocation) : Codes :=
  match call with
  | .create params =>
      match c.callEnv.txHash with
      | some txHash => Function.update codes (lib.contractAddress txHash) [params.code]
      | none => codes
  | call => codes.add (call.passes c sender)

/-- The code of a call is one that can be encoded. -/
def Encodable : Invocation → Prop
  | .create params => Codec.ValidBytes params.code
  | .propose (.contract .code _) value => Codec.ValidBytes value
  | _ => True

/-- A new contract gets an address of its own. -/
def Fresh (lib : Library) (c : Context) : Invocation → Prop
  | .create _ => ∀ txHash, c.callEnv.txHash = some txHash →
      Contract.version.get c (lib.contractAddress txHash) = .ok none
  | _ => True

/-- There is a next version for the code that passes. -/
def Roomy (c : Context) (sender : Option Address) (call : Invocation) : Prop :=
  ∀ a code, call.passes c sender = some (a, code) →
    Contract.version.get c a ≠ .ok (some (2 ^ 32 - 1))

end Invocation

/-- The runs all of whose calls satisfy `P`, with the codes of the contracts. -/
inductive Course (lib : Library) (P : History → Option Address → Invocation → Prop) :
    History → Codes → Prop
  | start (env : ContextEnv) : Course lib P (.start env) fun _ => []
  | resume {h : History} {codes : Codes} {c' : Context} (hcourse : Course lib P h codes)
      (hdata : SameData lib.util h.context c') : Course lib P { h with context := c' } codes
  | call {h : History} {codes : Codes} {sender : Option Address} {call : Invocation} {c' : Context}
      (hcourse : Course lib P h codes) (hcall : P h sender call)
      (hexec : call.exec lib h.context sender = .ok c') :
      Course lib P ⟨c', h.record lib.util sender call⟩
        (call.addCodes lib h.context sender codes)

/-! ## The storage of one contract -/

/-- What is stored of a contract are these codes and their hashes. -/
structure Holds (util : Util) (c : Context) (a : Address) (codes : List Bytes) : Prop where
  version : Contract.version.get c a = .ok (if codes = [] then none else some codes.length)
  stored : ∀ k code, codes[k]? = some code →
    Contract.code.get c (a, k + 1) = .ok (some code) ∧
      Contract.codeHash.get c (a, k + 1) = .ok (some (util.hash code))

namespace Holds

open Keys ContractOffice

variable {util : Util} {c c' : Context} {a : Address} {codes : List Bytes}

theorem congr (h : Holds util c a codes)
    (hget : ∀ key ∈ codeKeys a, c'.payloadGet key = c.payloadGet key) :
    Holds util c' a codes := by
  constructor
  · exact (contextGet_congr (hget _ (Or.inl rfl))).trans h.version
  · intro k code hk
    obtain ⟨hcode, hhash⟩ := h.stored k code hk
    exact ⟨(contextGet_congr (hget _ (Or.inr ⟨k + 1, Or.inl rfl⟩))).trans hcode,
      (contextGet_congr (hget _ (Or.inr ⟨k + 1, Or.inr rfl⟩))).trans hhash⟩

theorem version_of_ne_nil (h : Holds util c a codes) (hne : codes ≠ []) :
    Contract.version.get c a = .ok (some codes.length) := by
  rw [h.version, if_neg hne]

theorem eq_nil_iff (h : Holds util c a codes) :
    codes = [] ↔ Contract.version.get c a = .ok none := by
  rw [h.version]
  constructor
  · intro hnil
    rw [if_pos hnil]
  · intro hnone
    by_contra hne
    rw [if_neg hne] at hnone
    cases hnone

/-- The current code is the last one. -/
theorem innerGetCode_eq (h : Holds util c a codes) :
    Contract.innerGetCode c a none = .ok codes.getLast? := by
  rw [Contract.innerGetCode, Contract.innerGetVersion, h.version]
  by_cases hnil : codes = []
  · rw [if_pos hnil, hnil]
    rfl
  · rw [if_neg hnil]
    obtain ⟨n, hn⟩ := Nat.exists_eq_succ_of_ne_zero (mt List.length_eq_zero_iff.1 hnil)
    have hlast : codes[n]? = some (codes.getLast hnil) := by
      rw [← List.getLast?_eq_some_getLast hnil, List.getLast?_eq_getElem?, hn]
      rfl
    rw [List.getLast?_eq_some_getLast hnil, hn]
    exact (h.stored n _ hlast).1

theorem innerGetCodeHash_eq (h : Holds util c a codes) :
    Contract.innerGetCodeHash c a none = .ok (codes.getLast?.map util.hash) := by
  rw [Contract.innerGetCodeHash, Contract.innerGetVersion, h.version]
  by_cases hnil : codes = []
  · rw [if_pos hnil, hnil]
    rfl
  · rw [if_neg hnil]
    obtain ⟨n, hn⟩ := Nat.exists_eq_succ_of_ne_zero (mt List.length_eq_zero_iff.1 hnil)
    have hlast : codes[n]? = some (codes.getLast hnil) := by
      rw [← List.getLast?_eq_some_getLast hnil, List.getLast?_eq_getElem?, hn]
      rfl
    rw [List.getLast?_eq_some_getLast hnil, hn]
    exact (h.stored n _ hlast).2

/-- Entries of different versions have different keys. -/
theorem key_ne (ha : a.bytes.length = util.addressLength) {v v' : Nat} (hv : v < 2 ^ 32)
    (hv' : v' < 2 ^ 32) (hne : v ≠ v') (f f' : CodeField) : f.key (a, v) ≠ f'.key (a, v') := by
  intro hkey
  have hwell : (Place.versioned f a v).WellFormed util := ⟨ha, hv⟩
  have hwell' : (Place.versioned f' a v').WellFormed util := ⟨ha, hv'⟩
  exact hne (Place.versioned.inj (Place.eq_of_key (by rintro ⟨⟩) hwell hwell' hkey)).2.2

/-- A code is stored as the next version. -/
theorem append {n : Nat} {code : Bytes} (hn : n = codes.length + 1)
    (hversion : Contract.version.get c a = .ok (some n))
    (hstored : ∀ k old, codes[k]? = some old →
      Contract.code.get c (a, k + 1) = .ok (some old) ∧
        Contract.codeHash.get c (a, k + 1) = .ok (some (util.hash old)))
    (ha : a.bytes.length = util.addressLength) (hlt : n < 2 ^ 32)
    (hcode : Codec.ValidBytes code) (hhash : Codec.ValidBytes (util.hash code).bytes) :
    Holds util (Contract.codeHash.set (Contract.code.set c (a, n) code) (a, n) (util.hash code)) a
      (codes ++ [code]) := by
  have hversions := Place.contract_ne_versioned .version
  have hkey := StorageMap.key_entry (V := Bytes) Contract.code
  have hkey' := StorageMap.key_entry (V := Hash) Contract.codeHash
  rw [← StorageMap.set_entry, ← StorageMap.set_entry]
  constructor
  · rw [← StorageMap.get_entry, StorageValue.get_set_of_ne, StorageValue.get_set_of_ne,
      StorageMap.get_entry, hversion, if_neg (List.concat_ne_nil code codes),
      List.length_append, List.length_singleton, hn]
    · rw [hkey, StorageMap.key_entry]
      exact hversions .code a (a, n)
    · rw [hkey', StorageMap.key_entry]
      exact hversions .codeHash a (a, n)
  · intro k old hk
    rw [← StorageMap.get_entry, ← StorageMap.get_entry]
    rcases Nat.lt_or_ge k codes.length with hlower | hupper
    · rw [List.getElem?_append_left hlower] at hk
      obtain ⟨hcodeGet, hhashGet⟩ := hstored k old hk
      have hapart := key_ne ha (show k + 1 < 2 ^ 32 by omega) hlt (by omega)
      rw [StorageValue.get_set_of_ne, StorageValue.get_set_of_ne, StorageValue.get_set_of_ne,
        StorageValue.get_set_of_ne, StorageMap.get_entry, StorageMap.get_entry]
      · exact ⟨hcodeGet, hhashGet⟩
      · rw [hkey, hkey']
        exact hapart .codeHash .code
      · rw [hkey', hkey']
        exact hapart .codeHash .codeHash
      · rw [hkey, hkey]
        exact hapart .code .code
      · rw [hkey, hkey']
        exact hapart .code .codeHash
    · obtain ⟨hshort, hget⟩ := List.getElem?_eq_some_iff.1 hk
      rw [List.length_append, List.length_singleton] at hshort
      obtain rfl := Nat.le_antisymm (Nat.le_of_lt_succ hshort) hupper
      rw [List.getElem_concat_length rfl] at hget
      subst hget
      rw [← hn]
      have hround : Codec.RoundTrip (Contract.codeHash.entry (a, n)).encode
          (Contract.codeHash.entry (a, n)).decode
          fun hash => Codec.ValidBytes hash.bytes := Codec.roundTrip_hash
      constructor
      · rw [StorageValue.get_set_of_ne, StorageValue.get_set Codec.roundTrip_bytes hcode]
        rw [hkey, hkey']
        exact Place.code_key_ne_codeHash a n
      · exact StorageValue.get_set hround hhash _

/-- A version is of type `u32`. -/
theorem version_lt {v : Nat} (h : Contract.version.get c a = .ok (some v)) : v < 2 ^ 32 := by
  rw [StorageMap.get, contextGet] at h
  split at h
  case h_1 value hvalue =>
    split at h
    case h_1 n rest hdecode =>
      cases h
      exact Codec.decodeLe_lt hdecode
    case h_2 => cases h
  case h_2 => cases h

/-- A passed code is the next version. -/
theorem pass (h : Holds util c a codes) (ha : a.bytes.length = util.addressLength)
    (hhash : ∀ data, Codec.ValidBytes (util.hash data).bytes) {p : Proposal Bytes}
    (hvalue : Codec.ValidBytes p.value)
    (hroom : Contract.version.get c a ≠ .ok (some (2 ^ 32 - 1)))
    (hpass : Contract.passCode util a c p = .ok c') : Holds util c' a (codes ++ [p.value]) := by
  obtain ⟨v, hv, rfl⟩ := passCode_eq_ok a hpass
  have hne : codes ≠ [] := by
    rintro hnil
    rw [h.eq_nil_iff.1 hnil] at hv
    cases hv
  obtain rfl : codes.length = v := by
    rw [h.version_of_ne_nil hne] at hv
    cases hv
    rfl
  have hlast : codes.length ≠ 2 ^ 32 - 1 := fun heq => hroom (heq ▸ hv)
  have hlt : codes.length + 1 < 2 ^ 32 := by
    have := version_lt hv
    omega
  rw [wrapAdd_of_lt hlt]
  have hkey := StorageMap.key_entry (V := Nat) Contract.version a
  rw [← StorageMap.set_entry Contract.version]
  apply append rfl _ _ ha hlt hvalue (hhash p.value)
  · rw [← StorageMap.get_entry]
    have hvalid : Codec.U32 (codes.length + 1) := hlt
    exact StorageValue.get_set Codec.roundTrip_u32 hvalid c
  · intro k old hk
    have hversions := Place.contract_ne_versioned .version
    obtain ⟨hcode, hcodeHash⟩ := h.stored k old hk
    rw [← StorageMap.get_entry, ← StorageMap.get_entry, StorageValue.get_set_of_ne,
      StorageValue.get_set_of_ne, StorageMap.get_entry, StorageMap.get_entry]
    · exact ⟨hcode, hcodeHash⟩
    · rw [hkey, StorageMap.key_entry]
      exact (hversions .codeHash a (a, k + 1)).symm
    · rw [hkey, StorageMap.key_entry]
      exact (hversions .code a (a, k + 1)).symm

/-- A vote adds the proposed code or leaves the versions. -/
theorem voted (h : Holds util c a codes) (ha : a.bytes.length = util.addressLength)
    (hhash : ∀ data, Codec.ValidBytes (util.hash data).bytes) {p : Proposal Bytes}
    (hvalue : Codec.ValidBytes p.value) {passes : Prop}
    (hroom : passes → Contract.version.get c a ≠ .ok (some (2 ^ 32 - 1)))
    (hvoted : (Contract.codeKind util a).Voted (Contract.passCode util a) c p passes c') :
    (passes → Holds util c' a (codes ++ [p.value])) ∧ (¬ passes → Holds util c' a codes) := by
  have hkeys : ∀ key ∈ codeKeys a,
      key ∉ ({(Contract.codeKind util a).proposal.key, (Contract.codeKind util a).proposalId.key} :
        Set DBKey) := by
    rintro key hkey (rfl | rfl)
    · exact (sound_code a util).proposal_apart.2.2 hkey
    · exact (sound_code a util).id_apart.2.2 hkey
  have hemit : ∀ {c : Context} {codes : List Bytes} (what : String), Holds util c a codes →
      Holds util ((Contract.codeKind util a).emit c what p) a codes :=
    fun what h => h.congr fun _ _ => rfl
  cases hvoted with
  | @passed c₁ hpasses hpass =>
      have hholds := (hemit "Voted" h).pass ha hhash hvalue (hroom hpasses) hpass
      have htouched := Seat.touched_dropped (Contract.codeKind util a)
        ((Contract.codeKind util a).emit c₁ "Passed" p) (wrapAdd 32 p.proposalId 1)
      refine ⟨fun _ => ?_, fun hnot => absurd hpasses hnot⟩
      exact (hemit "Passed" hholds).congr fun key hkey => htouched.payloadGet_eq (hkeys key hkey)
  | recorded hnot =>
      have htouched := Seat.touched_recorded (Contract.codeKind util a)
        ((Contract.codeKind util a).emit c "Voted" p) p (wrapAdd 32 p.proposalId 1)
      refine ⟨fun hpasses => absurd hpasses hnot, fun _ => ?_⟩
      exact (hemit "Voted" h).congr fun key hkey => htouched.payloadGet_eq (hkeys key hkey)

end Holds

/-! ## The storage of all contracts -/

/-- Every contract has these codes, and there is none at an address without codes
or of another length. -/
structure Agrees (util : Util) (codes : Codes) (c : Context) : Prop where
  holds : ∀ a, Holds util c a (codes a)
  nobody : ∀ a, codes a = [] → Contract.admin.get c a = .ok none
  proper : ∀ a, codes a ≠ [] → a.bytes.length = util.addressLength

namespace Agrees

open Keys ContractOffice

variable {lib : Library} {util : Util} {codes codes' : Codes} {c c' : Context} {a : Address}
  {sender : Option Address}

theorem start (util : Util) (env : ContextEnv) : Agrees util (fun _ => []) (.new env [] []) where
  holds := fun a => ⟨rfl, fun k code hk => by cases hk⟩
  nobody := fun _ _ => rfl
  proper := fun _ hne => absurd rfl hne

theorem congr (h : Agrees util codes c)
    (hget : ∀ a, ∀ key ∈ entryKeys a, c'.payloadGet key = c.payloadGet key) :
    Agrees util codes c' := by
  refine ⟨fun a => ?_, fun a hnil => ?_, h.proper⟩
  · exact (h.holds a).congr fun key hkey => hget a key (mem_entryKeys_of_codeKeys hkey)
  · exact (contextGet_congr (hget a _ (Or.inl ⟨.admin, rfl⟩))).trans (h.nobody a hnil)

/-- What running contracts write is of no concern. -/
theorem touched_vmKeys (h : Agrees util codes c)
    (htouched : Touched (Contract.vmKeys util) c c') : Agrees util codes c' :=
  h.congr fun _ _ hkey => htouched.payloadGet_eq (entryKeys_notMem_vmKeys hkey)

theorem of_meta {c c' : MetaContext} {keys : Set DBKey} (h : Agrees util codes c)
    (htouched : Touched keys c c') : Agrees util codes c' :=
  h.congr fun _ key _ => congrArg (fun s => ContextState.get s key) htouched.payloadState_eq

/-- Only members of an admin have a say, and so the contract is there. -/
theorem proper_of_admin (h : Agrees util codes c) {admin : Admin}
    (hadmin : Contract.admin.get c a = .ok (some admin)) :
    codes a ≠ [] ∧ a.bytes.length = util.addressLength := by
  have hne : codes a ≠ [] := by
    intro hnil
    rw [h.nobody a hnil] at hadmin
    cases hadmin
  exact ⟨hne, h.proper a hne⟩

/-- A call writes entries of one contract. -/
theorem written (h : Agrees util codes c) {keys : Set DBKey}
    (ha : a.bytes.length = util.addressLength) (htouched : Touched keys c c')
    (hkeys : keys ⊆ entryKeys a) (hother : ∀ a', a' ≠ a → codes' a' = codes a')
    (hne : codes' a ≠ []) (hholds : Holds util c' a (codes' a)) : Agrees util codes' c' := by
  constructor
  case holds =>
    intro a'
    by_cases heq : a' = a
    · exact heq ▸ hholds
    · rw [hother a' heq]
      by_cases hnil : codes a' = []
      · have hversion := (h.holds a').eq_nil_iff.1 hnil
        refine ⟨?_, fun k code hk => by rw [hnil] at hk; cases hk⟩
        rw [if_pos hnil, ← hversion]
        exact contextGet_congr (htouched.payloadGet_eq fun hmem =>
          version_notMem_entryKeys heq (hkeys hmem))
      · refine (h.holds a').congr fun key hkey => htouched.payloadGet_eq fun hmem => ?_
        exact entryKeys_disjoint (h.proper a' hnil) ha heq (mem_entryKeys_of_codeKeys hkey)
          (hkeys hmem)
  case nobody =>
    intro a' hnil
    have heq : a' ≠ a := fun heq => hne (heq ▸ hnil)
    rw [hother a' heq] at hnil
    exact (contextGet_congr (htouched.payloadGet_eq fun hmem =>
      admin_notMem_entryKeys heq (hkeys hmem))).trans (h.nobody a' hnil)
  case proper =>
    intro a' hne'
    by_cases heq : a' = a
    · exact heq ▸ ha
    · exact h.proper a' (hother a' heq ▸ hne')

/-- The codes after a new contract has been stored. -/
theorem store (h : Agrees lib.util codes c) (ha : a.bytes.length = lib.util.addressLength)
    (hhash : ∀ data, Codec.ValidBytes (lib.util.hash data).bytes) (sender : Address)
    {newCode : Bytes} (hcode : Codec.ValidBytes newCode) :
    Agrees lib.util (Function.update codes a [newCode]) (lib.store c sender a newCode) := by
  have hone : Codec.U32 1 := Nat.one_lt_two_pow (by decide)
  have hversion : Contract.version.get (Contract.admin.set (Contract.version.set c a 1) a
      { threshold := 1, members := [(sender, 1)] }) a = .ok (some 1) := by
    rw [← StorageMap.get_entry, ← StorageMap.set_entry, ← StorageMap.set_entry,
      StorageValue.get_set_of_ne]
    · exact StorageValue.get_set Codec.roundTrip_u32 hone c
    · rw [StorageMap.key_entry, StorageMap.key_entry]
      exact Place.contract_key_ne (show ContractField.version ≠ .admin by decide) a
  have hholds : Holds lib.util (lib.store c sender a newCode) a ([] ++ [newCode]) :=
    Holds.append rfl hversion (fun k old hk => by cases hk) ha hone hcode (hhash newCode)
  apply h.written ha (touched_store lib c a sender newCode) (stored_subset_entryKeys a)
  · exact fun a' hne => Function.update_of_ne hne _ _
  · rw [Function.update_self]
    exact List.cons_ne_nil newCode []
  · rw [Function.update_self]
    exact hholds

/-- A vote on the admin is none on the code. -/
theorem adminVoted (h : Agrees util codes c) {admin : Admin}
    (hadmin : Contract.admin.get c a = .ok (some admin))
    (htouched : Touched (ContractOffice.written util a .admin) c c') : Agrees util codes c' := by
  obtain ⟨hne, ha⟩ := h.proper_of_admin hadmin
  apply h.written ha htouched (fun _ => mem_entryKeys_of_written util _) (fun _ _ => rfl) hne
  refine (h.holds a).congr fun key hkey => htouched.payloadGet_eq ?_
  exact reads_notMem_written (show ContractOffice.admin ≠ .code by decide) hkey

/-- The codes after a vote on the code. -/
theorem codeVoted (h : Agrees util codes c)
    (hhash : ∀ data, Codec.ValidBytes (util.hash data).bytes) {admin : Admin}
    (hadmin : Contract.admin.get c a = .ok (some admin)) {p : Proposal Bytes}
    (hvalue : Codec.ValidBytes p.value) {passes : Prop} [Decidable passes]
    {passed : Option (Address × Bytes)} (hpassed : passed = if passes then some (a, p.value) else none)
    (hroom : ∀ code, passed = some (a, code) → Contract.version.get c a ≠ .ok (some (2 ^ 32 - 1)))
    (hvoted : (Contract.codeKind util a).Voted (Contract.passCode util a) c p passes c') :
    Agrees util (codes.add passed) c' := by
  obtain ⟨hne, ha⟩ := h.proper_of_admin hadmin
  have htouched := (sound_code a util).touched hvoted
  have hkeys : ContractOffice.written util a .code ⊆ entryKeys a :=
    fun _ => mem_entryKeys_of_written util _
  have hholds := (h.holds a).voted ha hhash hvalue
    (fun hpasses => hroom p.value (hpassed.trans (if_pos hpasses))) hvoted
  by_cases hpasses : passes
  · rw [hpassed, if_pos hpasses]
    apply h.written ha htouched hkeys
    · exact fun a' hne => Function.update_of_ne hne _ _
    · rw [Codes.add, Function.update_self]
      exact List.concat_ne_nil p.value (codes a)
    · rw [Codes.add, Function.update_self]
      exact hholds.1 hpasses
  · rw [hpassed, if_neg hpasses]
    exact h.written ha htouched hkeys (fun _ _ => rfl) hne (hholds.2 hpasses)

end Agrees

namespace Invocation

variable {lib : Library} {codes : Codes} {c : Context} {a x : Address} {admin : Admin}

theorem passedCode_eq (hadmin : Contract.admin.get c a = .ok (some admin)) (value : Bytes)
    (vote : List Address) : passedCode c (some x) a value vote =
      if admin.threshold ≤ tally admin.members (Ballot.addVote vote x) then some value else none := by
  rw [passedCode]
  simp only [hadmin]

/-- The code that passes with a new proposal. -/
theorem passes_propose (hadmin : Contract.admin.get c a = .ok (some admin)) (value : Bytes) :
    (propose (.contract .code a) value).passes c (some x) =
      if admin.threshold ≤ tally admin.members [x] then some (a, value) else none := by
  have hvote : Ballot.addVote [] x = [x] := rfl
  rw [passes, passedCode_eq hadmin, hvote, apply_ite (Option.map _)]
  rfl

/-- The code that passes with a vote. -/
theorem passes_vote (hadmin : Contract.admin.get c a = .ok (some admin)) {p : Proposal Bytes}
    (hp : Contract.updateCodeProposal.get c a = .ok (some p)) (id : Nat) :
    (vote (.contract .code a) id).passes c (some x) =
      if admin.threshold ≤ tally admin.members (Kind.voted p x).vote then some (a, p.value)
      else none := by
  rw [passes]
  simp only [hp]
  rw [passedCode_eq hadmin, apply_ite (Option.map _)]
  rfl

end Invocation

/-- What is pending for the code of a contract can be written again. -/
theorem validBytes_of_pending {c : Context} {a : Address} {p : Proposal Bytes}
    (h : Contract.updateCodeProposal.get c a = .ok (some p)) : Codec.ValidBytes p.value := by
  rw [StorageMap.get, contextGet] at h
  split at h
  case h_1 value hvalue =>
    split at h
    case h_1 decoded rest hdecode =>
      cases h
      obtain ⟨⟨id, rest₁⟩, hid, hdecode⟩ := Option.bind_eq_some_iff.1 hdecode
      obtain ⟨⟨code, rest₂⟩, hcode, hdecode⟩ := Option.bind_eq_some_iff.1 hdecode
      obtain ⟨⟨votes, rest₃⟩, hvotes, hdecode⟩ := Option.bind_eq_some_iff.1 hdecode
      cases hdecode
      exact Codec.validBytes_of_decodeBytes hcode
    case h_2 => cases h
  case h_2 => cases h

/-- A call that succeeds leaves every contract with its codes. -/
theorem Agrees.call {lib : Library} {codes : Codes} {c c' : Context} {sender : Option Address}
    (hlength : ∀ data, (lib.util.address data).bytes.length = lib.util.addressLength)
    (hhash : ∀ data, Codec.ValidBytes (lib.util.hash data).bytes) (h : Agrees lib.util codes c)
    {call : Invocation} (hencodable : call.Encodable) (hroomy : call.Roomy c sender)
    (hexec : call.exec lib c sender = .ok c') :
    Agrees lib.util (call.addCodes lib c sender codes) c' := by
  cases call with
  | hotstuffInit params => exact h.of_meta (HotstuffModule.touched_init hexec)
  | raftInit params => exact h.of_meta (RaftModule.touched_init hexec)
  | poaInit params => exact h.of_meta (PoaModule.touched_init hexec)
  | contractInit params =>
      refine h.congr fun a key hkey => (touched_contractInit hexec).payloadGet_eq ?_
      rintro ⟨f, hf⟩
      exact ContractOffice.entryKeys_notMem_limits hkey f hf
  | create params =>
      obtain ⟨x, txHash, rfl, htxHash, htouched⟩ := create_eq_ok hexec
      simp only [Invocation.addCodes, htxHash]
      exact (h.store (hlength _) hhash x hencodable).touched_vmKeys htouched
  | execute params => exact h.touched_vmKeys (touched_execute hexec)
  | propose o value =>
      cases o with
      | consensus o =>
          exact h.of_meta (o.sound.touched_update ((o.update_eq c sender value).symm.trans hexec))
      | contract o a =>
          have hcall := (o.update_eq lib.util a c sender value).symm.trans hexec
          obtain ⟨x, admin, next, c₁, rfl, hadmin, -, -, rfl, hvoted⟩ := Kind.update_eq_ok _ _ hcall
          rw [ContractOffice.kind_admin, StorageMap.get_entry] at hadmin
          cases o with
          | admin =>
              exact h.adminVoted hadmin ((ContractOffice.sound_admin a lib.util).touched_update hcall)
          | code =>
              have hcreated : Agrees lib.util codes ((Contract.codeKind lib.util a).emit c "Created"
                  ⟨next.getD 1, value, []⟩) := h.congr fun _ _ _ => rfl
              exact hcreated.codeVoted (p := ⟨next.getD 1, value, [x]⟩) hhash hadmin hencodable
                (Invocation.passes_propose hadmin value) (hroomy a) hvoted
  | vote o id =>
      cases o with
      | consensus o =>
          exact h.of_meta (o.sound.touched_updateVote ((o.updateVote_eq c sender id).symm.trans hexec))
      | contract o a =>
          have hcall := (o.updateVote_eq lib.util a c sender id).symm.trans hexec
          obtain ⟨x, admin, p, rfl, hadmin, -, hp, -, hvoted⟩ := Kind.updateVote_eq_ok _ _ hcall
          rw [ContractOffice.kind_admin, StorageMap.get_entry] at hadmin
          cases o with
          | admin =>
              exact h.adminVoted hadmin
                ((ContractOffice.sound_admin a lib.util).touched_updateVote hcall)
          | code =>
              have hp' : Contract.updateCodeProposal.get c a = .ok (some p) :=
                (StorageMap.get_entry _ a c).symm.trans hp
              have hvalue : Codec.ValidBytes p.value := validBytes_of_pending hp'
              exact h.codeVoted (p := Kind.voted p x) hhash hadmin hvalue
                (Invocation.passes_vote hadmin hp' id) (hroomy a) hvoted

/-- In every run the contracts have the codes that were added. -/
theorem Course.agrees {lib : Library} {h : History} {codes : Codes}
    {P : History → Option Address → Invocation → Prop}
    (hlength : ∀ data, (lib.util.address data).bytes.length = lib.util.addressLength)
    (hhash : ∀ data, Codec.ValidBytes (lib.util.hash data).bytes)
    (hP : ∀ h sender call, P h sender call → call.Encodable ∧ call.Roomy h.context sender)
    (hcourse : Course lib P h codes) : Agrees lib.util codes h.context := by
  induction hcourse with
  | start env => exact .start lib.util env
  | resume hcourse hdata ih =>
      exact ih.congr fun a key hkey =>
        hdata.payloadGet key (ContractOffice.entryKeys_notMem_vmKeys hkey)
  | call hcourse hcall hexec ih =>
      obtain ⟨hencodable, hroomy⟩ := hP _ _ _ hcall
      exact ih.call hlength hhash hencodable hroomy hexec

end Finastate.Governance
