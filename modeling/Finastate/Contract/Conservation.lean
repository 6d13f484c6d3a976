import Finastate.Contract.Module

/-!
# Conservation of balance

Every context of an execution sees the balances through its own buffer, those
of its callers and the executor. The invariant of an execution is that all of
them see the same total (`Balanced`): then it does not matter which buffers are
applied and which are dropped.

A transfer writes below the buffer of the contract that asks for it. As long
as that buffer has no balance of the two accounts, the contract and its caller
see the transfer alike. If it has one, left there by a callee, the contract
does not see its own transfer, and applying the buffer later undoes one half of
it. `balancedAt_moved_iff` says which transfers leave everyone with the total.
Likewise the buffer of a nested context may hold balances of an earlier call when
the next one begins; `balancedAt_entered_iff` says what they must add up to.
-/

namespace Finastate.BalanceModule

open Executor

/-- The sum of all balances in the state that `get` reads. -/
noncomputable def total (get : DBKey → Option DBValue) : Nat := Ledger.total (balances get)

/-- The keys of the balance module begin with this. -/
def keyPrefix : Bytes := STORAGE_KEY ++ SEPARATOR ++ asBytes "balance" ++ SEPARATOR

theorem keyPrefix_prefix_key (account : Address) : keyPrefix <+: balance.key account :=
  ⟨Codec.encodeBytes account.bytes, rfl⟩

theorem total_congr {get get' : DBKey → Option DBValue}
    (h : ∀ account, get (balance.key account) = get' (balance.key account)) :
    total get = total get' := by
  rw [total, total, balances_congr h]

/-- The keys that a state has an entry for. -/
def keys (s : ContextState) : List DBKey :=
  s.txBuffer.map Prod.fst ++ s.buffer.map Prod.fst ++ s.statedb.map Prod.fst

theorem mem_keys_of_get {s : ContextState} {key : DBKey} (h : s.get key ≠ none) :
    key ∈ keys s := by
  have hmem : ∀ {ν : Type} {m : List (DBKey × ν)} {v : ν}, AssocMap.get? m key = some v →
      key ∈ m.map Prod.fst := fun hget =>
    List.mem_map.2 ⟨_, AssocMap.mem_of_get?_eq_some hget, rfl⟩
  rw [ContextState.get] at h
  rw [keys, List.mem_append, List.mem_append]
  cases htx : AssocMap.get? s.txBuffer key with
  | some value => exact Or.inl (Or.inl (hmem htx))
  | none =>
      cases hbuffer : AssocMap.get? s.buffer key with
      | some value => exact Or.inl (Or.inr (hmem hbuffer))
      | none =>
          rw [htx, hbuffer] at h
          obtain ⟨value, hvalue⟩ := Option.ne_none_iff_exists'.1 h
          exact Or.inr (hmem hvalue)

/-- Only accounts with an entry hold anything, so the total is a finite sum. -/
theorem support_balances_subset (s : ContextState) :
    Function.support (balances s.get) ⊆ {account | balance.key account ∈ keys s} := by
  intro account haccount
  apply mem_keys_of_get
  intro hget
  apply haccount
  rw [balances, hget]
  rfl

/-- The total, from a list of all accounts that have an entry. -/
theorem total_eq_sum {s : ContextState} {accounts : List Address} (hnodup : accounts.Nodup)
    (haccounts : ∀ key ∈ keys s, keyPrefix <+: key → key ∈ accounts.map balance.key) :
    total s.get = (accounts.map (balances s.get)).sum := by
  have hsubset : Function.support (balances s.get) ⊆ ↑accounts.toFinset := by
    intro account haccount
    have hkey := haccounts _ (support_balances_subset s haccount)
      (keyPrefix_prefix_key account)
    obtain ⟨account', hmem, heq⟩ := List.mem_map.1 hkey
    rw [key_injective heq] at hmem
    simpa using hmem
  rw [total, Ledger.total, finsum_eq_sum_of_support_subset _ hsubset,
    List.sum_toFinset _ hnodup]

/-- The two entries of a transfer, over a state in which the accounts hold what
the transfer read. -/
theorem moved_of_entries {get get' : DBKey → Option DBValue} {sender recipient : Address}
    {value : Nat} (hne : sender ≠ recipient) (henough : value ≤ balances get sender)
    (hfits : balances get recipient + value < 2 ^ 64)
    (hsender : get' (balance.key sender) =
      some (Codec.encodeU64 (balances get sender - value)))
    (hrecipient : get' (balance.key recipient) =
      some (Codec.encodeU64 (balances get recipient + value)))
    (hframe : ∀ account, account ≠ sender → account ≠ recipient →
      get' (balance.key account) = get (balance.key account)) :
    Ledger.Moved (balances get) (balances get') sender recipient value := by
  have hlt := balances_lt get sender
  refine ⟨hne, ?_, ?_, ?_⟩
  · rw [balances_of_get_eq_encode (by omega) hsender]
    omega
  · rw [balances_of_get_eq_encode hfits hrecipient]
  · intro account hs hr
    rw [balances, balances, hframe account hs hr]

end Finastate.BalanceModule

namespace Finastate.Contract

open Executor Vm BalanceModule

theorem head?_storageKey : Contract.STORAGE_KEY.head? = some 99 := by decide +kernel

theorem head?_balanceKey (account : Address) : (balance.key account).head? = some 98 := by
  have hkey : BalanceModule.STORAGE_KEY.head? = some 98 := by decide +kernel
  simp [StorageMap.key, balance, hkey]

/-- The keys of the contract module are not those of balances. -/
theorem contractKey_ne_balanceKey (rest : Bytes) (account : Address) :
    Contract.STORAGE_KEY ++ rest ≠ balance.key account := by
  intro h
  have hhead := congrArg List.head? h
  rw [List.head?_append, head?_storageKey, head?_balanceKey] at hhead
  cases hhead

theorem moduleKey_ne_balanceKey (util : Util) (address account : Address) (key : Bytes) :
    moduleKey util address key ≠ balance.key account := by
  simp only [moduleKey, List.append_assoc]
  exact contractKey_ne_balanceKey _ account

/-- Every context of the list, and the store below, see the total `T`. -/
def Balanced (store : DBKey → Option DBValue) (T : Nat) : List VMContext → Prop
  | [] => total store = T
  | c :: contexts =>
      total (Overlay.read store ((c :: contexts).map VMContext.payload)) = T ∧
        Balanced store T contexts

/-- The buffer has no balance of the account. -/
def VMContext.Free (c : VMContext) (account : Address) : Prop :=
  AssocMap.get? c.payload (balance.key account) = none

instance (c : VMContext) (account : Address) : Decidable (c.Free account) :=
  inferInstanceAs (Decidable (_ = none))

/-- The accounts of which the buffer has a balance. The bytes of an account are the
end of its key. -/
def VMContext.accounts (c : VMContext) : Finset Address :=
  (c.payload.flatMap fun item => item.1.tails.map Address.mk).toFinset.filter
    fun account => ¬ c.Free account

theorem VMContext.mem_accounts {c : VMContext} {account : Address} :
    account ∈ c.accounts ↔ ¬ c.Free account := by
  rw [accounts, Finset.mem_filter, List.mem_toFinset, and_iff_right_iff_imp]
  intro hfree
  obtain ⟨value, hvalue⟩ := Option.ne_none_iff_exists'.1 hfree
  have htail : account.bytes <:+ balance.key account :=
    (List.suffix_append _ _).trans (List.suffix_append _ _)
  exact List.mem_flatMap.2 ⟨_, AssocMap.mem_of_get?_eq_some hvalue,
    List.mem_map.2 ⟨account.bytes, (List.mem_tails _ _).2 htail, rfl⟩⟩

namespace CallStack

variable {w : CallStack} {T : Nat}

/-- What the caller of the running contract sees, or the executor. -/
def below (w : CallStack) : DBKey → Option DBValue :=
  Overlay.read w.executor.payloadGet (w.callers.map VMContext.payload)

theorem payloadGet_eq (w : CallStack) (key : DBKey) :
    w.payloadGet key = (AssocMap.get? w.top.payload key).getD (w.below key) := rfl

theorem payloadGet_of_free {account : Address} (h : w.top.Free account) :
    w.payloadGet (balance.key account) = w.below (balance.key account) :=
  Overlay.read_cons_of_get?_eq_none h

/-- Applied writes are seen from below the running contract on. -/
theorem below_payloadApply (w : CallStack) (items : List (DBKey × Option DBValue))
    (key : DBKey) :
    (w.payloadApply items).below key = (AssocMap.get? items key).getD (w.below key) := by
  obtain ⟨executor, top, callers, nested⟩ := w
  cases callers with
  | nil => exact Context.payloadGet_foldr_payloadSet executor items key
  | cons caller callers => exact Overlay.read_extend_cons caller.payload items

theorem get?_movedItems_recipient (w : CallStack) (move : Move) :
    AssocMap.get? (w.movedItems move) (balance.key move.recipient) =
      some (some (Codec.encodeU64 (w.balances move.recipient + move.value))) :=
  AssocMap.get?_insert_self _ _ _

theorem get?_movedItems_sender (w : CallStack) {move : Move}
    (hne : move.sender ≠ move.recipient) :
    AssocMap.get? (w.movedItems move) (balance.key move.sender) =
      some (some (Codec.encodeU64 (w.balances move.sender - move.value))) := by
  have hkey : balance.key move.sender ≠ balance.key move.recipient := fun h =>
    hne (key_injective h)
  rw [movedItems, AssocMap.get?_insert, if_neg hkey, AssocMap.get?_cons, if_pos rfl]

theorem get?_movedItems_other (w : CallStack) {move : Move} {key : DBKey}
    (hs : key ≠ balance.key move.sender) (hr : key ≠ balance.key move.recipient) :
    AssocMap.get? (w.movedItems move) key = none := by
  rw [movedItems, AssocMap.get?_insert, if_neg hr, AssocMap.get?_cons, if_neg (Ne.symm hs),
    AssocMap.get?_nil]

theorem moved_top_payload (w : CallStack) (move : Move) :
    (w.moved move).top.payload = w.top.payload := by
  obtain ⟨executor, top, callers, nested⟩ := w
  cases callers with
  | nil => rfl
  | cons caller callers => rfl

/-- Finitely many accounts hold anything. -/
theorem finite_support_balances (executor : Context)
    (layers : List (List (DBKey × Option DBValue))) :
    (Function.support
      (BalanceModule.balances (Overlay.read executor.payloadGet layers))).Finite := by
  have hkeys (keys : List DBKey) : {account | balance.key account ∈ keys}.Finite :=
    keys.finite_toSet.preimage key_injective.injOn
  induction layers with
  | nil => exact (hkeys _).subset (support_balances_subset executor.payloadState)
  | cons layer layers ih =>
      refine (ih.union (hkeys (layer.map Prod.fst))).subset
        (Ledger.support_subset_union fun account haccount => ?_)
      have hnone : AssocMap.get? layer (balance.key account) = none := by
        by_contra hsome
        obtain ⟨value, hvalue⟩ := Option.ne_none_iff_exists'.1 hsome
        exact haccount (List.mem_map.2 ⟨_, AssocMap.mem_of_get?_eq_some hvalue, rfl⟩)
      rw [BalanceModule.balances, BalanceModule.balances,
        Overlay.read_cons_of_get?_eq_none hnone]

/-! ### A transfer over a buffer -/

/-- What the transfer writes below the buffer of the contract that asks for it is not out
of date, and the buffer does not hide one half of it. -/
@[mk_iff]
structure Settles (w : CallStack) (move : Move) : Prop where
  together : w.balances move.sender + w.balances move.recipient =
    BalanceModule.balances w.below move.sender +
      BalanceModule.balances w.below move.recipient
  alike : move.value = 0 ∨ (w.top.Free move.sender ↔ w.top.Free move.recipient)

instance (w : CallStack) (move : Move) : Decidable (w.Settles move) :=
  decidable_of_iff _ (settles_iff w move).symm

theorem balances_of_free {account : Address} (h : w.top.Free account) :
    w.balances account = BalanceModule.balances w.below account := by
  rw [balances, BalanceModule.balances, BalanceModule.balances, payloadGet_of_free h]

theorem balances_below_moved {util : Util} {move : Move} (hmovable : w.Movable util move)
    (account : Address) :
    BalanceModule.balances (w.moved move).below account =
      if account = move.recipient then w.balances move.recipient + move.value
      else if account = move.sender then w.balances move.sender - move.value
      else BalanceModule.balances w.below account := by
  have hbelow : (w.moved move).below (balance.key account) =
      (AssocMap.get? (w.movedItems move) (balance.key account)).getD
        (w.below (balance.key account)) := below_payloadApply w _ _
  by_cases hr : account = move.recipient
  · subst hr
    rw [get?_movedItems_recipient, Option.getD_some] at hbelow
    rw [if_pos rfl]
    exact balances_of_get_eq_encode hmovable.fits hbelow
  · by_cases hs : account = move.sender
    · subst hs
      rw [get?_movedItems_sender w hmovable.ne, Option.getD_some] at hbelow
      have hlt := balances_lt w.payloadGet move.sender
      rw [if_neg hr, if_pos rfl]
      exact balances_of_get_eq_encode ((Nat.sub_le _ _).trans_lt hlt) hbelow
    · rw [get?_movedItems_other w (fun h => hs (key_injective h))
        (fun h => hr (key_injective h)), Option.getD_none] at hbelow
      rw [if_neg hr, if_neg hs, BalanceModule.balances, BalanceModule.balances, hbelow]

theorem balances_moved (w : CallStack) (move : Move) (account : Address) :
    (w.moved move).balances account =
      if w.top.Free account then BalanceModule.balances (w.moved move).below account
      else w.balances account := by
  have htop : (w.moved move).top.Free account ↔ w.top.Free account := by
    rw [VMContext.Free, VMContext.Free, moved_top_payload]
  split
  · next hfree => exact balances_of_free (htop.2 hfree)
  · next hhidden =>
    obtain ⟨value, hvalue⟩ := Option.ne_none_iff_exists'.1 hhidden
    rw [balances, balances, BalanceModule.balances, BalanceModule.balances, payloadGet_eq,
      payloadGet_eq, moved_top_payload, hvalue]
    rfl

/-- Below the contract that asks for it a transfer keeps the total exactly when nothing
that it writes is out of date. -/
theorem total_below_moved_iff {util : Util} {move : Move} (hmovable : w.Movable util move) :
    total (w.moved move).below = total w.below ↔
      w.balances move.sender + w.balances move.recipient =
        BalanceModule.balances w.below move.sender +
          BalanceModule.balances w.below move.recipient := by
  have hframe : ∀ account ∉ ({move.sender, move.recipient} : Finset Address),
      BalanceModule.balances (w.moved move).below account =
        BalanceModule.balances w.below account := by
    intro account hnot
    rw [Finset.mem_insert, Finset.mem_singleton, not_or] at hnot
    rw [balances_below_moved hmovable, if_neg hnot.2, if_neg hnot.1]
  have hsender := balances_below_moved hmovable move.sender
  have hrecipient := balances_below_moved hmovable move.recipient
  rw [if_neg hmovable.ne, if_pos rfl] at hsender
  rw [if_pos rfl] at hrecipient
  have hdebit := Nat.sub_add_cancel hmovable.enough
  rw [total, total, Ledger.total_eq_iff hframe (finite_support_balances _ _),
    Finset.sum_pair hmovable.ne, Finset.sum_pair hmovable.ne, hsender, hrecipient]
  omega

/-- For the contract itself a transfer keeps the total exactly when its buffer does not
hide one half of it. -/
theorem total_moved_iff {util : Util} {move : Move} (hmovable : w.Movable util move) :
    total (w.moved move).payloadGet = total w.payloadGet ↔
      move.value = 0 ∨ (w.top.Free move.sender ↔ w.top.Free move.recipient) := by
  have hframe : ∀ account ∉ ({move.sender, move.recipient} : Finset Address),
      (w.moved move).balances account = w.balances account := by
    intro account hnot
    rw [Finset.mem_insert, Finset.mem_singleton, not_or] at hnot
    rw [balances_moved, balances_below_moved hmovable, if_neg hnot.2, if_neg hnot.1]
    split
    · next hfree => exact (balances_of_free hfree).symm
    · rfl
  have hsender := balances_moved w move move.sender
  have hrecipient := balances_moved w move move.recipient
  rw [balances_below_moved hmovable, if_neg hmovable.ne, if_pos rfl] at hsender
  rw [balances_below_moved hmovable, if_pos rfl] at hrecipient
  have hdebit := Nat.sub_add_cancel hmovable.enough
  change Ledger.total (w.moved move).balances = Ledger.total w.balances ↔ _
  rw [Ledger.total_eq_iff hframe (finite_support_balances _ _), Finset.sum_pair hmovable.ne,
    Finset.sum_pair hmovable.ne, hsender, hrecipient]
  by_cases hs : w.top.Free move.sender
  · by_cases hr : w.top.Free move.recipient
    · simp only [hs, hr, if_true, iff_self, or_true, iff_true]
      omega
    · have hhalf (a b v : ℕ) (h : a - v + v = a) : a - v + b = a + b ↔ v = 0 := by omega
      simp only [hs, hr, if_true, if_false, iff_false, not_true, or_false]
      exact hhalf _ _ _ hdebit
  · by_cases hr : w.top.Free move.recipient
    · have hhalf (a b v : ℕ) : a + (b + v) = a + b ↔ v = 0 := by omega
      simp only [hs, hr, if_true, if_false, iff_true, or_false]
      exact hhalf _ _ _
    · simp only [hs, hr, if_false, iff_self, or_true]

/-- Every context of the running contract and its callers sees the total. -/
def BalancedAt (w : CallStack) (T : Nat) : Prop := Balanced w.executor.payloadGet T w.stack

theorem balancedAt_iff (w : CallStack) (T : Nat) :
    w.BalancedAt T ↔
      total w.payloadGet = T ∧ Balanced w.executor.payloadGet T w.callers := Iff.rfl

/-- What holds of the callers and the executor holds of what is seen below. -/
theorem total_read_of_balanced {store : DBKey → Option DBValue}
    {contexts : List VMContext} (h : Balanced store T contexts) :
    total (Overlay.read store (contexts.map VMContext.payload)) = T := by
  cases contexts with
  | nil => exact h
  | cons c contexts => exact h.1

/-- A transfer leaves every context with the total exactly when it settles. -/
theorem balancedAt_moved_iff {util : Util} {move : Move} (h : w.BalancedAt T)
    (hmovable : w.Movable util move) : (w.moved move).BalancedAt T ↔ w.Settles move := by
  have hcallers : total w.below = T := total_read_of_balanced h.2
  have hbelow : Balanced (w.moved move).executor.payloadGet T (w.moved move).callers ↔
      total (w.moved move).below = T := by
    obtain ⟨executor, top, callers, nested⟩ := w
    cases callers with
    | nil => exact Iff.rfl
    | cons caller callers => exact and_iff_left h.2.2
  rw [balancedAt_iff, hbelow, settles_iff, and_comm]
  refine and_congr ?_ ?_
  · rw [← total_below_moved_iff hmovable, hcallers]
  · rw [← total_moved_iff hmovable, show total w.payloadGet = T from h.1]

/-! ### A nested call over a kept buffer -/

/-- The balances in the buffer of a kept context add up to what the running contract sees
of the same accounts. -/
def Level (w : CallStack) (n : VMContext) : Prop :=
  ∑ account ∈ n.accounts,
      BalanceModule.balances (Overlay.read w.payloadGet [n.payload]) account =
    ∑ account ∈ n.accounts, w.balances account

instance (w : CallStack) (n : VMContext) : Decidable (w.Level n) :=
  inferInstanceAs (Decidable (_ = _))

/-- The nested context starts with the total exactly when its buffer is level. -/
theorem balancedAt_entered_iff {address : Address} (h : w.BalancedAt T) :
    (w.entered address).BalancedAt T ↔ ∀ n ∈ w.nested.head?, w.Level n := by
  have hread : (w.entered address).BalancedAt T ↔ total (Overlay.read w.executor.payloadGet
      ((w.callee address).payload :: w.stack.map VMContext.payload)) = total w.payloadGet := by
    rw [show total w.payloadGet = T from h.1]
    exact and_iff_left h
  rw [hread]
  cases hnested : w.nested with
  | nil =>
      have hcallee : (w.callee address).payload = [] := by
        rw [callee, hnested]
        rfl
      rw [hcallee]
      simp only [List.head?_nil, Option.not_mem_none, false_implies, implies_true, iff_true]
      exact total_congr fun account => Overlay.read_empty_cons
  | cons n nested =>
      have hcallee : w.callee address = n := by rw [callee, hnested]
      have hframe : ∀ account ∉ n.accounts,
          BalanceModule.balances (Overlay.read w.payloadGet [n.payload]) account =
            w.balances account := by
        intro account hnot
        have hfree : n.Free account := not_not.1 fun hhidden => hnot (VMContext.mem_accounts.2 hhidden)
        rw [balances, BalanceModule.balances, BalanceModule.balances,
          Overlay.read_cons_of_get?_eq_none hfree]
        rfl
      rw [hcallee]
      simp only [List.head?_cons, Option.mem_some_iff, forall_eq']
      exact Ledger.total_eq_iff hframe (finite_support_balances _ _)

end CallStack

theorem Effect.balancedAt {vm : VM} {c : HostCall} {s : State} {w w' : CallStack} {T : Nat}
    (heffect : Effect vm c s w w') (h : w.BalancedAt T)
    (hfree : ∀ move, move? s w.top.contractEnv c = some move → w.Movable vm.util move →
      w.Settles move) : w'.BalancedAt T := by
  cases heffect with
  | same => exact h
  | @write address key value hcall haddress =>
      refine ⟨?_, h.2⟩
      rw [← h.1]
      apply total_congr
      intro account
      change Overlay.read _ (AssocMap.insert _ _ _ :: _) _ = _
      rw [Overlay.read_insert_cons,
        if_neg (moduleKey_ne_balanceKey vm.util address account key).symm]
      rfl
  | event e => exact h
  | move hmove hmovable =>
      exact (CallStack.balancedAt_moved_iff h hmovable).2 (hfree _ hmove hmovable)

theorem Finished.balancedAt {result : VMResult Bytes} {w w' : CallStack} {T : Nat}
    (hfinished : Finished result w w') (h : w.BalancedAt T)
    (hnested : ∀ data n nested, result = .ok data → w.nested = n :: nested →
      Balanced w.executor.payloadGet T (n :: w.stack)) : w'.BalancedAt T := by
  cases hfinished with
  | same => exact h
  | @apply n nested data hok hn =>
      have hbalanced := (hnested data n nested hok hn).1
      refine ⟨?_, h.2⟩
      rw [← hbalanced]
      apply total_congr
      intro account
      exact Overlay.read_extend_cons w.top.payload n.payload
  | drain hn => exact h

namespace Machine

variable {vm : VM} {m m' : Machine} {T : Nat}

/-- The buffers do not hide balances in a way that money comes from or goes to: a
transfer that goes through settles over the buffer of the contract that asks for it, and
a nested call begins in a context whose buffer is level. -/
def Unshadowed (vm : VM) (m : Machine) : Prop :=
  match m.process with
  | .call c _ =>
      ∀ move, move? m.state m.world.top.contractEnv c = some move →
        m.world.Movable vm.util move → m.world.Settles move
  | .execute _ _ => ∀ n ∈ m.world.nested.head?, m.world.Level n
  | .done _ => True

instance (vm : VM) (m : Machine) : Decidable (m.Unshadowed vm) :=
  match m with
  | ⟨_, _, .call _ _, _⟩ => inferInstanceAs (Decidable (∀ move, _ = some move → _ → _))
  | ⟨w, _, .execute _ _, _⟩ =>
      inferInstanceAs (Decidable (∀ n, w.nested.head? = some n → w.Level n))
  | ⟨_, _, .done _, _⟩ => inferInstanceAs (Decidable True)

theorem Step.balancedAt (hstep : Step vm m m') (hwf : WF vm m) (hfree : m.Unshadowed vm)
    (h : m.world.BalancedAt T) : m'.world.BalancedAt T := by
  rw [Unshadowed] at hfree
  cases hstep.walk hwf.idle with
  | host hprocess heffect hstate hframes =>
      rw [hprocess] at hfree
      exact heffect.balancedAt h hfree
  | enter hprocess hentered hframes =>
      rw [hprocess] at hfree
      rw [hentered.world]
      exact (CallStack.balancedAt_entered_iff h).2 hfree
  | refuse hprocess hworld hfinished hstate hframes =>
      rcases hworld with rfl | ⟨-, rfl⟩
      · exact hfinished.balancedAt h nofun
      · exact hfinished.balancedAt h nofun
  | back hprocess hfinished hstate hframes =>
      obtain ⟨caller, callers, hcallers, hleave⟩ := hwf.exists_leave hframes
      rw [CallStack.BalancedAt, CallStack.stack, hcallers] at h
      rw [hleave] at hfinished
      apply hfinished.balancedAt h.2
      intro data n nested hok hnested
      cases hnested
      exact h

theorem Steps.balancedAt (hsteps : Steps vm m m') (hwf : WF vm m)
    (hfree : ∀ m', Steps vm m m' → m'.Unshadowed vm)
    (h : m.world.BalancedAt T) : m'.world.BalancedAt T := by
  induction hsteps with
  | refl => exact h
  | tail hsteps hstep ih => exact hstep.balancedAt (hwf.steps hsteps) (hfree _ hsteps) ih

end Machine

theorem Effect.sameBase {vm : VM} {c : HostCall} {s : State} {w w' : CallStack}
    (h : Effect vm c s w w') : w.executor.SameBase w'.executor := by
  cases h with
  | same => exact .refl _
  | write hcall haddress => exact .refl _
  | event e => exact .refl _
  | @move move hmove hmovable =>
      obtain ⟨executor, top, callers, nested⟩ := w
      cases callers with
      | nil => exact .foldr_payloadSet executor _
      | cons caller callers => exact .refl _

namespace Machine

variable {vm : VM} {m m' : Machine}

theorem Step.sameBase (hstep : Step vm m m') (hwf : WF vm m) :
    m.world.executor.SameBase m'.world.executor := by
  cases hstep.walk hwf.idle with
  | host hprocess heffect hstate hframes => exact heffect.sameBase
  | enter hprocess hentered hframes =>
      rw [hentered.world]
      exact .refl _
  | refuse hprocess hworld hfinished hstate hframes =>
      rw [hfinished.executor_eq]
      rcases hworld with rfl | ⟨-, rfl⟩
      · exact .refl _
      · exact .refl _
  | back hprocess hfinished hstate hframes =>
      obtain ⟨caller, callers, hcallers, hleave⟩ := hwf.exists_leave hframes
      rw [hfinished.executor_eq, hleave]
      exact .refl _

theorem Steps.sameBase (hsteps : Steps vm m m') (hwf : WF vm m) :
    m.world.executor.SameBase m'.world.executor := by
  induction hsteps with
  | refl => exact .refl _
  | tail hsteps hstep ih => exact ih.trans (hstep.sameBase (hwf.steps hsteps))

end Machine

namespace Library

variable (lib : Library) {config : VMConfig} {context context' : Context}

/-- What is left in the executor when a run from `start` is over. -/
theorem finish_spec {f : Final} {senderAddress contractAddress : Address} {code : Bytes}
    {mode : Mode} {method : String} {params : Bytes} {payValue : Balance}
    (hsteps : Machine.Steps (lib.vm config)
      (lib.start config context senderAddress contractAddress code mode method params payValue)
      (Machine.ended f []))
    (hfree : ∀ m, Machine.Steps (lib.vm config)
      (lib.start config context senderAddress contractAddress code mode method params payValue)
      m → m.Unshadowed (lib.vm config)) :
    context.SameBase (finish f).1 ∧
      ∀ result, (finish f).2 = .ok result →
        total (finish f).1.payloadGet = total context.payloadGet := by
  have hwf := lib.wf_start config context senderAddress contractAddress code mode method params
    payValue
  have hbase := Machine.Steps.sameBase hsteps hwf
  have hbalanced := Machine.Steps.balancedAt hsteps hwf hfree
    (show (Library.start lib config context senderAddress contractAddress code mode method params
      payValue).world.BalancedAt (total context.payloadGet) from ⟨rfl, rfl⟩)
  have hdepth := (hwf.steps hsteps).depth
  obtain ⟨state, world, result⟩ := f
  obtain ⟨executor, top, callers, nested⟩ := world
  cases callers with
  | cons caller callers => cases hdepth
  | nil =>
      cases result with
      | error e => exact ⟨hbase, nofun⟩
      | ok u =>
          have happly := hbase.trans (Context.SameBase.foldr_payloadSet executor top.payload)
          constructor
          · exact happly.trans (Context.SameBase.foldl_emitEvent _ _)
          · intro out _
            rw [← hbalanced.1]
            apply total_congr
            intro account
            change (top.events.foldl Context.emitEvent _).payloadGet _ = _
            rw [Context.payloadGet_foldl_emitEvent]
            exact Context.payloadGet_foldr_payloadSet executor top.payload _

/-- What is known of the executor after a call of a module: below the
transaction buffer nothing has changed, and a successful call has kept the
total. -/
structure Keeps {α : Type} (context : Context) (r : Context × ModuleResult α) : Prop where
  base : context.SameBase r.1
  total : ∀ result, r.2 = .ok result → total r.1.payloadGet = total context.payloadGet

theorem Keeps.error {α : Type} (context : Context) (e : ModuleError) :
    Keeps context (context, (.error e : ModuleResult α)) :=
  ⟨.refl _, nofun⟩

theorem Keeps.map {α β : Type} {r : Context × ModuleResult α} (h : Keeps context r)
    (f : α → β) : Keeps context (r.map id fun result => result.map f) := by
  obtain ⟨context', result⟩ := r
  refine ⟨h.base, ?_⟩
  intro out hout
  cases result with
  | error e => cases hout
  | ok result => exact h.total result rfl

theorem Keeps.trans {α : Type} {r : Context × ModuleResult α}
    (hbase : context.SameBase context')
    (htotal : BalanceModule.total context'.payloadGet = BalanceModule.total context.payloadGet)
    (h : Keeps context' r) : Keeps context r :=
  ⟨hbase.trans h.base, fun result hresult => (h.total result hresult).trans htotal⟩

theorem keeps_innerVmExecute {senderAddress contractAddress : Address} {code : Bytes}
    {mode : Mode} {method : String} {params : Bytes} {payValue : Balance}
    (hfree : ∀ config, innerGetVmConfig context = .ok config → ∀ m,
      Machine.Steps (lib.vm config)
        (lib.start config context senderAddress contractAddress code mode method params payValue)
        m → m.Unshadowed (lib.vm config)) :
    Keeps context (lib.innerVmExecute context senderAddress contractAddress code mode method
      params payValue) := by
  cases hconfig : innerGetVmConfig context with
  | error e =>
      rw [innerVmExecute, hconfig]
      exact .error context e
  | ok config =>
      obtain ⟨f, hsteps, heq⟩ := lib.innerVmExecute_eq_finish hconfig senderAddress
        contractAddress code mode method params payValue
      rw [heq]
      obtain ⟨hbase, htotal⟩ := lib.finish_spec hsteps (hfree config hconfig)
      exact ⟨hbase, htotal⟩

/-- The entries of a new contract are not balances. -/
theorem total_store (sender address : Address) (newCode : Bytes) :
    total (lib.store context sender address newCode).payloadGet = total context.payloadGet := by
  apply total_congr
  intro account
  have hset : ∀ (c : Context) (rest : Bytes) (value : Option DBValue),
      (c.payloadSet (STORAGE_KEY ++ rest) value).payloadGet (balance.key account) =
        c.payloadGet (balance.key account) := by
    intro c rest value
    rw [Context.payloadGet_payloadSet, if_neg (contractKey_ne_balanceKey rest account).symm]
  have hmap : ∀ {K V : Type} (c : Context) (s : StorageMap K V) (k : K) (v : V),
      s.moduleKey = STORAGE_KEY →
      (s.set c k v).payloadGet (balance.key account) = c.payloadGet (balance.key account) := by
    intro K V c s k v hs
    have hkey : s.key k = STORAGE_KEY ++
        (SEPARATOR ++ (s.storageKey ++ (SEPARATOR ++ s.encodeKey k))) := by
      simp [StorageMap.key, hs]
    change (c.payloadSet (s.key k) _).payloadGet _ = _
    rw [hkey, hset]
  rw [store, hmap _ _ _ _ rfl, hmap _ _ _ _ rfl, hmap _ _ _ _ rfl, hmap _ _ _ _ rfl]

theorem sameBase_store (sender address : Address) (newCode : Bytes) :
    context.SameBase (lib.store context sender address newCode) := ⟨rfl, rfl⟩

/-- A transfer of the balance module on the executor. -/
theorem keeps_transfer {sender : Option Address} {params : TransferParams}
    (h : transfer context sender params = .ok context') :
    context.SameBase context' ∧ total context'.payloadGet = total context.payloadGet := by
  obtain ⟨account, -, ht⟩ := transfer_eq_ok h
  have hget : ∀ key, context'.payloadGet key =
      if key = balance.key params.recipient then
        some (Codec.encodeU64 (balances context.payloadGet params.recipient + params.value))
      else if key = balance.key account then
        some (Codec.encodeU64 (balances context.payloadGet account - params.value))
      else context.payloadGet key := by
    intro key
    rw [ht.eq]
    change ((context.payloadSet _ _).payloadSet _ _).payloadGet key = _
    rw [Context.payloadGet_payloadSet, Context.payloadGet_payloadSet]
    rfl
  constructor
  · rw [ht.eq]
    exact ⟨rfl, rfl⟩
  · have hne : balance.key account ≠ balance.key params.recipient := fun h =>
      ht.ne (key_injective h)
    have hmoved : Ledger.Moved (balances context.payloadGet) (balances context'.payloadGet)
        account params.recipient params.value := by
      refine moved_of_entries ht.ne ht.enough ht.fits ?_ ?_ ?_
      · rw [hget, if_neg hne, if_pos rfl]
      · rw [hget, if_pos rfl]
      · intro other hs hr
        rw [hget, if_neg (fun h => hr (key_injective h)), if_neg (fun h => hs (key_injective h))]
    exact hmoved.total_eq

/-- The calls this is about: transfers, and the creation and execution of
contracts. -/
def Moneyed (call : Call) : Prop :=
  call.module = "balance" ∧ call.method = "transfer" ∨
    call.module = "contract" ∧ (call.method = "create" ∨ call.method = "execute")

theorem keeps_create {call : Call} (sender : Option Address)
    (hmodule : call.module = "contract") (hmethod : call.method = "create")
    (hfree : ∀ config m m', lib.start? context sender call = some (config, m) →
      Machine.Steps (lib.vm config) m m' → m'.Unshadowed (lib.vm config))
    {params : CreateParams} {rest : Bytes}
    (hparams : decodeCreateParams call.params = some (params, rest)) :
    Keeps context (lib.create context sender params) := by
  cases sender with
  | none => exact .error context _
  | some sender =>
      rw [create]
      cases htxHash : context.callEnv.txHash with
      | none => exact .error context _
      | some txHash =>
          have hkeeps : Keeps context (lib.innerVmExecute
              (lib.store context sender (lib.contractAddress txHash) params.code) sender
              (lib.contractAddress txHash) params.code .init params.initMethod
              params.initParams params.initPayValue) := by
            refine .trans (lib.sameBase_store sender _ _) (lib.total_store sender _ _)
              (lib.keeps_innerVmExecute ?_)
            intro config hconfig m hsteps
            refine hfree config _ m ?_ hsteps
            simp [start?, hmodule, hmethod, hparams, htxHash, hconfig, Except.toOption]
          simp only
          generalize lib.innerVmExecute
            (lib.store context sender (lib.contractAddress txHash) params.code) sender
            (lib.contractAddress txHash) params.code .init params.initMethod
            params.initParams params.initPayValue = r at hkeeps
          obtain ⟨context', result⟩ := r
          cases result with
          | error e => exact ⟨hkeeps.base, by rintro _ ⟨⟩⟩
          | ok out => exact ⟨hkeeps.base, fun _ _ => hkeeps.total out rfl⟩

theorem keeps_execute {call : Call} (sender : Option Address)
    (hmodule : call.module = "contract") (hmethod : call.method = "execute")
    (hfree : ∀ config m m', lib.start? context sender call = some (config, m) →
      Machine.Steps (lib.vm config) m m' → m'.Unshadowed (lib.vm config))
    {params : ExecuteParams} {rest : Bytes}
    (hparams : decodeExecuteParams call.params = some (params, rest)) :
    Keeps context (lib.execute context sender params) := by
  cases sender with
  | none => exact .error context _
  | some sender =>
      rw [execute]
      cases hhash : innerGetCodeHash context params.contractAddress none with
      | error e => exact .error context e
      | ok hash =>
          cases hash with
          | none => exact .error context _
          | some hash =>
              cases hconfig : innerGetVmConfig context with
              | error e => exact .error context e
              | ok config =>
                  cases hcode : innerGetCode context params.contractAddress none with
                  | error e => exact .error context _
                  | ok code =>
                      cases code with
                      | none => exact .error context _
                      | some code =>
                          apply lib.keeps_innerVmExecute
                          intro config' hconfig' m hsteps
                          rw [hconfig] at hconfig'
                          cases hconfig'
                          refine hfree config _ m ?_ hsteps
                          simp [start?, hmodule, hmethod, hparams, hhash, hconfig, hcode,
                            Except.toOption]

/-- A call of one of these kinds keeps the total. -/
theorem keeps_executeCall
    {others : Context → Option Address → Call → Context × ModuleResult Bytes} {call : Call}
    (sender : Option Address) (hcall : Moneyed call)
    (hfree : ∀ config m m', lib.start? context sender call = some (config, m) →
      Machine.Steps (lib.vm config) m m' → m'.Unshadowed (lib.vm config)) :
    Keeps context (lib.executeCall others context sender call) := by
  rcases hcall with ⟨hmodule, hmethod⟩ | ⟨hmodule, hmethod | hmethod⟩
  · simp only [executeCall, hmodule, hmethod, decoded]
    cases decodeTransferParams call.params with
    | none => exact .error context _
    | some p =>
        obtain ⟨params, rest⟩ := p
        simp only
        cases htransfer : transfer context sender params with
        | error e => exact .error context e
        | ok context' =>
            obtain ⟨hbase, htotal⟩ := keeps_transfer htransfer
            exact ⟨hbase, fun _ _ => htotal⟩
  · simp only [executeCall, hmodule, hmethod, decoded]
    cases hparams : decodeCreateParams call.params with
    | none => exact .error context _
    | some p => exact (lib.keeps_create sender hmodule hmethod hfree hparams).map _
  · simp only [executeCall, hmodule, hmethod, decoded]
    cases hparams : decodeExecuteParams call.params with
    | none => exact .error context _
    | some p => exact (lib.keeps_execute sender hmodule hmethod hfree hparams).map _

section Batch

variable (others : Context → Option Address → Call → Context × ModuleResult Bytes)
  (address : PublicKey → Address)

theorem total_executeTx {tx : FullTransaction} {receipt : FullReceipt}
    (hdrained : context.payloadState.txBuffer = []) (hcall : Moneyed tx.tx.call)
    (hfree : ∀ config m m',
      lib.start? { context with callEnv := { txHash := some tx.txHash } }
        (tx.tx.witness.map fun witness => address witness.publicKey) tx.tx.call =
          some (config, m) →
      Machine.Steps (lib.vm config) m m' → m'.Unshadowed (lib.vm config))
    (htx : (lib.executor others address).executeTx context tx = (context', .ok receipt)) :
    context'.payloadState.txBuffer = [] ∧
      total context'.payloadGet = total context.payloadGet := by
  have hkeeps : Keeps { context with callEnv := { txHash := some tx.txHash } }
      (lib.executeCall others { context with callEnv := { txHash := some tx.txHash } }
        (tx.tx.witness.map fun witness => address witness.publicKey) tx.tx.call) :=
    lib.keeps_executeCall _ hcall hfree
  simp only [Executor.executeTx, executor, dispatcher] at htx
  generalize lib.executeCall others { context with callEnv := { txHash := some tx.txHash } }
    (tx.tx.witness.map fun witness => address witness.publicKey) tx.tx.call = r at hkeeps htx
  obtain ⟨context₁, result⟩ := r
  cases result with
  | ok out =>
      cases htx
      refine ⟨rfl, ?_⟩
      rw [Context.payloadGet_applyTx]
      exact hkeeps.total out rfl
  | error e =>
      cases e with
      | system e => cases htx
      | application e =>
          cases htx
          refine ⟨rfl, ?_⟩
          rw [id, Context.SameBase.payloadGet_dropTx hkeeps.base hdrained]
          rfl

/-- What every transaction keeps, with those that are left, holds when all are done. -/
theorem keeps_executeLoop {executor : Executor}
    {R : Context → List FullTransaction → Prop}
    (hstep : ∀ (context context' : Context) (tx : FullTransaction) (txs : List FullTransaction)
      (receipt : FullReceipt), R context (tx :: txs) →
      executor.executeTx context tx = (context', .ok receipt) → R context' txs)
    {txs : List FullTransaction} {txsIsMeta : Option Bool}
    {r : List FullReceipt × Option Bool} (h : R context txs)
    (hok : executor.executeLoop context txsIsMeta txs = (context', .ok r)) : R context' [] := by
  induction txs generalizing context txsIsMeta r with
  | nil =>
      cases hok
      exact h
  | cons tx txs ih =>
      rw [Executor.executeLoop] at hok
      cases hmeta : executor.dispatcher.isMeta tx.tx.call.module with
      | error e =>
          rw [hmeta] at hok
          cases hok
      | ok isMeta =>
          simp only [hmeta] at hok
          split at hok
          · cases hok
          · cases htx : executor.executeTx context tx with
            | mk context₁ result =>
                rw [htx] at hok
                cases result with
                | error e => cases hok
                | ok receipt =>
                    simp only at hok
                    cases hloop : executor.executeLoop context₁ (some isMeta) txs with
                    | mk context₂ result =>
                        rw [hloop] at hok
                        cases result with
                        | error e => cases hok
                        | ok p =>
                            cases hok
                            exact ih (hstep _ _ _ _ _ h htx) hloop

/-- The same for the whole batch, after which only receipts are added. -/
theorem keeps_executeTxs {executor : Executor}
    {R : Context → List FullTransaction → Prop}
    (hstep : ∀ (context context' : Context) (tx : FullTransaction) (txs : List FullTransaction)
      (receipt : FullReceipt), R context (tx :: txs) →
      executor.executeTx context tx = (context', .ok receipt) → R context' txs)
    {txs : List FullTransaction} (h : R context txs)
    (hok : executor.executeTxs context txs = (context', .ok ())) :
    ∃ context₁, R context₁ [] ∧ context'.payloadGet = context₁.payloadGet := by
  rw [Executor.executeTxs] at hok
  cases hloop : executor.executeLoop context none txs with
  | mk context₁ result =>
      rw [hloop] at hok
      cases result with
      | error e => cases hok
      | ok p =>
          obtain ⟨receipts, txsIsMeta⟩ := p
          refine ⟨context₁, keeps_executeLoop hstep h hloop, ?_⟩
          have hstate := Executor.payloadState_closeTxs context₁ txs receipts txsIsMeta
          simp only at hok
          rw [hok] at hstate
          exact congrArg ContextState.get hstate

/-- Executing a batch of transfers, creations and executions of contracts keeps
the sum of all balances, if no buffer hides a balance on the way. -/
theorem total_executeTxs (txs : List FullTransaction)
    (hdrained : context.payloadState.txBuffer = [])
    (hcalls : ∀ tx ∈ txs, Moneyed tx.tx.call)
    (hfree : ∀ vm m, lib.Visited others address context txs vm m → m.Unshadowed vm)
    (hok : (lib.executor others address).executeTxs context txs = (context', .ok ())) :
    total context'.payloadGet = total context.payloadGet := by
  let R (c : Context) (rest : List FullTransaction) : Prop :=
    c.payloadState.txBuffer = [] ∧ total c.payloadGet = total context.payloadGet ∧
      (∀ tx ∈ rest, Moneyed tx.tx.call) ∧
        ∀ vm m, lib.Visited others address c rest vm m → m.Unshadowed vm
  have hstart : R context txs := ⟨hdrained, rfl, hcalls, hfree⟩
  have hstep : ∀ (c c' : Context) (tx : FullTransaction) (rest : List FullTransaction)
      (receipt : FullReceipt), R c (tx :: rest) →
      (lib.executor others address).executeTx c tx = (c', .ok receipt) → R c' rest := by
    rintro c c' tx rest receipt ⟨hdrained, htotal, hcalls, hfree⟩ htx
    obtain ⟨hdrained', htotal'⟩ := lib.total_executeTx others address hdrained
      (hcalls tx List.mem_cons_self)
      (fun config m m' hstart hsteps => hfree _ m' (.here hstart hsteps)) htx
    exact ⟨hdrained', htotal'.trans htotal, fun tx htx => hcalls tx (List.mem_cons_of_mem _ htx),
      fun vm m hvisited => hfree vm m (.later htx hvisited)⟩
  obtain ⟨context₁, ⟨-, htotal, -⟩, hget⟩ := keeps_executeTxs hstep hstart hok
  rw [hget, htotal]

/-- Executing transfers, creations and executions of contracts on any state
keeps the sum of all balances, if no buffer hides a balance on the way. -/
theorem total_executeTxs_new (env : ContextEnv)
    (metaStatedb payloadStatedb : List (DBKey × DBValue)) (txs : List FullTransaction)
    (hcalls : ∀ tx ∈ txs, Moneyed tx.tx.call)
    (hfree : ∀ vm m, lib.Visited others address (.new env metaStatedb payloadStatedb) txs vm m →
      m.Unshadowed vm)
    (hok : (lib.executor others address).executeTxs (.new env metaStatedb payloadStatedb) txs =
      (context', .ok ())) :
    total context'.payloadGet =
      total (Context.new env metaStatedb payloadStatedb).payloadGet :=
  lib.total_executeTxs others address txs rfl hcalls hfree hok

end Batch

end Library

namespace Sample

/-- One contract that calls a second one, which takes the payment, and then
transfers something itself. -/
def payer : List (Bytes × Process) :=
  [([1], sequence [.inr (nested 2 10 none), .inl (.balanceTransfer (account 3) 50)]),
    ([2], sequence [.inl .pay])]

/-- The account `9` creates both, funds the first and calls it. -/
def payerTxs : List FullTransaction :=
  [create 9 1 [1], create 9 2 [2], transfer 9 50 1 100, execute 9 51 1 0]

/-- The same contract, which transfers first. -/
def spender : List (Bytes × Process) :=
  [([1], sequence [.inl (.balanceTransfer (account 3) 50), .inr (nested 2 10 none)]),
    ([2], sequence [.inl .pay])]

theorem total_executeTxs_spender :
    (((library spender).executor others address).executeTxs (context [(9, 1000)])
        payerTxs).2 = .ok () ∧
      total (((library spender).executor others address).executeTxs (context [(9, 1000)])
          payerTxs).1.payloadGet =
        total (context [(9, 1000)]).payloadGet := by
  have hok : (((library spender).executor others address).executeTxs (context [(9, 1000)])
      payerTxs).2 = .ok () := by decide +kernel
  have hcalls : ∀ tx ∈ payerTxs, Library.Moneyed tx.tx.call := by
    unfold Library.Moneyed
    decide +kernel
  have hfree : (library spender).alwaysTxs others address
      (fun vm m => decide (m.Unshadowed vm)) 10 (context [(9, 1000)]) payerTxs = true := by
    decide +kernel
  exact ⟨hok, (library spender).total_executeTxs_new others address _ _ _ payerTxs hcalls
    (fun vm m hvisited => of_decide_eq_true (hvisited.of_alwaysTxs _ hfree))
    (Prod.ext rfl hok)⟩

/-- The total grows: the callee's payment stays in the buffer of the first
contract and undoes the debit of its transfer. -/
theorem total_executeTxs_payer :
    ¬ ∀ (lib : Library)
      (others : Context → Option Address → Call → Context × ModuleResult Bytes)
      (address : PublicKey → Address) (env : ContextEnv)
      (metaStatedb payloadStatedb : List (DBKey × DBValue)) (txs : List FullTransaction)
      (context' : Context), (∀ tx ∈ txs, Library.Moneyed tx.tx.call) →
      (lib.executor others address).executeTxs (.new env metaStatedb payloadStatedb) txs =
        (context', .ok ()) →
      total context'.payloadGet =
        total (Context.new env metaStatedb payloadStatedb).payloadGet := by
  intro hconserved
  have hok : (((library payer).executor others address).executeTxs (context [(9, 1000)])
      payerTxs).2 = .ok () := by decide +kernel
  have hcalls : ∀ tx ∈ payerTxs, Library.Moneyed tx.tx.call := by
    unfold Library.Moneyed
    decide +kernel
  have htotal := hconserved (library payer) others address _ _ _ payerTxs _ hcalls
    (Prod.ext rfl hok)
  have hbefore : total (context [(9, 1000)]).payloadGet = 1000 := by
    change total (context [(9, 1000)]).payloadState.get = 1000
    have hkeys : ∀ key ∈ keys (context [(9, 1000)]).payloadState, keyPrefix <+: key →
        key ∈ [account 9].map balance.key := by decide +kernel
    rw [total_eq_sum (by decide) hkeys]
    decide +kernel
  have hafter : total (((library payer).executor others address).executeTxs
      (context [(9, 1000)]) payerTxs).1.payloadGet = 1050 := by
    change total (((library payer).executor others address).executeTxs
      (context [(9, 1000)]) payerTxs).1.payloadState.get = 1050
    have hkeys : ∀ key ∈ keys (((library payer).executor others address).executeTxs
        (context [(9, 1000)]) payerTxs).1.payloadState, keyPrefix <+: key →
        key ∈ [account 1, account 2, account 3, account 9].map balance.key := by
      decide +kernel
    rw [total_eq_sum (by decide) hkeys]
    decide +kernel
  exact absurd (hafter.symm.trans (htotal.trans hbefore)) (by decide)

end Sample

end Finastate.Contract
