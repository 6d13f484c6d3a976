import Finastate.Library.Ledger
import Mathlib.Algebra.Order.BigOperators.Group.Finset

/-!
# Ledgers with allowances

Beside a balance every account has, for each other one, an allowance: what that
one may take from it. An operation is made by one account, its actor. It moves
an amount of its own, sets an allowance of its own, or moves an amount of
another account that has allowed it so much.

A move reads both balances before it writes them, the recipient's last. Between
different accounts it is a `Ledger.Moved`, but from an account to itself it adds
the amount: the total of a ledger grows by what its accounts send to themselves,
and by nothing else. An account that does not act loses no more than what it has
allowed.
-/

namespace Ledger

structure Accounts (ι : Type*) where
  balance : ι → ℕ
  allowance : ι → ι → ℕ

inductive Op (ι : Type*)
  | transfer (sender recipient : ι) (value : ℕ)
  | approve (owner spender : ι) (value : ℕ)
  | transferFrom (spender sender recipient : ι) (value : ℕ)

variable {ι : Type*}

namespace Op

def actor : Op ι → ι
  | transfer sender _ _ => sender
  | approve owner _ _ => owner
  | transferFrom spender _ _ _ => spender

def Allowed (a : Accounts ι) : Op ι → Prop
  | transfer sender _ value => value ≤ a.balance sender
  | approve _ _ _ => True
  | transferFrom spender sender _ value =>
      value ≤ a.allowance sender spender ∧ value ≤ a.balance sender

end Op

variable [DecidableEq ι]

/-- `value` from the one account to the other. -/
def move (balance : ι → ℕ) (sender recipient : ι) (value : ℕ) : ι → ℕ :=
  Function.update (Function.update balance sender (balance sender - value)) recipient
    (balance recipient + value)

namespace Accounts

def approve (a : Accounts ι) (owner spender : ι) (value : ℕ) : Accounts ι where
  balance := a.balance
  allowance := Function.update a.allowance owner
    (Function.update (a.allowance owner) spender value)

def transfer (a : Accounts ι) (sender recipient : ι) (value : ℕ) : Accounts ι where
  balance := move a.balance sender recipient value
  allowance := a.allowance

end Accounts

namespace Op

def apply (a : Accounts ι) : Op ι → Accounts ι
  | transfer sender recipient value => a.transfer sender recipient value
  | approve owner spender value => a.approve owner spender value
  | transferFrom spender sender recipient value =>
      (a.transfer sender recipient value).approve sender spender
        (a.allowance sender spender - value)

/-- What the operation adds to the total. -/
def minted : Op ι → ℕ
  | transfer sender recipient value => if sender = recipient then value else 0
  | approve _ _ _ => 0
  | transferFrom _ sender recipient value => if sender = recipient then value else 0

end Op

/-- Allowed operations one after the other. -/
inductive Run : Accounts ι → List (Op ι) → Accounts ι → Prop
  | nil (a : Accounts ι) : Run a [] a
  | cons {a a' : Accounts ι} {op : Op ι} {ops : List (Op ι)} (hallowed : op.Allowed a)
      (h : Run (op.apply a) ops a') : Run a (op :: ops) a'

/-- What operations of actors with the property `P` can make of a ledger. -/
def Reaches (P : ι → Prop) (a a' : Accounts ι) : Prop :=
  ∃ ops, (∀ op ∈ ops, P op.actor) ∧ Run a ops a'

variable {a a' a'' : Accounts ι} {ops ops' : List (Op ι)} {sender recipient account : ι}
  {balance : ι → ℕ} {value : ℕ} {P P' : ι → Prop}

theorem Run.single {op : Op ι} (h : op.Allowed a) : Run a [op] (op.apply a) := .cons h (.nil _)

theorem Run.append (h : Run a ops a') (h' : Run a' ops' a'') : Run a (ops ++ ops') a'' := by
  induction h with
  | nil a => exact h'
  | cons hallowed h ih => exact .cons hallowed (ih h')

theorem Reaches.refl (P : ι → Prop) (a : Accounts ι) : Reaches P a a :=
  ⟨[], List.forall_mem_nil _, .nil a⟩

theorem Reaches.trans (h : Reaches P a a') (h' : Reaches P a' a'') : Reaches P a a'' := by
  obtain ⟨ops, hactors, hrun⟩ := h
  obtain ⟨ops', hactors', hrun'⟩ := h'
  refine ⟨ops ++ ops', ?_, hrun.append hrun'⟩
  intro op hop
  exact (List.mem_append.1 hop).elim (hactors op) (hactors' op)

theorem Reaches.single {op : Op ι} (hactor : P op.actor) (h : op.Allowed a) :
    Reaches P a (op.apply a) :=
  ⟨[op], List.forall_mem_singleton.2 hactor, .single h⟩

theorem Reaches.mono (h : Reaches P a a') (hP : ∀ i, P i → P' i) : Reaches P' a a' := by
  obtain ⟨ops, hactors, hrun⟩ := h
  exact ⟨ops, fun op hop => hP _ (hactors op hop), hrun⟩

/-! ### The total -/

theorem move_recipient : move balance sender recipient value recipient =
    balance recipient + value := by
  rw [move, Function.update_self]

theorem move_sender (hne : sender ≠ recipient) :
    move balance sender recipient value sender = balance sender - value := by
  rw [move, Function.update_of_ne hne, Function.update_self]

theorem move_of_ne (hs : account ≠ sender) (hr : account ≠ recipient) :
    move balance sender recipient value account = balance account := by
  rw [move, Function.update_of_ne hr, Function.update_of_ne hs]

theorem moved_move (hne : sender ≠ recipient) (h : value ≤ balance sender) :
    Moved balance (move balance sender recipient value) sender recipient value where
  ne := hne
  debit := by
    rw [move_sender hne]
    exact Nat.sub_add_cancel h
  credit := move_recipient
  frame := fun _ => move_of_ne

/-- Sent to itself, the amount is added. -/
theorem move_self : move balance sender sender value =
    fun i => balance i + if i = sender then value else 0 := by
  funext i
  by_cases hi : i = sender
  · subst hi
    rw [move_recipient, if_pos rfl]
  · rw [move_of_ne hi hi, if_neg hi, add_zero]

theorem support_move_finite (hfin : (Function.support balance).Finite) :
    (Function.support (move balance sender recipient value)).Finite := by
  refine (hfin.union (Set.toFinite {sender, recipient})).subset ?_
  refine support_subset_union fun i hi => (move_of_ne ?_ ?_).symm
  · exact fun hs => hi (Or.inl hs)
  · exact fun hr => hi (Or.inr hr)

theorem total_move (hfin : (Function.support balance).Finite) (h : value ≤ balance sender) :
    total (move balance sender recipient value) =
      total balance + if sender = recipient then value else 0 := by
  by_cases hne : sender = recipient
  · subst hne
    have hone : (Function.support fun i => if i = sender then value else 0).Finite :=
      (Set.finite_singleton sender).subset fun i hi => by
        by_contra hne
        exact hi (if_neg hne)
    rw [move_self, total, total, if_pos rfl, finsum_add_distrib hfin hone]
    congr 1
    rw [finsum_eq_single _ sender fun i hi => if_neg hi, if_pos rfl]
  · rw [(moved_move hne h).total_eq, if_neg hne, add_zero]

theorem Op.support_apply_finite (op : Op ι) (hfin : (Function.support a.balance).Finite) :
    (Function.support (op.apply a).balance).Finite := by
  cases op with
  | transfer sender recipient value => exact support_move_finite hfin
  | approve owner spender value => exact hfin
  | transferFrom spender sender recipient value => exact support_move_finite hfin

theorem Op.total_apply {op : Op ι} (hallowed : op.Allowed a)
    (hfin : (Function.support a.balance).Finite) :
    total (op.apply a).balance = total a.balance + op.minted := by
  cases op with
  | transfer sender recipient value => exact total_move hfin hallowed
  | approve owner spender value => rfl
  | transferFrom spender sender recipient value => exact total_move hfin hallowed.2

/-- The total grows by what accounts send to themselves. -/
theorem Run.total_eq (h : Run a ops a') (hfin : (Function.support a.balance).Finite) :
    total a'.balance = total a.balance + (ops.map Op.minted).sum := by
  induction h with
  | nil a => rfl
  | @cons a a' op ops hallowed h ih =>
      rw [ih (op.support_apply_finite hfin), Op.total_apply hallowed hfin, List.map_cons,
        List.sum_cons, add_assoc]

/-! ### Accounts that do not act -/

theorem le_move (hs : account ≠ sender) :
    balance account ≤ move balance sender recipient value account := by
  by_cases hr : account = recipient
  · subst hr
    rw [move_recipient]
    exact Nat.le_add_right _ _
  · rw [move_of_ne hs hr]

theorem balance_le_move_add : balance account ≤
    move balance account recipient value account + value := by
  by_cases hr : account = recipient
  · subst hr
    rw [move_recipient]
    omega
  · rw [move_sender hr]
    omega

theorem Accounts.allowance_approve_of_ne {owner spender : ι} (hne : account ≠ owner) :
    (a.approve owner spender value).allowance account = a.allowance account :=
  Function.update_of_ne hne _ _

/-- What the spenders may take of an account falls by what one of them takes. -/
theorem sum_allowance_approve {spenders : Finset ι} {spender : ι} (hmem : spender ∈ spenders)
    (h : value ≤ a.allowance account spender) :
    ∑ i ∈ spenders,
        (a.approve account spender (a.allowance account spender - value)).allowance account i +
        value = ∑ i ∈ spenders, a.allowance account i := by
  have hrest : ∑ i ∈ spenders.erase spender,
        (a.approve account spender (a.allowance account spender - value)).allowance account i =
      ∑ i ∈ spenders.erase spender, a.allowance account i := by
    apply Finset.sum_congr rfl
    intro i hi
    simp only [Accounts.approve, Function.update_self]
    exact Function.update_of_ne (Finset.ne_of_mem_erase hi) _ _
  have hspender :
      (a.approve account spender (a.allowance account spender - value)).allowance account spender =
        a.allowance account spender - value := by
    simp only [Accounts.approve, Function.update_self]
  rw [← Finset.add_sum_erase _ _ hmem, ← Finset.add_sum_erase _ (a.allowance account) hmem, hrest,
    hspender]
  omega

/-- What an account has, less what others may take of it, does not fall when
another account acts. -/
theorem Op.balance_add_le {op : Op ι} (hallowed : op.Allowed a) (hne : op.actor ≠ account)
    {spenders : Finset ι} (hmem : op.actor ∈ spenders) :
    a.balance account + ∑ i ∈ spenders, (op.apply a).allowance account i ≤
      (op.apply a).balance account + ∑ i ∈ spenders, a.allowance account i := by
  cases op with
  | transfer sender recipient value => exact Nat.add_le_add_right (le_move hne.symm) _
  | approve owner spender value =>
      refine Nat.add_le_add_left (le_of_eq (Finset.sum_congr rfl fun i _ => ?_)) _
      exact congrFun (Accounts.allowance_approve_of_ne hne.symm) i
  | transferFrom spender sender recipient value =>
      by_cases hs : account = sender
      · subst hs
        have hspender : spender ∈ spenders := hmem
        have hsum := sum_allowance_approve hspender hallowed.1
        have hbalance : a.balance account ≤
            move a.balance account recipient value account + value := balance_le_move_add
        change a.balance account + ∑ i ∈ spenders,
          (a.approve account spender (a.allowance account spender - value)).allowance account i ≤
            move a.balance account recipient value account + _
        omega
      · refine Nat.add_le_add (le_move hs) (le_of_eq (Finset.sum_congr rfl fun i _ => ?_))
        exact congrFun (Accounts.allowance_approve_of_ne hs) i

theorem Run.balance_add_le (h : Run a ops a') (hne : ∀ op ∈ ops, op.actor ≠ account)
    {spenders : Finset ι} (hmem : ∀ op ∈ ops, op.actor ∈ spenders) :
    a.balance account + ∑ i ∈ spenders, a'.allowance account i ≤
      a'.balance account + ∑ i ∈ spenders, a.allowance account i := by
  induction h with
  | nil a => exact le_rfl
  | @cons a a' op ops hallowed h ih =>
      obtain ⟨hop, hops⟩ := List.forall_mem_cons.1 hne
      obtain ⟨hopmem, hopsmem⟩ := List.forall_mem_cons.1 hmem
      have hstep := Op.balance_add_le hallowed hop hopmem
      have hrest := ih hops hopsmem
      omega

/-- An account that does not act loses no more than it has allowed the actors. -/
theorem Run.balance_le (h : Run a ops a') (hne : ∀ op ∈ ops, op.actor ≠ account) :
    a.balance account ≤
      a'.balance account + ∑ i ∈ (ops.map Op.actor).toFinset, a.allowance account i := by
  have hmem : ∀ op ∈ ops, op.actor ∈ (ops.map Op.actor).toFinset := fun op hop =>
    List.mem_toFinset.2 (List.mem_map_of_mem hop)
  have hle := h.balance_add_le hne hmem
  omega

end Ledger
