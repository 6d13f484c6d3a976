import Finastate.Library.Overlay
import Mathlib.Data.List.Infix
import Mathlib.Logic.Function.Basic
import Mathlib.Tactic.Common

/-!
# Transactions inside transactions

A transaction works on a copy of its own. The copy is made from that of the
enclosing transaction when it starts, replaces it when it commits and is
dropped when it aborts. Beside the map a copy has the events emitted so far.
`Step` and `Run` say this on a list of copies, the innermost first. Nothing
that is done in a transaction reaches the copies below it before it commits,
also if a transaction starts on a copy that is not its encloser's (`Loose`).

Layers of pending writes are an implementation: the copies are what is read
through the layers (`copies`), a start is an empty layer in front, a commit
folds the first layer into the next one and an abort drops it. A key that no
`embed k` hits can be written in any layer without a copy noticing.
-/

namespace Savepoint

variable {κ κ' ν ε : Type*}

structure Copy (κ ν ε : Type*) where
  get : κ → Option ν
  events : List ε

inductive Op (κ ν ε : Type*) where
  | read (key : κ) (value : Option ν)
  | write (key : κ) (value : Option ν)
  | emit (event : ε)
  | start
  | commit
  | abort
  deriving DecidableEq

section Run

variable [DecidableEq κ]

/-- What a read answers is what the copy of the running transaction has. -/
inductive Step : List (Copy κ ν ε) → Op κ ν ε → List (Copy κ ν ε) → Prop
  | read (c : Copy κ ν ε) (cs : List (Copy κ ν ε)) (key : κ) :
      Step (c :: cs) (.read key (c.get key)) (c :: cs)
  | write (c : Copy κ ν ε) (cs : List (Copy κ ν ε)) (key : κ) (value : Option ν) :
      Step (c :: cs) (.write key value)
        ({ c with get := Function.update c.get key value } :: cs)
  | emit (c : Copy κ ν ε) (cs : List (Copy κ ν ε)) (event : ε) :
      Step (c :: cs) (.emit event) ({ c with events := c.events ++ [event] } :: cs)
  | start (c : Copy κ ν ε) (cs : List (Copy κ ν ε)) : Step (c :: cs) .start (c :: c :: cs)
  | commit (c c' : Copy κ ν ε) (cs : List (Copy κ ν ε)) :
      Step (c :: c' :: cs) .commit (c :: cs)
  | abort (c c' : Copy κ ν ε) (cs : List (Copy κ ν ε)) :
      Step (c :: c' :: cs) .abort (c' :: cs)

/-- The operations of the list one after the other. -/
inductive Run : List (Copy κ ν ε) → List (Op κ ν ε) → List (Copy κ ν ε) → Prop
  | nil (cs : List (Copy κ ν ε)) : Run cs [] cs
  | cons {cs cs' cs'' : List (Copy κ ν ε)} {op : Op κ ν ε} {ops : List (Op κ ν ε)}
      (hstep : Step cs op cs') (hrun : Run cs' ops cs'') : Run cs (op :: ops) cs''

variable {cs cs' cs'' base : List (Copy κ ν ε)} {op : Op κ ν ε}
  {ops ops' : List (Op κ ν ε)}

theorem Run.single (h : Step cs op cs') : Run cs [op] cs' := .cons h (.nil cs')

theorem run_nil_iff : Run cs [] cs' ↔ cs' = cs := by
  constructor
  · intro h
    cases h
    rfl
  · rintro rfl
    exact .nil cs'

theorem run_single_iff : Run cs [op] cs' ↔ Step cs op cs' := by
  constructor
  · intro h
    cases h with
    | cons hstep hrun => rwa [run_nil_iff.1 hrun]
  · exact .single

theorem Step.exists_start (h : Step cs .start cs') : ∃ c, cs' = c :: cs := by
  cases h with
  | start c cs => exact ⟨c, rfl⟩

theorem Run.append (h : Run cs ops cs') (h' : Run cs' ops' cs'') :
    Run cs (ops ++ ops') cs'' := by
  induction h with
  | nil cs => exact h'
  | cons hstep hrun ih => exact .cons hstep (ih h')

/-- As long as a transaction above the copies `base` runs, they stay. -/
theorem Step.suffix (h : Step cs op cs') (hbase : base <:+ cs)
    (hlength : base.length < cs.length) (hlength' : base.length < cs'.length) :
    base <:+ cs' := by
  have htail : ∀ {c : Copy κ ν ε} {rest : List (Copy κ ν ε)}, base <:+ c :: rest →
      base.length < (c :: rest).length → base <:+ rest := by
    intro c rest hsuffix hlt
    rcases List.suffix_cons_iff.1 hsuffix with rfl | hrest
    · exact absurd hlt (lt_irrefl _)
    · exact hrest
  cases h with
  | read c cs key => exact hbase
  | write c cs key value => exact (htail hbase hlength).trans (List.suffix_cons _ _)
  | emit c cs event => exact (htail hbase hlength).trans (List.suffix_cons _ _)
  | start c cs => exact hbase.trans (List.suffix_cons _ _)
  | commit c c' cs => exact (htail (htail hbase hlength) hlength').trans (List.suffix_cons _ _)
  | abort c c' cs => exact htail hbase hlength

/-- A step, or the start of a transaction on whatever copy. -/
inductive Loose : List (Copy κ ν ε) → Op κ ν ε → List (Copy κ ν ε) → Prop
  | step {cs cs' : List (Copy κ ν ε)} {op : Op κ ν ε} (h : Step cs op cs') : Loose cs op cs'
  | start (c : Copy κ ν ε) (cs : List (Copy κ ν ε)) : Loose cs .start (c :: cs)

theorem Loose.exists_start (h : Loose cs .start cs') : ∃ c, cs' = c :: cs := by
  cases h with
  | step h => exact h.exists_start
  | start c cs => exact ⟨c, rfl⟩

theorem Loose.suffix (h : Loose cs op cs') (hbase : base <:+ cs)
    (hlength : base.length < cs.length) (hlength' : base.length < cs'.length) :
    base <:+ cs' := by
  cases h with
  | step h => exact h.suffix hbase hlength hlength'
  | start c cs => exact hbase.trans (List.suffix_cons _ _)

/-- Operations all of which find more than `n` copies. -/
inductive Above (n : ℕ) :
    List (Copy κ ν ε) → List (Op κ ν ε) → List (Copy κ ν ε) → Prop
  | nil {cs : List (Copy κ ν ε)} (hlength : n < cs.length) : Above n cs [] cs
  | cons {cs cs' cs'' : List (Copy κ ν ε)} {op : Op κ ν ε} {ops : List (Op κ ν ε)}
      (hlength : n < cs.length) (hstep : Loose cs op cs') (hrun : Above n cs' ops cs'') :
      Above n cs (op :: ops) cs''

namespace Above

variable {n : ℕ}

theorem length (h : Above n cs ops cs') : n < cs.length := by
  cases h with
  | nil hlength => exact hlength
  | cons hlength hstep hrun => exact hlength

theorem single (h : Loose cs op cs') (hlength : n < cs.length) (hlength' : n < cs'.length) :
    Above n cs [op] cs' :=
  .cons hlength h (.nil hlength')

theorem append (h : Above n cs ops cs') (h' : Above n cs' ops' cs'') :
    Above n cs (ops ++ ops') cs'' := by
  induction h with
  | nil hlength => exact h'
  | cons hlength hstep hrun ih => exact .cons hlength hstep (ih h')

/-- Operations none of which ends a transaction. -/
theorem of_run (h : Run cs ops cs') (hops : ∀ op ∈ ops, op ≠ .commit ∧ op ≠ .abort)
    (hlength : n < cs.length) : Above n cs ops cs' := by
  induction h with
  | nil cs => exact .nil hlength
  | @cons cs cs' cs'' op ops hstep hrun ih =>
      refine .cons hlength (.step hstep) (ih (fun op hop => hops op (List.mem_cons_of_mem _ hop)) ?_)
      obtain ⟨hcommit, habort⟩ := hops op List.mem_cons_self
      cases hstep with
      | read c cs key => exact hlength
      | write c cs key value => exact hlength
      | emit c cs event => exact hlength
      | start c cs => exact Nat.lt_succ_of_lt hlength
      | commit c c' cs => exact absurd rfl hcommit
      | abort c c' cs => exact absurd rfl habort

theorem suffix (h : Above base.length cs ops cs') (hbase : base <:+ cs) : base <:+ cs' := by
  induction h with
  | nil hlength => exact hbase
  | cons hlength hstep hrun ih => exact ih (hstep.suffix hbase hlength hrun.length)

/-- Whatever is done inside a transaction that aborts, its end finds the copies
as its start has found them. -/
theorem abort {c : Copy κ ν ε} (h : Above base.length (c :: base) ops cs)
    (hend : Loose cs .abort cs') (hlength : cs'.length = base.length) : cs' = base := by
  have hsuffix := h.suffix (List.suffix_cons c base)
  cases hend with
  | step hstep =>
      cases hstep with
      | abort c c' cs =>
          rcases List.suffix_cons_iff.1 hsuffix with rfl | hrest
          · simp at hlength
          · exact (hrest.eq_of_length hlength.symm).symm

end Above

end Run

section Layers

open Overlay

/-- The layer of a transaction and its events. -/
abbrev Pending (κ ν ε : Type*) := Layer κ ν × List ε

variable [DecidableEq κ] (embed : κ' → κ)

variable (store : κ → Option ν) (events : List ε) (ps : List (Pending κ ν ε))

/-- What is read through the layers. -/
def copy : Copy κ' ν ε where
  get := fun k => read store (ps.map Prod.fst) (embed k)
  events := events ++ (ps.reverse.map Prod.snd).flatten

/-- What is read through the layers, through all but the first, and so on down
to the store. -/
def copies : List (Pending κ ν ε) → List (Copy κ' ν ε)
  | [] => [copy embed store events []]
  | p :: ps => copy embed store events (p :: ps) :: copies ps

@[simp] theorem length_copies : (copies embed store events ps).length = ps.length + 1 := by
  induction ps with
  | nil => rfl
  | cons p ps ih => simp [copies, ih]

theorem exists_copies :
    ∃ cs, copies embed store events ps = copy embed store events ps :: cs := by
  cases ps with
  | nil => exact ⟨[], rfl⟩
  | cons p ps => exact ⟨copies embed store events ps, rfl⟩

theorem copy_empty_cons :
    copy embed store events (([], []) :: ps) = copy embed store events ps := by
  simp [copy]

theorem copy_insert_cons (hinj : Function.Injective embed) (layer : Layer κ ν) (es : List ε)
    [DecidableEq κ'] (key : κ') (value : Option ν) :
    copy embed store events ((AssocMap.insert layer (embed key) value, es) :: ps) =
      { copy embed store events ((layer, es) :: ps) with
        get := Function.update (copy embed store events ((layer, es) :: ps)).get key value } := by
  simp only [copy, Copy.mk.injEq, List.map_cons]
  constructor
  · funext k
    rw [read_insert_cons, Function.update_apply]
    simp only [hinj.eq_iff]
  · simp

theorem copy_events_cons (layer : Layer κ ν) (es : List ε) (event : ε) :
    copy embed store events ((layer, es ++ [event]) :: ps) =
      { copy embed store events ((layer, es) :: ps) with
        events := (copy embed store events ((layer, es) :: ps)).events ++ [event] } := by
  simp [copy]

/-- Folding the first layer into the next one. -/
theorem copy_extend_cons (lower upper : Layer κ ν) (es es' : List ε) :
    copy embed store events ((AssocMap.extend lower upper, es ++ es') :: ps) =
      copy embed store events ((upper, es') :: (lower, es) :: ps) := by
  simp only [copy, Copy.mk.injEq, List.map_cons, read_extend_cons, true_and]
  simp

/-- Folding the last layer into the store. -/
theorem copy_store {store' : κ → Option ν} (layer : Layer κ ν) (es : List ε)
    (hstore : ∀ k, store' (embed k) = (AssocMap.get? layer (embed k)).getD (store (embed k))) :
    copy embed store' (events ++ es) [] = copy embed store events [(layer, es)] := by
  simp only [copy, Copy.mk.injEq, List.map_nil, List.reverse_nil, List.flatten_nil]
  constructor
  · funext k
    exact hstore k
  · simp

/-- Two layers that differ in keys which no `embed k` hits. -/
structure Same (p p' : Pending κ ν ε) : Prop where
  get : ∀ k, AssocMap.get? p'.1 (embed k) = AssocMap.get? p.1 (embed k)
  events : p'.2 = p.2

variable {embed store events ps} {store' : κ → Option ν} {ps' : List (Pending κ ν ε)}

theorem Same.refl (p : Pending κ ν ε) : Same embed p p := ⟨fun _ => rfl, rfl⟩

theorem copy_congr (hstore : ∀ k, store' (embed k) = store (embed k))
    (hlayers : List.Forall₂ (Same embed) ps ps') :
    copy embed store' events ps' = copy embed store events ps := by
  simp only [copy, Copy.mk.injEq]
  constructor
  · funext k
    induction hlayers with
    | nil => exact hstore k
    | cons hsame hrest ih =>
        rw [List.map_cons, List.map_cons, read_cons, read_cons, hsame.get k, ih]
  · have hevents : ps'.map Prod.snd = ps.map Prod.snd := by
      induction hlayers with
      | nil => rfl
      | cons hsame hrest ih => rw [List.map_cons, List.map_cons, hsame.events, ih]
    rw [List.map_reverse, List.map_reverse, hevents]

theorem copies_congr (hstore : ∀ k, store' (embed k) = store (embed k))
    (hlayers : List.Forall₂ (Same embed) ps ps') :
    copies embed store' events ps' = copies embed store events ps := by
  induction hlayers with
  | nil => rw [copies, copies, copy_congr hstore .nil]
  | cons hsame hrest ih => rw [copies, copies, copy_congr hstore (.cons hsame hrest), ih]

variable [DecidableEq κ']

theorem step_read (key : κ') (value : Option ν)
    (hvalue : value = read store (ps.map Prod.fst) (embed key)) :
    Step (copies embed store events ps) (.read key value) (copies embed store events ps) := by
  obtain ⟨cs, hcs⟩ := exists_copies embed store events ps
  rw [hcs, hvalue]
  exact .read _ cs key

theorem step_write (hinj : Function.Injective embed) (layer : Layer κ ν) (es : List ε)
    (key : κ') (value : Option ν) :
    Step (copies embed store events ((layer, es) :: ps)) (.write key value)
      (copies embed store events ((AssocMap.insert layer (embed key) value, es) :: ps)) := by
  rw [copies, copies, copy_insert_cons embed store events ps hinj]
  exact .write _ _ key value

theorem step_emit (layer : Layer κ ν) (es : List ε) (event : ε) :
    Step (copies embed store events ((layer, es) :: ps)) (.emit event)
      (copies embed store events ((layer, es ++ [event]) :: ps)) := by
  rw [copies, copies, copy_events_cons]
  exact .emit _ _ event

theorem step_start :
    Step (copies embed store events ps) .start (copies embed store events (([], []) :: ps)) := by
  obtain ⟨cs, hcs⟩ := exists_copies embed store events ps
  rw [copies, copy_empty_cons, hcs]
  exact .start _ cs

theorem step_commit (lower upper : Layer κ ν) (es es' : List ε) :
    Step (copies embed store events ((upper, es') :: (lower, es) :: ps)) .commit
      (copies embed store events ((AssocMap.extend lower upper, es ++ es') :: ps)) := by
  rw [copies, copies, copies, copy_extend_cons]
  exact .commit _ _ _

theorem step_commit_store (embed : κ' → κ) (layer : Layer κ ν) (es : List ε)
    (hstore : ∀ k, store' (embed k) = (AssocMap.get? layer (embed k)).getD (store (embed k))) :
    Step (copies embed store events [(layer, es)]) .commit
      (copies embed store' (events ++ es) []) := by
  rw [copies, copies, copies, copy_store embed store events layer es hstore]
  exact .commit _ _ _

theorem step_abort (embed : κ' → κ) (p : Pending κ ν ε) :
    Step (copies embed store events (p :: ps)) .abort (copies embed store events ps) := by
  obtain ⟨cs, hcs⟩ := exists_copies embed store events ps
  rw [copies, hcs]
  exact .abort _ _ cs

end Layers

end Savepoint
