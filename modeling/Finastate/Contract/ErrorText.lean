import Finastate.Contract.Import

/-!
# Errors as texts

A contract gives its error to the host as a text, and an error aware call gives
the error of the callee to the caller as a text. Both are read with
`ContractError::from`. The text after the first `": "` is cut off behind the
colon, so it keeps a space, and the text of an error aware call also has the
name of the enumeration in front.
-/

namespace Finastate.Vm

namespace ContractError

/-- The variants that are displayed with their name and a message. -/
def Prefixed : ContractError → Prop
  | transfer _ => True
  | panic _ => True
  | _ => False

/-- A user message is not itself the text of another variant. -/
def Plain : ContractError → Prop
  | user msg => ∀ e : ContractError, e.toString = msg → e = user msg
  | _ => True

/-! ## Reading a text -/

theorem splitColon_eq_some {l before after : List Char} (h : splitColon l = some (before, after)) :
    ∃ rest, after = ' ' :: rest ∧ l = before ++ ':' :: after := by
  induction l generalizing before with
  | nil => cases h
  | cons c l ih =>
      unfold splitColon at h
      split at h
      · cases h
      · next heq =>
        cases heq
        cases h
        exact ⟨_, rfl, rfl⟩
      · next heq =>
        cases heq
        obtain ⟨⟨b, a⟩, hsplit, hpair⟩ := Option.map_eq_some_iff.1 h
        cases hpair
        obtain ⟨rest, hafter, hl⟩ := ih hsplit
        exact ⟨rest, hafter, by rw [hl]; rfl⟩

theorem splitColon_append {before : List Char} (h : ':' ∉ before) (rest : List Char) :
    splitColon (before ++ ':' :: ' ' :: rest) = some (before, ' ' :: rest) := by
  induction before with
  | nil => rfl
  | cons c before ih =>
      rw [List.mem_cons, not_or] at h
      have hc : c ≠ ':' := Ne.symm h.1
      rw [List.cons_append, splitColon]
      · rw [ih h.2]
        rfl
      · exact fun _ heq => absurd heq hc

/-- A text with `": "` in it is the name of no variant. -/
theorem ofString_of_splitColon {v : String} {before after : List Char}
    (h : splitColon v.toList = some (before, after)) :
    ofString v =
      match String.ofList before with
      | "Panic" => panic (String.ofList after)
      | "Transfer" => transfer (String.ofList after)
      | _ => user v := by
  unfold ofString
  split
  iterate 14 exact nomatch h
  generalize splitColon v.toList = parts at h ⊢
  subst h
  rfl

theorem ofString_of_forall_ne {v : String} {before after : List Char}
    (h : splitColon v.toList = some (before, after)) (hpanic : String.ofList before ≠ "Panic")
    (htransfer : String.ofList before ≠ "Transfer") : ofString v = user v := by
  rw [ofString_of_splitColon h]
  split
  · next heq => exact absurd heq hpanic
  · next heq => exact absurd heq htransfer
  · rfl

/-- A plain message is read as it is. -/
theorem ofString_user {msg : String} (h : (user msg).Plain) : ofString msg = user msg := by
  cases hsplit : splitColon msg.toList with
  | none =>
      unfold ofString
      split
      iterate 14 exact h _ rfl
      rw [hsplit]
  | some parts =>
      obtain ⟨before, after⟩ := parts
      obtain ⟨rest, rfl, hl⟩ := splitColon_eq_some hsplit
      -- With the name of a variant in front it would be the text of that variant.
      have hprefix : ∀ name : String, before = name.toList →
          msg = name ++ ": " ++ String.ofList rest := by
        intro name hname
        rw [← String.toList_inj, hl, hname]
        simp
      apply ofString_of_forall_ne hsplit
      · intro hname
        have htext := hprefix "Panic" (by rw [← hname, String.toList_ofList])
        cases h (panic (String.ofList rest)) htext.symm
      · intro hname
        have htext := hprefix "Transfer" (by rw [← hname, String.toList_ofList])
        cases h (transfer (String.ofList rest)) htext.symm

/-- A name and a message are split with the space in front of the message. -/
theorem splitColon_prefixed (name : String) (hname : ':' ∉ name.toList) (msg : String) :
    splitColon (name ++ ": " ++ msg).toList = some (name.toList, (" " ++ msg).toList) := by
  have htext : (name ++ ": " ++ msg).toList = name.toList ++ ':' :: ' ' :: msg.toList := by simp
  rw [htext, splitColon_append hname]
  simp

/-- A message behind a name is read with a space in front of it. -/
theorem ofString_panic (msg : String) : ofString (panic msg).toString = panic (" " ++ msg) := by
  have hsplit := splitColon_prefixed "Panic" (by decide) msg
  rw [toString, show "Panic: " = "Panic" ++ ": " from rfl, ofString_of_splitColon hsplit,
    String.ofList_toList, String.ofList_toList]
  rfl

theorem ofString_transfer (msg : String) :
    ofString (transfer msg).toString = transfer (" " ++ msg) := by
  have hsplit := splitColon_prefixed "Transfer" (by decide) msg
  rw [toString, show "Transfer: " = "Transfer" ++ ": " from rfl, ofString_of_splitColon hsplit,
    String.ofList_toList, String.ofList_toList]
  rfl

theorem ofString_contractError (text : String) :
    ofString ("ContractError: " ++ text) = user ("ContractError: " ++ text) := by
  have hsplit := splitColon_prefixed "ContractError" (by decide) text
  rw [show "ContractError: " = "ContractError" ++ ": " from rfl]
  apply ofString_of_forall_ne hsplit
  · rw [String.ofList_toList]
    decide
  · rw [String.ofList_toList]
    decide

theorem length_space (msg : String) : (" " ++ msg).length = msg.length + 1 := by
  rw [String.length_append, Nat.add_comm]
  rfl

/-- Reading what has been displayed gives the error back, but for the variants
with a name in front of their message. -/
theorem ofString_toString_iff {e : ContractError} (h : e.Plain) :
    ofString e.toString = e ↔ ¬ e.Prefixed := by
  cases e with
  | panic msg =>
      rw [ofString_panic]
      simp only [Prefixed, not_true_eq_false, iff_false]
      intro heq
      have hlength := congrArg String.length (ContractError.panic.inj heq)
      rw [length_space] at hlength
      exact absurd hlength (Nat.succ_ne_self _)
  | transfer msg =>
      rw [ofString_transfer]
      simp only [Prefixed, not_true_eq_false, iff_false]
      intro heq
      have hlength := congrArg String.length (ContractError.transfer.inj heq)
      rw [length_space] at hlength
      exact absurd hlength (Nat.succ_ne_self _)
  | user msg => exact iff_of_true (ofString_user h) id
  | _ => exact iff_of_true rfl id

/-! ## The ways of a text -/

/-- `from_error_aware` of a contract, for the text that an error aware call has
left: the error of the callee as the caller sees it. -/
def fromErrorAware (error : Bytes) : ContractError :=
  match String.fromUTF8? ⟨error.toArray⟩ with
  | none => badUTF8
  | some error => ofString error

/-- The error of a callee at the host that runs the outermost of `n` callers,
each of which has got it from an error aware call and returned it with
`error_return`. -/
def passedUp (e : ContractError) : Nat → ContractError
  | 0 => e
  | n + 1 =>
      ofString (fromErrorAware
        (asBytes (ApplicationError.contractError (e.passedUp n)).toString)).toString

theorem fromUTF8?_asBytes (text : String) :
    String.fromUTF8? ⟨(asBytes text).toArray⟩ = some text := by
  have hbytes : (⟨(asBytes text).toArray⟩ : ByteArray) = text.toUTF8 := by
    rw [asBytes, ByteArray.toList, toList_loop]
    simp
  rw [hbytes]
  exact dif_pos text.isValidUTF8

/-- Behind the name of the enumeration every error is a user error, for the
caller and for the host of the caller. -/
theorem passedUp_succ (e : ContractError) (n : Nat) :
    e.passedUp (n + 1) = user ("ContractError: " ++ (e.passedUp n).toString) := by
  have hreceived : fromErrorAware
      (asBytes (ApplicationError.contractError (e.passedUp n)).toString) =
        user ("ContractError: " ++ (e.passedUp n).toString) := by
    rw [fromErrorAware, fromUTF8?_asBytes]
    exact ofString_contractError _
  rw [passedUp, hreceived]
  exact ofString_contractError _

theorem length_toString_passedUp (e : ContractError) (n : Nat) :
    e.toString.length ≤ (e.passedUp n).toString.length := by
  induction n with
  | zero => exact le_rfl
  | succ n ih =>
      rw [passedUp_succ, toString, String.length_append]
      exact ih.trans (Nat.le_add_left _ _)

/-- No caller sees the error that the callee returned. -/
theorem passedUp_eq_iff (e : ContractError) (n : Nat) : e.passedUp n = e ↔ n = 0 := by
  cases n with
  | zero => exact iff_of_true rfl rfl
  | succ n =>
      refine iff_of_false ?_ (Nat.succ_ne_zero n)
      intro heq
      have hlength := congrArg (fun e : ContractError => e.toString.length) heq
      have htext : ∀ text, (user text).toString = text := fun _ => rfl
      have hname : "ContractError: ".length = 15 := by decide
      have hle := length_toString_passedUp e n
      simp only [passedUp_succ, htext, String.length_append, hname] at hlength
      omega

end ContractError

end Finastate.Vm

namespace Finastate.Contract

open Vm

theorem errorReturn_asBytes (e : ContractError) :
    errorReturn (asBytes e.toString) = .contract (.ofString e.toString) := by
  rw [errorReturn, ContractError.fromUTF8?_asBytes]

/-- An error arrives as it was, read from its own text, returned to the host by
`error_return`, and passed up through `n` callers as text. -/
structure Transported (e : ContractError) (n : Nat) : Prop where
  displayed : ContractError.ofString e.toString = e
  returned : errorReturn (asBytes e.toString) = .contract e
  passedUp : e.passedUp n = e

theorem transported_iff (e : ContractError) (h : e.Plain) (n : Nat) :
    Transported e n ↔ ¬ e.Prefixed ∧ n = 0 := by
  have hread := ContractError.ofString_toString_iff h
  constructor
  · intro ht
    exact ⟨hread.1 ht.displayed, (ContractError.passedUp_eq_iff e n).1 ht.passedUp⟩
  · rintro ⟨hprefixed, hn⟩
    have hdisplayed := hread.2 hprefixed
    refine ⟨hdisplayed, ?_, (ContractError.passedUp_eq_iff e n).2 hn⟩
    rw [errorReturn_asBytes, hdisplayed]

/-- A user message that is the name of a variant without the rest of its text. -/
theorem plain_panic : (ContractError.user "Panic").Plain := by
  have hlength : ∀ name msg : String, 5 < name.length → name ++ msg ≠ "Panic" := by
    intro name msg hlt heq
    have hlength := congrArg String.length heq
    have hpanic : "Panic".length = 5 := by decide
    rw [String.length_append, hpanic] at hlength
    omega
  intro e he
  cases e with
  | user msg => exact congrArg ContractError.user he
  | panic msg => exact absurd he (hlength "Panic: " msg (by decide))
  | transfer msg => exact absurd he (hlength "Transfer: " msg (by decide))
  | _ => exact absurd he (by decide)

theorem transported_user : Transported (.user "Panic") 0 :=
  (transported_iff _ plain_panic 0).2 ⟨id, rfl⟩

/-- The panic of `abort` arrives with a space in front of its message. -/
theorem not_transported_abort : ¬ ∀ (e : ContractError) (n : Nat), e.Plain → Transported e n := by
  intro h
  have hpanic := (h (.panic "AssemblyScript panic") 0 trivial).displayed
  revert hpanic
  decide +kernel

end Finastate.Contract
