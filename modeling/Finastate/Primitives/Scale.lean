import Finastate.Primitives.RoundTrip

/-!
# The SCALE encoding of a type

What `Encode` and `Decode` are for a type, together with the law that a value
is read back from what was written and that the bytes after it are left alone.
The derived encoding of a structure is that of its fields one after another, and
an enum writes the tag of its variant first. So the encodings of the messages are
put together from a few encodings, and each of them comes with its law.
-/

namespace Finastate.Codec

/-- `Encode` and `Decode`. `Typed` tells which numbers the type of the source has, and
`encode` has no result where it panics, on a collection that is too long for its length.
`Short` are the values without such a collection. -/
structure Scale (α : Type) where
  Typed : α → Prop
  Short : α → Prop
  encode : α → Option Bytes
  decode : Decoder α
  isSome_encode : ∀ x, Short x → (encode x).isSome = true
  decode_encode : ∀ x, Typed x → ∀ bs, encode x = some bs →
    ∀ rest, decode (bs ++ rest) = some (x, rest)

/-- `compact_encode_len_to`, which is expected to succeed. -/
def encodeLen (len : Nat) : Option Bytes :=
  if len < 2 ^ 32 then some (encodeCompact len) else none

theorem isSome_encodeLen {len : Nat} (h : len < 2 ^ 32) : (encodeLen len).isSome = true := by
  rw [encodeLen, if_pos h]
  rfl

theorem decodeCompact_encodeLen {len : Nat} {bs : Bytes} (h : encodeLen len = some bs)
    (rest : Bytes) : decodeCompact (bs ++ rest) = some (len, rest) := by
  obtain ⟨hlt, heq⟩ := Option.ite_none_right_eq_some.1 h
  cases heq
  exact roundTrip_compact len hlt rest

namespace Scale

variable {α β : Type}

/-- An encoding that never panics. -/
def total (Typed : α → Prop) (encode : α → Bytes) (decode : Decoder α)
    (h : RoundTrip encode decode Typed) : Scale α where
  Typed := Typed
  Short _ := True
  encode x := some (encode x)
  decode := decode
  isSome_encode _ _ := rfl
  decode_encode := by
    intro x hx bs hbs rest
    cases hbs
    exact h x hx rest

def u64 : Scale Nat := total U64 encodeU64 decodeU64 roundTrip_u64

def u32 : Scale Nat := total U32 (encodeLe 4) decodeU32 roundTrip_u32

def u8 : Scale UInt8 :=
  total (fun _ => True) (fun b => [b]) (fun | [] => none | b :: input => some (b, input))
    fun _ _ _ => rfl

/-- `()`, a variant without fields. -/
def unit : Scale Unit :=
  total (fun _ => True) (fun _ => []) (fun input => some ((), input)) fun _ _ _ => rfl

/-- A field after another. -/
def pair (a : Scale α) (b : Scale β) : Scale (α × β) where
  Typed x := a.Typed x.1 ∧ b.Typed x.2
  Short x := a.Short x.1 ∧ b.Short x.2
  encode x := do
    let bs ← a.encode x.1
    let bs' ← b.encode x.2
    return bs ++ bs'
  decode input := do
    let (x, rest) ← a.decode input
    let (y, rest) ← b.decode rest
    return ((x, y), rest)
  isSome_encode := by
    rintro x ⟨hx, hy⟩
    obtain ⟨bs, hbs⟩ := Option.isSome_iff_exists.1 (a.isSome_encode _ hx)
    obtain ⟨bs', hbs'⟩ := Option.isSome_iff_exists.1 (b.isSome_encode _ hy)
    simp [hbs, hbs']
  decode_encode := by
    rintro ⟨x, y⟩ ⟨hx, hy⟩ _ h rest
    obtain ⟨bs, hbs, h⟩ := Option.bind_eq_some_iff.1 h
    obtain ⟨bs', hbs', heq⟩ := Option.bind_eq_some_iff.1 h
    cases heq
    simp [List.append_assoc, a.decode_encode x hx bs hbs, b.decode_encode y hy bs' hbs']

/-- A structure with the fields that are encoded. -/
def struct (fields : Scale α) (make : α → β) (split : β → α) (h : ∀ y, make (split y) = y) :
    Scale β where
  Typed y := fields.Typed (split y)
  Short y := fields.Short (split y)
  encode y := fields.encode (split y)
  decode input := (fields.decode input).map fun (x, rest) => (make x, rest)
  isSome_encode y hy := fields.isSome_encode (split y) hy
  decode_encode := by
    intro y hy bs hbs rest
    simp [fields.decode_encode _ hy bs hbs, h]

/-- `Vec<u8>`. -/
def bytes : Scale Bytes where
  Typed _ := True
  Short bs := bs.length < 2 ^ 32
  encode bs := (encodeLen bs.length).map (· ++ bs)
  decode := decodeBytes
  isSome_encode bs hbs := by simpa using isSome_encodeLen hbs
  decode_encode := by
    intro bs _ _ h rest
    obtain ⟨len, hlen, rfl⟩ := Option.map_eq_some_iff.1 h
    rw [List.append_assoc, decodeBytes, decodeCompact_encodeLen hlen]
    simp

/-- `String`. -/
def string : Scale String where
  Typed _ := True
  Short text := bytes.Short text.toUTF8.data.toList
  encode text := bytes.encode text.toUTF8.data.toList
  decode := decodeString
  isSome_encode _ htext := bytes.isSome_encode _ htext
  decode_encode := by
    intro text _ bs hbs rest
    have hread : decodeBytes (bs ++ rest) = _ := bytes.decode_encode _ trivial bs hbs rest
    have htext : String.fromUTF8? ⟨text.toByteArray.data⟩ = some text :=
      dif_pos text.isValidUTF8
    simp [decodeString, hread, htext]

def encodeItems (item : Scale α) : List α → Option Bytes
  | [] => some []
  | x :: xs => do
      let bs ← item.encode x
      let bs' ← encodeItems item xs
      return bs ++ bs'

theorem isSome_encodeItems (item : Scale α) {xs : List α} (hxs : ∀ x ∈ xs, item.Short x) :
    (item.encodeItems xs).isSome = true := by
  induction xs with
  | nil => rfl
  | cons x xs ih =>
      obtain ⟨bs, hbs⟩ :=
        Option.isSome_iff_exists.1 (item.isSome_encode x (hxs x List.mem_cons_self))
      obtain ⟨bs', hbs'⟩ :=
        Option.isSome_iff_exists.1 (ih fun y hy => hxs y (List.mem_cons_of_mem x hy))
      simp [encodeItems, hbs, hbs']

theorem decodeItems_encodeItems (item : Scale α) {xs : List α} (hxs : ∀ x ∈ xs, item.Typed x)
    {bs : Bytes} (h : item.encodeItems xs = some bs) (rest : Bytes) :
    decodeItems item.decode xs.length (bs ++ rest) = some (xs, rest) := by
  induction xs generalizing bs with
  | nil =>
      cases h
      rfl
  | cons x xs ih =>
      obtain ⟨bs₁, hbs₁, h⟩ := Option.bind_eq_some_iff.1 h
      obtain ⟨bs₂, hbs₂, heq⟩ := Option.bind_eq_some_iff.1 h
      cases heq
      have hx := item.decode_encode x (hxs x List.mem_cons_self) bs₁ hbs₁
      have hrest := ih (fun y hy => hxs y (List.mem_cons_of_mem x hy)) hbs₂
      simp [decodeItems, List.append_assoc, hx, hrest]

/-- `Vec<T>`. -/
def vec (item : Scale α) : Scale (List α) where
  Typed xs := ∀ x ∈ xs, item.Typed x
  Short xs := xs.length < 2 ^ 32 ∧ ∀ x ∈ xs, item.Short x
  encode xs := do
    let len ← encodeLen xs.length
    let items ← item.encodeItems xs
    return len ++ items
  decode := decodeVec item.decode
  isSome_encode := by
    rintro xs ⟨hlen, hxs⟩
    obtain ⟨len, hlen⟩ := Option.isSome_iff_exists.1 (isSome_encodeLen hlen)
    obtain ⟨items, hitems⟩ := Option.isSome_iff_exists.1 (item.isSome_encodeItems hxs)
    simp [hlen, hitems]
  decode_encode := by
    intro xs hxs _ h rest
    obtain ⟨len, hlen, h⟩ := Option.bind_eq_some_iff.1 h
    obtain ⟨items, hitems, heq⟩ := Option.bind_eq_some_iff.1 h
    cases heq
    rw [List.append_assoc, decodeVec, decodeCompact_encodeLen hlen]
    exact item.decodeItems_encodeItems hxs hitems rest

end Scale

end Finastate.Codec
