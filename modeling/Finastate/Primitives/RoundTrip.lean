import Finastate.Primitives.Codec

/-!
# Round trips of the codec

An encoder and a decoder make a round trip on the values of a predicate if the
decoder returns what was encoded and leaves the bytes after it alone. The round
trip of a structure is put together from those of its fields.
-/

namespace Finastate.Codec

/-- `decode` reads a valid value back, whatever follows it. -/
def RoundTrip {α : Type} (encode : α → Bytes) (decode : Decoder α) (Valid : α → Prop) : Prop :=
  ∀ x, Valid x → ∀ rest, decode (encode x ++ rest) = some (x, rest)

/-- `Vec<T>`. -/
def encodeVec {α : Type} (item : α → Bytes) (xs : List α) : Bytes :=
  encodeCompact xs.length ++ xs.flatMap item

/-- A length that fits `Compact<u32>`, with valid items. -/
def ValidVec {α : Type} (Valid : α → Prop) (xs : List α) : Prop :=
  xs.length < 2 ^ 32 ∧ ∀ x ∈ xs, Valid x

def U32 (n : Nat) : Prop := n < 2 ^ 32

def U64 (n : Nat) : Prop := n < 2 ^ 64

/-- Bytes that a vector can hold. -/
def ValidBytes (bs : Bytes) : Prop := bs.length < 2 ^ 32

instance (n : Nat) : Decidable (U32 n) := inferInstanceAs (Decidable (n < 2 ^ 32))

instance (n : Nat) : Decidable (U64 n) := inferInstanceAs (Decidable (n < 2 ^ 64))

instance (bs : Bytes) : Decidable (ValidBytes bs) :=
  inferInstanceAs (Decidable (bs.length < 2 ^ 32))

instance {α : Type} (Valid : α → Prop) [DecidablePred Valid] (xs : List α) :
    Decidable (ValidVec Valid xs) :=
  inferInstanceAs (Decidable (xs.length < 2 ^ 32 ∧ ∀ x ∈ xs, Valid x))

variable {α β : Type}

theorem roundTrip_u32 : RoundTrip (encodeLe 4) decodeU32 U32 := by
  intro n hn rest
  have hlt : n < 256 ^ 4 := hn
  rw [decodeU32, decodeLe_encodeLe, Nat.mod_eq_of_lt hlt]

theorem roundTrip_u64 : RoundTrip encodeU64 decodeU64 U64 :=
  fun _ hn rest => decodeU64_encodeU64 hn rest

theorem encodeLe_succ (w n : Nat) :
    encodeLe (w + 1) n = UInt8.ofNat n :: encodeLe w (n / 256) := rfl

/-- The first byte of `4 * m + mode` tells the mode. -/
theorem toNat_ofNat_mod_four (m mode : Nat) (h : mode < 4) :
    (UInt8.ofNat (4 * m + mode)).toNat % 4 = mode := by
  have hbyte : (UInt8.ofNat (4 * m + mode)).toNat = (4 * m + mode) % 256 := by simp
  omega

theorem roundTrip_compact : RoundTrip encodeCompact decodeCompact U32 := by
  intro n hn rest
  have hn' : n < 2 ^ 32 := hn
  unfold encodeCompact
  split
  case isTrue hlt =>
    have hmode : 4 * n % 4 = 0 := by omega
    have hval : 4 * n % 256 / 4 = n := by omega
    simp [encodeLe, decodeCompact, hmode, hval]
  case isFalse hge =>
    split
    case isTrue hlt =>
      have hmode := toNat_ofNat_mod_four n 1 (by omega)
      have hread := decodeLe_encodeLe 2 (4 * n + 1) rest
      rw [encodeLe_succ, List.cons_append] at hread ⊢
      have hval : (4 * n + 1) % 256 ^ 2 / 4 = n := by omega
      have hle : 2 ^ 6 ≤ n := Nat.le_of_not_lt hge
      simp only [decodeCompact, hmode, hread, Option.bind_eq_bind, Option.bind_some, hval,
        if_pos hle]
      rfl
    case isFalse hge' =>
      split
      case isTrue hlt =>
        have hmode := toNat_ofNat_mod_four n 2 (by omega)
        have hread := decodeLe_encodeLe 4 (4 * n + 2) rest
        rw [encodeLe_succ, List.cons_append] at hread ⊢
        have hval : (4 * n + 2) % 256 ^ 4 / 4 = n := by omega
        have hle : 2 ^ 14 ≤ n := Nat.le_of_not_lt hge'
        simp only [decodeCompact, hmode, hread, Option.bind_eq_bind, Option.bind_some, hval,
          if_pos hle]
        rfl
      case isFalse hge'' =>
        have hread := decodeLe_encodeLe 4 n rest
        have hval : n % 256 ^ 4 = n := Nat.mod_eq_of_lt hn'
        have hle : 2 ^ 30 ≤ n := Nat.le_of_not_lt hge''
        rw [List.cons_append]
        simp only [decodeCompact, UInt8.reduceToNat, Nat.reduceMod, Nat.reduceDiv, if_true,
          hread, Option.bind_eq_bind, Option.bind_some, hval, if_pos hle]
        rfl

theorem roundTrip_bytes : RoundTrip encodeBytes decodeBytes ValidBytes := by
  intro bs hbs rest
  rw [encodeBytes, List.append_assoc, decodeBytes, roundTrip_compact bs.length hbs]
  simp

theorem roundTrip_address :
    RoundTrip (fun address : Address => encodeBytes address.bytes) decodeAddress
      fun address => ValidBytes address.bytes := by
  intro address hvalid rest
  simp [decodeAddress, roundTrip_bytes address.bytes hvalid rest]

theorem roundTrip_hash :
    RoundTrip (fun hash : Hash => encodeBytes hash.bytes) decodeHash
      fun hash => ValidBytes hash.bytes := by
  intro hash hvalid rest
  simp [decodeHash, roundTrip_bytes hash.bytes hvalid rest]

theorem RoundTrip.mono {encode : α → Bytes} {decode : Decoder α} {Valid Valid' : α → Prop}
    (h : RoundTrip encode decode Valid) (hvalid : ∀ x, Valid' x → Valid x) :
    RoundTrip encode decode Valid' :=
  fun x hx => h x (hvalid x hx)

/-- A field after another. -/
theorem RoundTrip.pair {encode : α → Bytes} {decode : Decoder α} {Valid : α → Prop}
    {encode' : β → Bytes} {decode' : Decoder β} {Valid' : β → Prop}
    (h : RoundTrip encode decode Valid) (h' : RoundTrip encode' decode' Valid') :
    RoundTrip (fun x : α × β => encode x.1 ++ encode' x.2)
      (fun input => do
        let (x, rest) ← decode input
        let (y, rest) ← decode' rest
        return ((x, y), rest))
      fun x => Valid x.1 ∧ Valid' x.2 := by
  intro x hx rest
  simp [List.append_assoc, h x.1 hx.1, h' x.2 hx.2]

theorem RoundTrip.items {encode : α → Bytes} {decode : Decoder α} {Valid : α → Prop}
    (h : RoundTrip encode decode Valid) (xs : List α) (hxs : ∀ x ∈ xs, Valid x) (rest : Bytes) :
    decodeItems decode xs.length (xs.flatMap encode ++ rest) = some (xs, rest) := by
  induction xs with
  | nil => rfl
  | cons x xs ih =>
      have hx := h x (hxs x List.mem_cons_self)
      have hrest := ih fun y hy => hxs y (List.mem_cons_of_mem x hy)
      simp [decodeItems, List.append_assoc, hx, hrest]

theorem RoundTrip.vec {encode : α → Bytes} {decode : Decoder α} {Valid : α → Prop}
    (h : RoundTrip encode decode Valid) :
    RoundTrip (encodeVec encode) (decodeVec decode) (ValidVec Valid) := by
  intro xs hxs rest
  rw [encodeVec, List.append_assoc, decodeVec, roundTrip_compact xs.length hxs.1]
  exact h.items xs hxs.2 rest

/-- A length that is read fits `Compact<u32>`. -/
theorem u32_of_decodeCompact {n : Nat} {input rest : Bytes}
    (h : decodeCompact input = some (n, rest)) : U32 n := by
  have hread : ∀ (w : Nat) (input rest : Bytes) (f : Nat → Nat) (least : Nat),
      w ≤ 4 → (∀ m, f m ≤ m) →
      ((decodeLe w input).bind fun p =>
        if least ≤ f p.1 then some (f p.1, p.2) else none) = some (n, rest) → U32 n := by
    intro w input rest f least hw hf h
    obtain ⟨⟨m, rest'⟩, hm, hn⟩ := Option.bind_eq_some_iff.1 h
    have hlt := decodeLe_lt hm
    have hpow : 256 ^ w ≤ 256 ^ 4 := Nat.pow_le_pow_right (by omega) hw
    simp only at hn
    split at hn
    case isTrue hle =>
      cases hn
      exact Nat.lt_of_le_of_lt (hf m) (Nat.lt_of_lt_of_le hlt hpow)
    case isFalse hnot => cases hn
  cases input with
  | nil => cases h
  | cons b input =>
      rw [decodeCompact] at h
      split at h
      case h_1 =>
        cases h
        have hb := b.toNat_lt
        exact Nat.lt_of_le_of_lt (Nat.div_le_self _ _) (by omega)
      case h_2 =>
        exact hread 2 (b :: input) rest (fun m => m / 4) _ (by omega)
          (fun m => Nat.div_le_self m 4) h
      case h_3 =>
        exact hread 4 (b :: input) rest (fun m => m / 4) _ (Nat.le_refl 4)
          (fun m => Nat.div_le_self m 4) h
      case h_4 =>
        split at h
        case isTrue hzero => exact hread 4 input rest id _ (Nat.le_refl 4) (fun m => Nat.le_refl m) h
        case isFalse hnot => cases h

/-- Bytes that are read can be written. -/
theorem validBytes_of_decodeBytes {bs : Bytes} {input rest : Bytes}
    (h : decodeBytes input = some (bs, rest)) : ValidBytes bs := by
  obtain ⟨⟨n, input'⟩, hn, hrest⟩ := Option.bind_eq_some_iff.1 h
  have hlt : n < 2 ^ 32 := u32_of_decodeCompact hn
  simp only at hrest
  split at hrest
  case isTrue hle =>
    cases hrest
    exact Nat.lt_of_le_of_lt (List.length_take_le _ _) hlt
  case isFalse hnot => cases hrest

end Finastate.Codec
