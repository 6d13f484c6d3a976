import Finastate.Primitives.Types

/-!
# The SCALE codec

The part of `parity-scale-codec` that the modelled functions rely on:
little-endian integers of a fixed width, compact lengths, byte vectors and
vectors of encodable items. A decoder takes the remaining input and returns
the value with what is left of it; `codec::decode` drops the rest.
-/

namespace Finastate.Codec

/-- A decoder consumes a front part of its input. -/
abbrev Decoder (α : Type) := Bytes → Option (α × Bytes)

/-- An unsigned integer in `w` little-endian bytes. -/
def encodeLe : Nat → Nat → Bytes
  | 0, _ => []
  | w + 1, n => UInt8.ofNat n :: encodeLe w (n / 256)

def decodeLe : Nat → Decoder Nat
  | 0, input => some (0, input)
  | _ + 1, [] => none
  | w + 1, b :: input => do
      let (n, rest) ← decodeLe w input
      return (b.toNat + 256 * n, rest)

def encodeU64 (n : Nat) : Bytes := encodeLe 8 n

def decodeU64 : Decoder Nat := decodeLe 8

def decodeU32 : Decoder Nat := decodeLe 4

/-- `Compact<u32>`: the two low bits of the first byte select the width. -/
def encodeCompact (n : Nat) : Bytes :=
  if n < 2 ^ 6 then encodeLe 1 (4 * n)
  else if n < 2 ^ 14 then encodeLe 2 (4 * n + 1)
  else if n < 2 ^ 30 then encodeLe 4 (4 * n + 2)
  else 3 :: encodeLe 4 n

/-- Decoding of `Compact<u32>`; a length that is not written in the shortest
form is refused. -/
def decodeCompact : Decoder Nat
  | [] => none
  | b :: input =>
      match b.toNat % 4 with
      | 0 => some (b.toNat / 4, input)
      | 1 => do
          let (n, rest) ← decodeLe 2 (b :: input)
          if 2 ^ 6 ≤ n / 4 then return (n / 4, rest) else none
      | 2 => do
          let (n, rest) ← decodeLe 4 (b :: input)
          if 2 ^ 14 ≤ n / 4 then return (n / 4, rest) else none
      | _ => do
          if b.toNat / 4 = 0 then
            let (n, rest) ← decodeLe 4 input
            if 2 ^ 30 ≤ n then return (n, rest) else none
          else none

/-- `Vec<u8>`. -/
def encodeBytes (bs : Bytes) : Bytes := encodeCompact bs.length ++ bs

def decodeBytes : Decoder Bytes := fun input => do
  let (len, rest) ← decodeCompact input
  if len ≤ rest.length then return (rest.take len, rest.drop len) else none

/-- `len` items one after another. -/
def decodeItems {α : Type} (item : Decoder α) : Nat → Decoder (List α)
  | 0, input => some ([], input)
  | len + 1, input => do
      let (x, rest) ← item input
      let (xs, rest) ← decodeItems item len rest
      return (x :: xs, rest)

/-- `Vec<T>`. -/
def decodeVec {α : Type} (item : Decoder α) : Decoder (List α) := fun input => do
  let (len, rest) ← decodeCompact input
  decodeItems item len rest

def decodeHash : Decoder Hash := fun input =>
  (decodeBytes input).map fun (bs, rest) => (⟨bs⟩, rest)

def decodeAddress : Decoder Address := fun input =>
  (decodeBytes input).map fun (bs, rest) => (⟨bs⟩, rest)

def decodePublicKey : Decoder PublicKey := fun input =>
  (decodeBytes input).map fun (bs, rest) => (⟨bs⟩, rest)

def decodeSignature : Decoder Signature := fun input =>
  (decodeBytes input).map fun (bs, rest) => (⟨bs⟩, rest)

/-- `String`: its bytes have to be UTF-8. -/
def decodeString : Decoder String := fun input => do
  let (bs, rest) ← decodeBytes input
  let text ← String.fromUTF8? ⟨bs.toArray⟩
  return (text, rest)

theorem decodeLe_encodeLe (w n : Nat) (rest : Bytes) :
    decodeLe w (encodeLe w n ++ rest) = some (n % 256 ^ w, rest) := by
  induction w generalizing n with
  | zero => simp [encodeLe, decodeLe, Nat.mod_one]
  | succ w ih =>
      have hbyte : (UInt8.ofNat n).toNat = n % 256 := by simp
      have hsplit : n % 256 + 256 * (n / 256 % 256 ^ w) = n % 256 ^ (w + 1) := by
        rw [Nat.pow_succ, Nat.mul_comm (256 ^ w), Nat.mod_mul]
      simp [encodeLe, decodeLe, ih, hsplit]

/-- Only the lower bytes are written. -/
theorem encodeLe_mod (w n : Nat) : encodeLe w n = encodeLe w (n % 256 ^ w) := by
  induction w generalizing n with
  | zero => rfl
  | succ w ih =>
      have hfirst : UInt8.ofNat (n % 256 ^ (w + 1)) = UInt8.ofNat n := by
        apply UInt8.toNat.inj
        rw [UInt8.toNat_ofNat', UInt8.toNat_ofNat', Nat.pow_succ, Nat.mod_mul_left_mod]
      have hrest : n % 256 ^ (w + 1) / 256 = n / 256 % 256 ^ w := by
        rw [Nat.pow_succ, Nat.mul_comm, Nat.mod_mul_right_div_self]
      rw [encodeLe, encodeLe, hfirst, hrest, ih]

theorem decodeU64_encodeU64 {n : Nat} (h : n < 2 ^ 64) (rest : Bytes) :
    decodeU64 (encodeU64 n ++ rest) = some (n, rest) := by
  rw [decodeU64, encodeU64, decodeLe_encodeLe, Nat.mod_eq_of_lt (by omega)]

theorem decodeLe_lt {w n : Nat} {input rest : Bytes} (h : decodeLe w input = some (n, rest)) :
    n < 256 ^ w := by
  induction w generalizing input rest n with
  | zero =>
      simp [decodeLe] at h
      omega
  | succ w ih =>
      cases input with
      | nil => simp [decodeLe] at h
      | cons b input =>
          simp only [decodeLe, Option.bind_eq_bind, Option.bind_eq_some_iff] at h
          obtain ⟨⟨m, rest'⟩, hm, hn⟩ := h
          have hlt := ih hm
          have hb := b.toNat_lt
          cases hn
          rw [Nat.pow_succ]
          omega

theorem decodeU64_lt {input rest : Bytes} {n : Nat} (h : decodeU64 input = some (n, rest)) :
    n < 2 ^ 64 :=
  decodeLe_lt h

@[simp] theorem length_encodeLe (w n : Nat) : (encodeLe w n).length = w := by
  induction w generalizing n with
  | zero => rfl
  | succ w ih => simp [encodeLe, ih]

/-- How many bytes follow the first byte of a compact length. -/
def compactWidth (b : UInt8) : Nat :=
  match b.toNat % 4 with
  | 0 => 0
  | 1 => 1
  | 2 => 3
  | _ => 4

theorem compactWidth_ofNat (n : Nat) :
    compactWidth (UInt8.ofNat n) = match n % 4 with | 0 => 0 | 1 => 1 | 2 => 3 | _ => 4 := by
  have hbyte : (UInt8.ofNat n).toNat % 4 = n % 4 := by
    have : (UInt8.ofNat n).toNat = n % 256 := by simp
    omega
  rw [compactWidth, hbyte]

theorem exists_encodeCompact_eq (n : Nat) :
    ∃ b tail, encodeCompact n = b :: tail ∧ tail.length = compactWidth b := by
  unfold encodeCompact
  split
  · have hmode : 4 * n % 4 = 0 := by omega
    exact ⟨_, _, rfl, by rw [compactWidth_ofNat, hmode]; simp⟩
  · split
    · have hmode : (4 * n + 1) % 4 = 1 := by omega
      exact ⟨_, _, rfl, by rw [compactWidth_ofNat, hmode]; simp⟩
    · split
      · have hmode : (4 * n + 2) % 4 = 2 := by omega
        exact ⟨_, _, rfl, by rw [compactWidth_ofNat, hmode]; simp⟩
      · exact ⟨_, _, rfl, by simp [compactWidth]⟩

/-- The first byte tells where the length ends, so the bytes after it are
determined. -/
theorem encodeBytes_injective : Function.Injective encodeBytes := by
  intro bs bs' heq
  obtain ⟨b, tail, hb, hlen⟩ := exists_encodeCompact_eq bs.length
  obtain ⟨b', tail', hb', hlen'⟩ := exists_encodeCompact_eq bs'.length
  rw [encodeBytes, encodeBytes, hb, hb', List.cons_append, List.cons_append,
    List.cons.injEq] at heq
  obtain ⟨rfl, htail⟩ := heq
  exact (List.append_inj htail (hlen.trans hlen'.symm)).2

end Finastate.Codec
