import Finastate.Primitives.Scale

/-!
# Enums

An enum is encoded as the tag of its variant and the fields of the variant. The
derived `Encode` numbers the variants, and `enum_codec` writes their names. A
tag that no variant has is refused.
-/

namespace Finastate.Codec

/-- A variant with the encoding of its fields; `fields?` matches on it. -/
structure Variant (τ M : Type) where
  tag : τ
  Fields : Type
  scale : Scale Fields
  make : Fields → M
  fields? : M → Option Fields
  make_of_fields? : ∀ {m v}, fields? m = some v → make v = m

namespace Variant

variable {τ M : Type}

/-- A variant without fields. -/
def plain [DecidableEq M] (tag : τ) (m : M) : Variant τ M where
  tag := tag
  Fields := Unit
  scale := .unit
  make _ := m
  fields? m' := if m' = m then some () else none
  make_of_fields? h := (Option.ite_none_right_eq_some.1 h).1.symm

/-- A variant with fields; `fields?` undoes `make`, which the cases show. -/
def of {F : Type} (tag : τ) (scale : Scale F) (make : F → M) (fields? : M → Option F)
    (make_of_fields? : ∀ {m v}, fields? m = some v → make v = m := by
      intro m v h; cases m <;> cases h; rfl) : Variant τ M where
  tag := tag
  Fields := F
  scale := scale
  make := make
  fields? := fields?
  make_of_fields? := make_of_fields?

/-- The arms of `encode`. -/
def encode (tagScale : Scale τ) : List (Variant τ M) → M → Option Bytes
  | [], _ => none
  | variant :: variants, m =>
      match variant.fields? m with
      | some v => do
          let tag ← tagScale.encode variant.tag
          let bs ← variant.scale.encode v
          return tag ++ bs
      | none => encode tagScale variants m

/-- The arms of `decode`; the last one is "Unknown variant name". -/
def decode [DecidableEq τ] : List (Variant τ M) → τ → Decoder M
  | [], _, _ => none
  | variant :: variants, tag, input =>
      if tag = variant.tag then
        (variant.scale.decode input).map fun (v, rest) => (variant.make v, rest)
      else decode variants tag input

variable {variants : List (Variant τ M)} {tagScale : Scale τ}

theorem exists_of_encode {m : M} {bs : Bytes} (h : encode tagScale variants m = some bs) :
    ∃ variant ∈ variants, ∃ v tag fields, variant.fields? m = some v ∧
      tagScale.encode variant.tag = some tag ∧ variant.scale.encode v = some fields ∧
        bs = tag ++ fields := by
  induction variants with
  | nil => cases h
  | cons variant variants ih =>
      rw [encode] at h
      split at h
      · next v hv =>
          obtain ⟨tag, htag, h⟩ := Option.bind_eq_some_iff.1 h
          obtain ⟨fields, hfields, heq⟩ := Option.bind_eq_some_iff.1 h
          cases heq
          exact ⟨variant, List.mem_cons_self, v, tag, fields, hv, htag, hfields, rfl⟩
      · obtain ⟨variant', hmem, hrest⟩ := ih h
        exact ⟨variant', List.mem_cons_of_mem _ hmem, hrest⟩

/-- The arms cover every value, as those of a match do. -/
def Covers (variants : List (Variant τ M)) : Prop :=
  ∀ m, ∃ variant ∈ variants, (variant.fields? m).isSome = true

theorem isSome_encode {m : M} (hcovers : ∃ variant ∈ variants, (variant.fields? m).isSome = true)
    (htag : ∀ variant ∈ variants, tagScale.Short variant.tag)
    (hm : ∀ variant ∈ variants, ∀ v, variant.fields? m = some v → variant.scale.Short v) :
    (encode tagScale variants m).isSome = true := by
  induction variants with
  | nil =>
      obtain ⟨variant, hmem, -⟩ := hcovers
      cases hmem
  | cons first variants ih =>
      rw [encode]
      cases hfields : first.fields? m with
      | some v =>
          obtain ⟨tag, htag⟩ := Option.isSome_iff_exists.1
            (tagScale.isSome_encode _ (htag first List.mem_cons_self))
          obtain ⟨fields, hfields⟩ := Option.isSome_iff_exists.1
            (first.scale.isSome_encode v (hm first List.mem_cons_self v hfields))
          simp [htag, hfields]
      | none =>
          refine ih ?_ (fun variant h => htag variant (List.mem_cons_of_mem _ h))
            (fun variant h => hm variant (List.mem_cons_of_mem _ h))
          obtain ⟨variant, hmem, hsome⟩ := hcovers
          rcases List.mem_cons.1 hmem with rfl | hmem
          · rw [hfields] at hsome
            cases hsome
          · exact ⟨variant, hmem, hsome⟩

variable [DecidableEq τ]

/-- The arm of a variant is found by its tag. -/
theorem decode_tag (htags : (variants.map tag).Nodup) {variant : Variant τ M}
    (hmem : variant ∈ variants) (input : Bytes) :
    decode variants variant.tag input =
      (variant.scale.decode input).map fun (v, rest) => (variant.make v, rest) := by
  induction variants with
  | nil => cases hmem
  | cons first variants ih =>
      obtain ⟨hfirst, htags⟩ := List.nodup_cons.1 htags
      rw [decode]
      rcases List.mem_cons.1 hmem with rfl | hmem
      · rw [if_pos rfl]
      · have hne : variant.tag ≠ first.tag := fun heq => hfirst (heq ▸ List.mem_map_of_mem hmem)
        rw [if_neg hne, ih htags hmem]

theorem decode_unknown {tag : τ} (htag : tag ∉ variants.map Variant.tag) (input : Bytes) :
    decode variants tag input = none := by
  induction variants with
  | nil => rfl
  | cons variant variants ih =>
      rw [List.map_cons, List.mem_cons, not_or] at htag
      rw [decode, if_neg htag.1, ih htag.2]

end Variant

namespace Scale

variable {τ M : Type} [DecidableEq τ]

def tagged (tagScale : Scale τ) (htyped : ∀ tag, tagScale.Typed tag)
    (variants : List (Variant τ M)) (htags : (variants.map Variant.tag).Nodup)
    (hshort : ∀ variant ∈ variants, tagScale.Short variant.tag)
    (hcovers : Variant.Covers variants) : Scale M where
  Typed m := ∀ variant ∈ variants, ∀ v, variant.fields? m = some v → variant.scale.Typed v
  Short m := ∀ variant ∈ variants, ∀ v, variant.fields? m = some v → variant.scale.Short v
  encode := Variant.encode tagScale variants
  decode input := do
    let (tag, rest) ← tagScale.decode input
    Variant.decode variants tag rest
  isSome_encode m hm := Variant.isSome_encode (hcovers m) hshort hm
  decode_encode := by
    intro m hm bs hbs rest
    obtain ⟨variant, hmem, v, tag, fields, hv, htag, hfields, rfl⟩ := Variant.exists_of_encode hbs
    have hread := variant.scale.decode_encode v (hm variant hmem v hv) fields hfields rest
    rw [List.append_assoc, tagScale.decode_encode variant.tag (htyped _) tag htag]
    simp [Variant.decode_tag htags hmem, hread, variant.make_of_fields? hv]

/-- `derive(Encode, Decode)` on an enum. -/
def indexed (variants : List (Variant UInt8 M)) (htags : (variants.map Variant.tag).Nodup)
    (hcovers : Variant.Covers variants) : Scale M :=
  tagged u8 (fun _ => trivial) variants htags (fun _ _ => trivial) hcovers

/-- Names of variants are identifiers, and no two are the same. -/
structure Named (variants : List (Variant String M)) : Prop where
  nodup : (variants.map Variant.tag).Nodup
  short : ∀ name ∈ variants.map Variant.tag, name.toUTF8.data.toList.length < 2 ^ 32
  covers : Variant.Covers variants

def enumCodec (variants : List (Variant String M)) (h : Named variants) : Scale M :=
  tagged string (fun _ => trivial) variants h.nodup
    (fun _ hmem => h.short _ (List.mem_map_of_mem hmem)) h.covers

variable {α : Type}

def bool : Scale Bool :=
  indexed [.plain 0 false, .plain 1 true] (by decide) (by intro b; cases b <;> simp [Variant.plain])

theorem nodup_zero_one : [(0 : UInt8), 1].Nodup := by decide

/-- `Option<T>`. -/
def option (scale : Scale α) : Scale (Option α) :=
  indexed
    [.of 0 .unit (fun _ => none) fun | none => some () | some _ => none,
      .of 1 scale some fun | some x => some x | none => none]
    nodup_zero_one (by intro x; cases x <;> simp [Variant.of])

@[simp]
theorem typed_option {scale : Scale α} {x : Option α} :
    (option scale).Typed x ↔ ∀ y ∈ x, scale.Typed y := by
  cases x <;> simp [option, indexed, tagged, Variant.of, unit, total]

@[simp]
theorem short_option {scale : Scale α} {x : Option α} :
    (option scale).Short x ↔ ∀ y ∈ x, scale.Short y := by
  cases x <;> simp [option, indexed, tagged, Variant.of, unit, total]

end Scale

end Finastate.Codec
