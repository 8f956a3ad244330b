import Tablespace.Proofs.Record.Fields
import Tablespace.Proofs.Record.Reading

/-!
# Values and tuples

Building a tuple from values and reading the values of a tuple undo each other.
A tuple that was built has no padding and can be packed unless it is too large,
and one that was read is built again if its texts are no longer than declared.
-/

namespace Tablespace

namespace Tuple

open Packed (Allowed Wide joined tupleField)

variable {a : Attribute} {schema : Schema} {v : Value} {values : List Value} {bitmap tuple b rest c : Bytes}
  {contents : List (Option Bytes)} {index : Nat}

/-- A text is no longer than declared. -/
def Fits (a : Attribute) : Value → Prop
  | .varchar s => Declared a (Utf8.encode s)
  | _ => True

/-! ## One value -/

theorem toField_eq_ok_iff : v.toField a = .ok b
    ↔ HasType a v ∧ Fits a v ∧ b = (tupleField a (contentOf v)).getD [] := by
  obtain ⟨name, type, length⟩ := a
  cases v with
  | null => simp [Value.toField, HasType, Fits, contentOf, tupleField, eq_comm]
  | int i => cases type <;> simp [Value.toField, HasType, Fits, contentOf, tupleField, fieldOfContent, eq_comm]
  | real x => cases type <;> simp [Value.toField, HasType, Fits, contentOf, tupleField, fieldOfContent, eq_comm]
  | varchar s =>
    cases type with
    | int => simp [Value.toField, HasType]
    | real => simp [Value.toField, HasType]
    | varchar =>
      by_cases hfit : (Utf8.encode s).length ≤ length.toNat
      · simp [Value.toField, HasType, Fits, Declared, contentOf, tupleField, fieldOfContent, hfit, eq_comm]
      · simp [Value.toField, HasType, Fits, Declared, hfit]

theorem wide_of_fits (hv : HasType a v) (hfit : Fits a v) (hc : contentOf v = some c) : Wide a c := by
  unfold Wide
  cases v with
  | null => cases hc
  | int i =>
    cases hc
    rw [show a.type = .int from hv, if_neg (by decide)]
    exact LittleEndian.length_ofUInt32 _
  | real x =>
    cases hc
    rw [show a.type = .real from hv, if_neg (by decide)]
    exact LittleEndian.length_ofUInt32 _
  | varchar s =>
    cases hc
    rw [if_pos (show a.type = .varchar from hv)]
    exact hfit

/-! ## All values -/

theorem rel_of_forall₂ {α β : Type} {R : α → β → Prop} {xs : List α} {ys : List β} {k : Nat} {x : α} {y : β}
    (h : List.Forall₂ R xs ys) (hx : xs[k]? = some x) (hy : ys[k]? = some y) : R x y := by
  obtain ⟨hk, rfl⟩ := List.getElem?_eq_some_iff.mp hx
  obtain ⟨hk', rfl⟩ := List.getElem?_eq_some_iff.mp hy
  exact h.get hk hk'

theorem map_isNull (hlen : values.length = schema.length) :
    values.map Value.isNull = (List.zipWith tupleField schema (values.map contentOf)).map Option.isNone := by
  rw [Packed.map_isNone_tupleField (by rw [List.length_map, hlen]), List.map_map]
  exact List.map_congr_left fun v _ => by cases v <;> rfl

theorem encodeFields_eq_ok_iff (hlen : values.length = schema.length) : encodeFields schema values = .ok b
    ↔ List.Forall₂ HasType schema values ∧ List.Forall₂ Fits schema values
      ∧ b = joined (List.zipWith tupleField schema (values.map contentOf)) := by
  induction schema generalizing values b with
  | nil =>
    rw [List.length_eq_zero_iff.mp hlen]
    simp [encodeFields, joined, pure, Except.pure, eq_comm]
  | cons a schema ih =>
    cases values with
    | nil => cases hlen
    | cons v values =>
      rw [List.forall₂_cons, List.forall₂_cons, List.map_cons, List.zipWith_cons_cons, Packed.joined_cons, encodeFields]
      constructor
      · intro h
        obtain ⟨field, hfield, h⟩ := bind_eq_ok_iff.mp h
        obtain ⟨fields, hfields, h⟩ := bind_eq_ok_iff.mp h
        cases h
        obtain ⟨hv, hfit, rfl⟩ := toField_eq_ok_iff.mp hfield
        obtain ⟨htypes, hfits, rfl⟩ := (ih (Nat.succ.inj hlen)).mp hfields
        exact ⟨⟨hv, htypes⟩, ⟨hfit, hfits⟩, rfl⟩
      · intro h
        obtain ⟨⟨hv, htypes⟩, ⟨hfit, hfits⟩, rfl⟩ := h
        rw [toField_eq_ok_iff.mpr ⟨hv, hfit, rfl⟩, (ih (Nat.succ.inj hlen)).mpr ⟨htypes, hfits, rfl⟩]
        rfl

theorem encode_eq_ok_iff : encode schema values = .ok tuple
    ↔ List.Forall₂ HasType schema values ∧ List.Forall₂ Fits schema values
      ∧ tuple = ofFields (List.zipWith tupleField schema (values.map contentOf)) := by
  unfold encode
  by_cases hlen : values.length = schema.length
  · rw [if_pos hlen, map_isNull hlen]
    constructor
    · intro h
      obtain ⟨fields, hfields, h⟩ := bind_eq_ok_iff.mp h
      cases h
      obtain ⟨htypes, hfits, rfl⟩ := (encodeFields_eq_ok_iff hlen).mp hfields
      exact ⟨htypes, hfits, rfl⟩
    · intro h
      obtain ⟨htypes, hfits, rfl⟩ := h
      rw [(encodeFields_eq_ok_iff hlen).mpr ⟨htypes, hfits, rfl⟩]
      rfl
  · rw [if_neg hlen]
    refine iff_of_false (fun h => ?_) fun h => hlen h.1.length_eq.symm
    cases h

/-! ## Tuples -/

theorem fields_of_allowed (h : Allowed bitmap schema index contents) : EachText Declared schema contents
    ∧ Fields bitmap schema index (joined (List.zipWith tupleField schema contents)) contents [] := by
  induction schema generalizing index contents with
  | nil =>
    rw [List.length_eq_zero_iff.mp h.length]
    exact ⟨eachText_nil, .nil index []⟩
  | cons a schema ih =>
    cases contents with
    | nil => cases h.length
    | cons content contents =>
      obtain ⟨hnull, hwide, hrest⟩ := h.uncons
      obtain ⟨htexts, hfields⟩ := ih hrest
      rw [List.zipWith_cons_cons, Packed.joined_cons]
      cases content with
      | none => exact ⟨eachText_null.mpr htexts, .null hnull.symm hfields⟩
      | some c =>
        obtain ⟨hholds, htext⟩ := holds_of_wide (hwide c rfl) (joined (List.zipWith tupleField schema contents))
        exact ⟨eachText_cons.mpr ⟨htext, htexts⟩, .content hnull.symm hholds hfields⟩

theorem allowed_ofFlags (hlen : contents.length = schema.length)
    (hwide : ∀ (k : Nat) a c, schema[k]? = some a → contents[k]? = some (some c) → Wide a c) :
    Allowed (NullBitmap.ofFlags (contents.map Option.isNone)) schema 0 contents where
  nulls := by
    conv => lhs; rw [← NullBitmap.map_isNull_ofFlags (contents.map Option.isNone)]
    rw [List.length_map, hlen]
  wide := hwide

/-- The fields of contents that are wide enough make up a tuple. -/
theorem wellFormed_ofFields (hlen : contents.length = schema.length)
    (hwide : ∀ (k : Nat) a c, schema[k]? = some a → contents[k]? = some (some c) → Wide a c) :
    WellFormed schema (ofFields (List.zipWith tupleField schema contents)) contents
      ∧ EachText Declared schema contents := by
  obtain ⟨htexts, hfields⟩ := fields_of_allowed (allowed_ofFlags hlen hwide)
  refine ⟨⟨_, _, ?_, ?_, hfields⟩, htexts⟩
  · rw [ofFields, Packed.map_isNone_tupleField hlen]
  · rw [NullBitmap.length_ofFlags, List.length_map, hlen]

theorem WellFormed.ofFields_eq (h : WellFormed schema tuple contents) :
    ofFields (List.zipWith tupleField schema contents) = NullBitmap.clearPadding schema.length tuple := by
  obtain ⟨bitmap, b, rfl, hlen, hfields⟩ := h
  rw [hfields.eq_append, List.append_nil]
  exact Packed.ofFlags_append_joined hlen hfields.nulls

/-- A tuple that was built has the values that it was built from. -/
theorem wellFormed_of_encode (h : encode schema values = .ok tuple) : List.Forall₂ HasType schema values
    ∧ WellFormed schema tuple (values.map contentOf) ∧ EachText Declared schema (values.map contentOf) := by
  obtain ⟨htypes, hfits, rfl⟩ := encode_eq_ok_iff.mp h
  refine ⟨htypes, wellFormed_ofFields ?_ fun k a c ha hc => ?_⟩
  · rw [List.length_map, htypes.length_eq]
  · rw [List.getElem?_map] at hc
    obtain ⟨v, hv, hc⟩ := Option.map_eq_some_iff.mp hc
    exact wide_of_fits (rel_of_forall₂ htypes ha hv) (rel_of_forall₂ hfits ha hv) hc

theorem encode_ok_or_tooLarge (h : WellFormed schema tuple contents) (htexts : EachText Declared schema contents) :
    (∃ packed, Packed.encode schema tuple = .ok packed)
      ∨ ∃ size, Packed.maxSize < size ∧ Packed.encode schema tuple = .error (.recordTooLarge size Packed.maxSize) := by
  rcases Nat.lt_or_ge Packed.maxSize (Packed.headerSize schema + (joined contents).length) with hlarge | hfit
  · exact .inr (h.encode_tooLarge htexts hlarge)
  · exact .inl (encode_ok_iff.mpr ⟨contents, h, htexts, hfit⟩)

/-- Values are read off the tuple that was built from them, which can be packed unless it is too
large. From the values that were read off a tuple the tuple is built again up to its padding, unless
a text is longer than declared. -/
theorem values_tuples_inverse (schema : Schema) :
    (∀ values tuple, encode schema values = .ok tuple → decode schema tuple = .ok values
      ∧ ((∃ packed, Packed.encode schema tuple = .ok packed) ∨ ∃ size, Packed.maxSize < size
        ∧ Packed.encode schema tuple = .error (.recordTooLarge size Packed.maxSize)))
    ∧ ∀ tuple values, decode schema tuple = .ok values →
      ((∃ built, encode schema values = .ok built) ↔ List.Forall₂ Fits schema values)
      ∧ (List.Forall₂ Fits schema values →
        encode schema values = .ok (NullBitmap.clearPadding schema.length tuple)) := by
  constructor
  · intro values tuple h
    obtain ⟨htypes, hformed, htexts⟩ := wellFormed_of_encode h
    exact ⟨decode_eq_ok_iff.mpr ⟨htypes, hformed⟩, encode_ok_or_tooLarge hformed htexts⟩
  · intro tuple values h
    obtain ⟨htypes, hformed⟩ := decode_eq_ok_iff.mp h
    have hbuilt (hfits : List.Forall₂ Fits schema values) :
        encode schema values = .ok (NullBitmap.clearPadding schema.length tuple) :=
      encode_eq_ok_iff.mpr ⟨htypes, hfits, hformed.ofFields_eq.symm⟩
    refine ⟨⟨fun hex => ?_, fun hfits => ⟨_, hbuilt hfits⟩⟩, hbuilt⟩
    obtain ⟨built, hencode⟩ := hex
    exact (encode_eq_ok_iff.mp hencode).2.1

/-- A null, a NaN with a payload and a text, and a tuple of the same values with a bit of padding set. -/
theorem values_tuples_inverse_padded :
    encode [.int "a", .real "b", .varchar "c" 2] [.null, .real ⟨0x7FC00001⟩, .varchar "é"]
        = .ok [0x80, 1, 0, 0xC0, 0x7F, 2, 0, 0, 0, 0xC3, 0xA9]
      ∧ decode [.int "a", .real "b", .varchar "c" 2] [0x81, 1, 0, 0xC0, 0x7F, 2, 0, 0, 0, 0xC3, 0xA9]
        = .ok [.null, .real ⟨0x7FC00001⟩, .varchar "é"]
      ∧ decode [.int "a", .real "b", .varchar "c" 2] [0x80, 1, 0, 0xC0, 0x7F, 2, 0, 0, 0, 0xC3, 0xA9]
        = .ok [.null, .real ⟨0x7FC00001⟩, .varchar "é"]
      ∧ encode [.int "a", .real "b", .varchar "c" 2] [.null, .real ⟨0x7FC00001⟩, .varchar "é"]
        = .ok (NullBitmap.clearPadding 3 [0x81, 1, 0, 0xC0, 0x7F, 2, 0, 0, 0, 0xC3, 0xA9]) := by
  have hbuilt : encode [.int "a", .real "b", .varchar "c" 2] [.null, .real ⟨0x7FC00001⟩, .varchar "é"]
      = .ok [0x80, 1, 0, 0xC0, 0x7F, 2, 0, 0, 0, 0xC3, 0xA9] := rfl
  have hread : decode [.int "a", .real "b", .varchar "c" 2] [0x81, 1, 0, 0xC0, 0x7F, 2, 0, 0, 0, 0xC3, 0xA9]
      = .ok [.null, .real ⟨0x7FC00001⟩, .varchar "é"] := rfl
  obtain ⟨hencode, hdecode⟩ := values_tuples_inverse [.int "a", .real "b", .varchar "c" 2]
  have hfits := (hdecode _ _ hread).1.mp ⟨_, hbuilt⟩
  exact ⟨hbuilt, hread, (hencode _ _ hbuilt).1, (hdecode _ _ hread).2 hfits⟩

end Tuple

end Tablespace
