import Mathlib.Data.List.Forall2
import Tablespace.Proofs.Record.Grammar

/-!
# What is read of a tuple

Two readers go through a tuple, one to make values of the fields and one to pack
them. They take the same tuples, up to what each of them asks of the texts and
to the size of what is packed.
-/

namespace Tablespace

namespace Tuple

open LittleEndian (ofUInt32 toUInt32)
open Packed (joined)

def Legible (_ : Attribute) (content : Bytes) : Prop := content.toByteArray.IsValidUTF8

/-- What a tuple holds of a value, none for a null. -/
def contentOf : Value → Option Bytes
  | .int i => some (ofUInt32 i.toUInt32)
  | .real x => some (ofUInt32 x.bits)
  | .varchar s => some (Utf8.encode s)
  | .null => none

/-- A null is a value of every type. -/
def HasType (a : Attribute) : Value → Prop
  | .int _ => a.type = .int
  | .real _ => a.type = .real
  | .varchar _ => a.type = .varchar
  | .null => True

/-! ## One field -/

section
variable {a : Attribute} {b c rest : Bytes}

theorem legible_iff : Legible a c ↔ ∃ s, c = Utf8.encode s := by
  simp only [← Utf8.decode_eq_ok_iff, Legible, Utf8.decode]
  by_cases h : c.toByteArray.IsValidUTF8 <;> simp [h]

/-- A value is read off the field that has its content. -/
theorem ofField_eq_ok_iff {v : Value} : Value.ofField a.type b = .ok (v, rest)
    ↔ HasType a v ∧ ∃ c, contentOf v = some c ∧ Holds a.type c b rest := by
  unfold Value.ofField
  constructor
  · intro h
    cases hcut : b.cut? 4 with
    | none => simp [hcut] at h
    | some cut =>
      obtain ⟨word, tail⟩ := cut
      have hword := (Bytes.cut?_eq_some_iff.mp hcut).2
      simp only [hcut] at h
      cases htype : a.type with
      | int =>
        rw [htype] at h
        cases h
        refine ⟨htype, word, ?_, (holds_number (by decide)).mpr hcut⟩
        exact congrArg some (LittleEndian.ofUInt32_toUInt32 hword)
      | real =>
        rw [htype] at h
        cases h
        refine ⟨htype, word, ?_, (holds_number (by decide)).mpr hcut⟩
        exact congrArg some (LittleEndian.ofUInt32_toUInt32 hword)
      | varchar =>
        simp only [htype] at h
        cases htext : tail.cut? (toUInt32 word).toNat with
        | none => simp [htext] at h
        | some cut =>
          obtain ⟨text, behind⟩ := cut
          simp only [htext] at h
          cases hs : Utf8.decode text with
          | error fault => simp [hs] at h
          | ok s =>
            rw [hs] at h
            cases h
            exact ⟨htype, text, congrArg some (Utf8.decode_eq_ok_iff.mp hs).symm,
              holds_text.mpr ⟨word, tail, hcut, htext⟩⟩
  · intro h
    obtain ⟨htype, c, hc, hholds⟩ := h
    cases v with
    | int i =>
      cases hc
      change a.type = .int at htype
      rw [htype, holds_number (by decide)] at hholds
      simp only [htype, hholds, LittleEndian.toUInt32_ofUInt32]
      rfl
    | real x =>
      cases hc
      change a.type = .real at htype
      rw [htype, holds_number (by decide)] at hholds
      simp only [htype, hholds, LittleEndian.toUInt32_ofUInt32]
      rfl
    | varchar s =>
      cases hc
      change a.type = .varchar at htype
      rw [htype] at hholds
      obtain ⟨word, tail, hword, htext⟩ := holds_text.mp hholds
      simp only [htype, hword, htext, Utf8.decode_eq_ok_iff.mpr rfl]
      rfl
    | null => cases hc

/-- A field whose text is valid has a value. -/
theorem Holds.exists_value (h : Holds a.type c b rest) (htext : a.type = .varchar → Legible a c) :
    ∃ v, contentOf v = some c ∧ HasType a v := by
  cases htype : a.type with
  | int =>
    rw [htype] at h
    refine ⟨.int (toUInt32 c).toInt32, ?_, htype⟩
    exact congrArg some (LittleEndian.ofUInt32_toUInt32 h.1)
  | real =>
    rw [htype] at h
    refine ⟨.real ⟨toUInt32 c⟩, ?_, htype⟩
    exact congrArg some (LittleEndian.ofUInt32_toUInt32 h.1)
  | varchar =>
    obtain ⟨s, rfl⟩ := legible_iff.mp (htext htype)
    exact ⟨.varchar s, rfl, htype⟩

theorem legible_of_contentOf {v : Value} (hv : HasType a v) (hc : contentOf v = some c) (htype : a.type = .varchar) :
    Legible a c := by
  cases v with
  | varchar s => exact legible_iff.mpr ⟨s, (Option.some.inj hc).symm⟩
  | int i => cases htype.symm.trans hv
  | real x => cases htype.symm.trans hv
  | null => cases hc

theorem contentOf_eq_none {v : Value} (h : contentOf v = none) : v = .null := by
  cases v with
  | null => rfl
  | _ => cases h

end

/-! ## All fields -/

section
variable {bitmap b rest : Bytes} {schema : Schema} {index : Nat} {contents : List (Option Bytes)}

theorem decodeFields_null {a : Attribute} (h : NullBitmap.isNull bitmap index = true) :
    decodeFields bitmap (a :: schema) index b
      = (decodeFields bitmap schema (index + 1) b).bind fun out => .ok (.null :: out.1, out.2) := by
  rw [decodeFields, if_pos h]
  rfl

theorem decodeFields_content {a : Attribute} (h : NullBitmap.isNull bitmap index = false) :
    decodeFields bitmap (a :: schema) index b = (Value.ofField a.type b).bind fun cut =>
      (decodeFields bitmap schema (index + 1) cut.2).bind fun out => .ok (cut.1 :: out.1, out.2) := by
  rw [decodeFields, h, if_neg Bool.false_ne_true]
  rfl

theorem Fields.cons_null {a : Attribute} {content : Option Bytes} (hnull : NullBitmap.isNull bitmap index = true)
    (h : Fields bitmap (a :: schema) index b (content :: contents) rest) :
    content = none ∧ Fields bitmap schema (index + 1) b contents rest := by
  cases h with
  | null _ hrest => exact ⟨rfl, hrest⟩
  | content hsome => rw [hnull] at hsome; cases hsome

theorem Fields.cons_content {a : Attribute} {content : Option Bytes} (hsome : NullBitmap.isNull bitmap index = false)
    (h : Fields bitmap (a :: schema) index b (content :: contents) rest) :
    ∃ c tail, content = some c ∧ Holds a.type c b tail ∧ Fields bitmap schema (index + 1) tail contents rest := by
  cases h with
  | null hnull => rw [hsome] at hnull; cases hnull
  | content _ hc hrest => exact ⟨_, _, rfl, hc, hrest⟩

theorem decodeFields_eq_ok_iff {values : List Value} : decodeFields bitmap schema index b = .ok (values, rest)
    ↔ List.Forall₂ HasType schema values ∧ Fields bitmap schema index b (values.map contentOf) rest := by
  induction schema generalizing index b values with
  | nil =>
    constructor
    · intro h
      cases h
      exact ⟨.nil, .nil index _⟩
    · intro h
      obtain ⟨htypes, hfields⟩ := h
      cases htypes
      cases hfields
      rfl
  | cons a schema ih =>
    cases hnull : NullBitmap.isNull bitmap index with
    | true =>
      rw [decodeFields_null hnull]
      constructor
      · intro h
        obtain ⟨out, hrest, h⟩ := bind_eq_ok_iff.mp h
        cases h
        obtain ⟨htypes, hfields⟩ := ih.mp hrest
        exact ⟨.cons trivial htypes, .null hnull hfields⟩
      · intro h
        obtain ⟨htypes, hfields⟩ := h
        cases htypes with
        | cons _ htypes =>
          obtain ⟨hnone, hfields⟩ := hfields.cons_null hnull
          rw [contentOf_eq_none hnone, ih.mpr ⟨htypes, hfields⟩]
          rfl
    | false =>
      rw [decodeFields_content hnull]
      constructor
      · intro h
        obtain ⟨cut, hfirst, h⟩ := bind_eq_ok_iff.mp h
        obtain ⟨out, hrest, h⟩ := bind_eq_ok_iff.mp h
        cases h
        obtain ⟨hv, c, hc, hholds⟩ := ofField_eq_ok_iff.mp hfirst
        obtain ⟨htypes, hfields⟩ := ih.mp hrest
        refine ⟨.cons hv htypes, ?_⟩
        rw [List.map_cons, hc]
        exact .content hnull hholds hfields
      · intro h
        obtain ⟨htypes, hfields⟩ := h
        cases htypes with
        | cons hv htypes =>
          obtain ⟨c, tail, hc, hholds, hfields⟩ := hfields.cons_content hnull
          rw [ofField_eq_ok_iff.mpr ⟨hv, c, hc, hholds⟩]
          simp only [Except.bind, ih.mpr ⟨htypes, hfields⟩]

theorem eachText_of_hasType {values : List Value} (h : List.Forall₂ HasType schema values) :
    EachText Legible schema (values.map contentOf) := by
  induction h with
  | nil => exact eachText_nil
  | @cons a v schema values hv _ ih =>
    cases hc : contentOf v with
    | none => rw [List.map_cons, hc]; exact eachText_null.mpr ih
    | some c => rw [List.map_cons, hc]; exact eachText_cons.mpr ⟨legible_of_contentOf hv hc, ih⟩

theorem Fields.exists_values (h : Fields bitmap schema index b contents rest) (htexts : EachText Legible schema contents) :
    ∃ values, values.map contentOf = contents ∧ List.Forall₂ HasType schema values := by
  induction h with
  | nil => exact ⟨[], rfl, .nil⟩
  | null _ _ ih =>
    obtain ⟨values, hvalues, htypes⟩ := ih (eachText_null.mp htexts)
    exact ⟨.null :: values, congrArg (none :: ·) hvalues, .cons trivial htypes⟩
  | content _ hc _ ih =>
    obtain ⟨hvalid, hothers⟩ := eachText_cons.mp htexts
    obtain ⟨values, hvalues, htypes⟩ := ih hothers
    obtain ⟨v, hv, htype⟩ := hc.exists_value hvalid
    exact ⟨v :: values, by rw [List.map_cons, hv, hvalues], .cons htype htypes⟩

end

/-! ## Tuples -/

variable {schema : Schema} {tuple : Bytes}

theorem decode_eq_ok_iff {values : List Value} : decode schema tuple = .ok values
    ↔ List.Forall₂ HasType schema values ∧ WellFormed schema tuple (values.map contentOf) := by
  unfold decode
  constructor
  · intro h
    obtain ⟨⟨bitmap, b⟩, hcut, h⟩ := bind_eq_ok_iff.mp h
    obtain ⟨⟨values, rest⟩, hvalues, h⟩ := bind_eq_ok_iff.mp h
    obtain ⟨⟨⟩, hend, h⟩ := bind_eq_ok_iff.mp h
    cases h
    obtain ⟨rfl, hlen⟩ := cutBitmap_eq_ok_iff.mp hcut
    rw [show rest = [] from checkEnd_eq_ok_iff.mp hend] at hvalues
    obtain ⟨htypes, hfields⟩ := decodeFields_eq_ok_iff.mp hvalues
    exact ⟨htypes, bitmap, b, rfl, hlen, hfields⟩
  · intro h
    obtain ⟨htypes, bitmap, b, htuple, hlen, hfields⟩ := h
    rw [cutBitmap_eq_ok_iff.mpr ⟨htuple, hlen⟩]
    simp only [bind, Except.bind, decodeFields_eq_ok_iff.mpr ⟨htypes, hfields⟩]
    rfl

/-- Values are made of the tuples of the grammar whose texts are valid. -/
theorem decode_ok_iff : (∃ values, decode schema tuple = .ok values)
    ↔ ∃ contents, WellFormed schema tuple contents ∧ EachText Legible schema contents := by
  simp only [decode_eq_ok_iff]
  constructor
  · intro h
    obtain ⟨values, htypes, hformed⟩ := h
    exact ⟨_, hformed, eachText_of_hasType htypes⟩
  · intro h
    obtain ⟨contents, ⟨bitmap, b, htuple, hlen, hfields⟩, htexts⟩ := h
    obtain ⟨values, rfl, htypes⟩ := hfields.exists_values htexts
    exact ⟨values, htypes, bitmap, b, htuple, hlen, hfields⟩

/-- The two readers take the tuples of one grammar, in which a tuple has its contents in one way
only. A tuple that is refused for its size alone is reported as too large. -/
theorem accepted_iff_wellFormed (schema : Schema) (tuple : Bytes) :
    (∀ contents contents', WellFormed schema tuple contents → WellFormed schema tuple contents' → contents = contents')
    ∧ ((∃ values, decode schema tuple = .ok values)
      ↔ ∃ contents, WellFormed schema tuple contents ∧ EachText Legible schema contents)
    ∧ ((∃ packed, Packed.encode schema tuple = .ok packed)
      ↔ ∃ contents, WellFormed schema tuple contents ∧ EachText Declared schema contents
        ∧ Packed.headerSize schema + (joined contents).length ≤ Packed.maxSize)
    ∧ ∀ contents, WellFormed schema tuple contents → EachText Declared schema contents →
      Packed.maxSize < Packed.headerSize schema + (joined contents).length →
      ∃ size, Packed.maxSize < size
        ∧ Packed.encode schema tuple = .error (.recordTooLarge size Packed.maxSize) :=
  ⟨fun _ _ => WellFormed.unique, decode_ok_iff, encode_ok_iff, fun _ => WellFormed.encode_tooLarge⟩

/-- A text that is not valid is packed, but it has no value. -/
example : Packed.encode [.varchar "a" 1] [0, 1, 0, 0, 0, 0xFF] = .ok [0, 1, 0, 0xFF]
    ∧ decode [.varchar "a" 1] [0, 1, 0, 0, 0, 0xFF] = .error (.malformedTuple (.invalidText (.invalid 0 1))) := by
  constructor
  · rfl
  · cbv

/-- A text that makes the record one byte larger than a page can take. -/
theorem accepted_iff_wellFormed_large : ∃ size, Packed.maxSize < size
    ∧ Packed.encode [.varchar "a" 5000] (0 :: counted (List.replicate 4080 97))
      = .error (.recordTooLarge size Packed.maxSize) := by
  have hlen : (List.replicate 4080 97 : Bytes).length = 4080 := List.length_replicate
  have hfields : Fields [0] [.varchar "a" 5000] 0 (counted (List.replicate 4080 97))
      [some (List.replicate 4080 97)] [] := by
    refine .content rfl ⟨4080, hlen.symm, ?_⟩ (.nil 1 [])
    rw [counted, hlen, List.append_nil]
    rfl
  have hformed : WellFormed [.varchar "a" 5000] (0 :: counted (List.replicate 4080 97))
      [some (List.replicate 4080 97)] := ⟨[0], _, rfl, rfl, hfields⟩
  have hdeclared : EachText Declared [.varchar "a" 5000] [some (List.replicate 4080 97)] := by
    refine eachText_cons.mpr ⟨fun _ => ?_, eachText_nil⟩
    rw [Declared, hlen]
    decide
  refine (accepted_iff_wellFormed _ _).2.2.2 _ hformed hdeclared ?_
  rw [joined, List.flatMap_singleton, Option.getD_some, hlen]
  decide

end Tuple

end Tablespace
