import Tablespace.Proofs.Record.RoundTrip
import Tablespace.Record.Comparison

/-!
# Fields of tuples

A tuple falls apart into fields, and fields make up a tuple. What a projection
of a packed record shows are fields of the tuple that the record unpacks to,
and the content of a field is the content that the record stores.
-/

namespace Tablespace

namespace Tuple

/-- How many bytes the field at the front of a byte string has. -/
def fieldSize (type : AttributeType) (b : Bytes) : Nat :=
  match type with
  | .varchar => 4 + (LittleEndian.toUInt32 (b.take 4)).toNat
  | _ => 4

/-- The fields from `index` on, none for a null. -/
def fieldsFrom (bitmap : Bytes) : Schema → Nat → Bytes → List (Option Bytes)
  | [], _, _ => []
  | a :: schema, index, b =>
    if NullBitmap.isNull bitmap index then none :: fieldsFrom bitmap schema (index + 1) b
    else
      let size := fieldSize a.type b
      some (b.take size) :: fieldsFrom bitmap schema (index + 1) (b.drop size)

def fields (schema : Schema) (tuple : Bytes) : List (Option Bytes) :=
  let size := NullBitmap.size schema.length
  fieldsFrom (tuple.take size) schema 0 (tuple.drop size)

def fieldNamed (schema : Schema) (tuple : Bytes) (name : String) : Option Bytes :=
  match schema.find name with
  | .ok index => (fields schema tuple)[index]?.getD none
  | .error _ => none

def ofFields (fields : List (Option Bytes)) : Bytes :=
  NullBitmap.ofFlags (fields.map Option.isNone) ++ Packed.joined fields

/-- The tuple of the fields with the given names, in the order of the names. -/
def project (schema : Schema) (tuple : Bytes) (names : List String) : Bytes :=
  ofFields (names.map (fieldNamed schema tuple))

/-- The field that is tested is not null and compares with the comparand as asked; nothing is tested
where any comparison will do. -/
def Meets (schema : Schema) (tuple : Bytes) (tested : String) (comparison : Comparison)
    (comparand : Option Bytes) : Prop :=
  comparison = .any ∨ ∃ index a field key x y, schema.find tested = .ok index ∧ schema[index]? = some a
    ∧ fieldNamed schema tuple tested = some field ∧ comparand = some key
    ∧ keyContent a.type field = .ok x ∧ keyContent a.type key = .ok y
    ∧ comparison.accepts (compareContents a.type x y) = true

theorem meets_iff {schema : Schema} {tuple key y : Bytes} {tested : String} {comparison : Comparison} {index : Nat}
    {a : Attribute} (hany : comparison ≠ .any) (hindex : schema.find tested = .ok index)
    (ha : schema[index]? = some a) (hkey : keyContent a.type key = .ok y) :
    Meets schema tuple tested comparison (some key) ↔ ∃ field x, fieldNamed schema tuple tested = some field
      ∧ keyContent a.type field = .ok x ∧ comparison.accepts (compareContents a.type x y) = true := by
  constructor
  · rintro (rfl | ⟨index', a', field, key', x, y', hindex', ha', hfield, hkey', hx, hy', haccepts⟩)
    · exact absurd rfl hany
    · rw [hindex] at hindex'
      cases hindex'
      rw [ha] at ha'
      cases ha'
      cases hkey'
      rw [hkey] at hy'
      cases hy'
      exact ⟨field, x, hfield, hx, haccepts⟩
  · rintro ⟨field, x, hfield, hx, haccepts⟩
    exact .inr ⟨index, a, field, key, x, y, hindex, ha, hfield, rfl, hx, hkey, haccepts⟩

end Tuple

/-! ## Fields of contents -/

section
variable {a : Attribute} {content rest : Bytes}

theorem toUInt32_counted (h : content.length < UInt32.size) :
    (LittleEndian.toUInt32 ((counted content ++ rest).take 4)).toNat = content.length := by
  rw [counted, List.append_assoc, List.take_left' (LittleEndian.length_ofUInt32 _),
    LittleEndian.toUInt32_ofUInt32, UInt32.toNat_ofNat_of_lt' h]

theorem Packed.Wide.fieldSize_eq (h : Packed.Wide a content) :
    Tuple.fieldSize a.type (fieldOfContent a.type content ++ rest)
      = (fieldOfContent a.type content).length := by
  unfold Packed.Wide at h
  cases htype : a.type with
  | int =>
    rw [htype, if_neg (by decide)] at h
    exact h.symm
  | real =>
    rw [htype, if_neg (by decide)] at h
    exact h.symm
  | varchar =>
    rw [if_pos htype] at h
    rw [Tuple.fieldSize, fieldOfContent, toUInt32_counted (Nat.lt_of_le_of_lt h a.length.toNat_lt)]
    simp [counted]

/-- A field that is not null is a key of its content. -/
theorem Packed.Wide.keyContent_eq (h : Packed.Wide a content) :
    keyContent a.type (fieldOfContent a.type content) = .ok content := by
  unfold Packed.Wide at h
  cases htype : a.type with
  | int =>
    rw [htype, if_neg (by decide)] at h
    exact if_pos h
  | real =>
    rw [htype, if_neg (by decide)] at h
    exact if_pos h
  | varchar =>
    rw [if_pos htype] at h
    have hcut : (counted content).cut? 4 = some (LittleEndian.ofUInt32 (UInt32.ofNat content.length), content) :=
      Bytes.cut?_eq_some_iff.mpr ⟨rfl, LittleEndian.length_ofUInt32 _⟩
    have hlen : (UInt32.ofNat content.length).toNat = content.length :=
      UInt32.toNat_ofNat_of_lt' (Nat.lt_of_le_of_lt h a.length.toNat_lt)
    simp [keyContent, fieldOfContent, hcut, hlen]

end

namespace Packed

variable {schema : Schema} {bitmap packed tuple : Bytes} {contents : List (Option Bytes)} {index : Nat}

theorem Allowed.uncons {a : Attribute} {content : Option Bytes}
    (h : Allowed bitmap (a :: schema) index (content :: contents)) :
    content.isNone = NullBitmap.isNull bitmap index ∧ (∀ c, content = some c → Wide a c)
      ∧ Allowed bitmap schema (index + 1) contents := by
  have hnulls := h.nulls
  rw [List.length_cons, List.range'_succ, List.map_cons, List.map_cons, List.cons.injEq] at hnulls
  refine ⟨hnulls.1, ?_, hnulls.2, ?_⟩
  · rintro c rfl
    exact h.wide 0 a c rfl rfl
  · intro k a' c ha hc
    exact h.wide (k + 1) a' c ha hc

/-- A tuple of contents falls apart into their fields. -/
theorem Allowed.fieldsFrom_eq (h : Allowed bitmap schema index contents) :
    Tuple.fieldsFrom bitmap schema index (joined (List.zipWith tupleField schema contents))
      = List.zipWith tupleField schema contents := by
  induction schema generalizing index contents with
  | nil => rfl
  | cons a schema ih =>
    cases contents with
    | nil => cases h.length
    | cons content contents =>
      obtain ⟨hnull, hwide, hrest⟩ := h.uncons
      rw [List.zipWith_cons_cons, joined_cons]
      unfold Tuple.fieldsFrom
      cases content with
      | none =>
        have hnone : NullBitmap.isNull bitmap index = true := hnull.symm
        rw [if_pos hnone]
        exact congrArg (none :: ·) (ih hrest)
      | some c =>
        have hsome : NullBitmap.isNull bitmap index = false := hnull.symm
        have hsize : Tuple.fieldSize a.type (fieldOfContent a.type c ++ joined (List.zipWith tupleField schema contents))
            = (fieldOfContent a.type c).length := (hwide c rfl).fieldSize_eq
        simp only [hsome, Bool.false_eq_true, if_false, tupleField, Option.map_some, Option.getD_some, hsize,
          List.take_left, List.drop_left, ih hrest]

/-- Clearing the padding changes nothing that the bitmap says of a field. -/
theorem Stores.allowed_clearPadding (h : Stores schema bitmap packed contents) :
    Allowed (NullBitmap.clearPadding schema.length bitmap) schema 0 contents where
  nulls := by
    rw [h.allowed.nulls]
    refine List.map_congr_left fun k hk => ?_
    have hlt : k < schema.length := by simpa using (List.mem_range'_1.mp hk).2
    rw [NullBitmap.isNull_clearPadding h.bitmap_length, decide_eq_true hlt, Bool.and_true]
  wide := h.allowed.wide

theorem Allowed.fields_eq (h : Allowed bitmap schema 0 contents)
    (hlen : bitmap.length = NullBitmap.size schema.length) :
    Tuple.fields schema (bitmap ++ joined (List.zipWith tupleField schema contents))
      = List.zipWith tupleField schema contents := by
  unfold Tuple.fields
  simp only [List.take_left' hlen, List.drop_left' hlen]
  exact h.fieldsFrom_eq

theorem Stores.fields_tuple (h : Stores schema bitmap packed contents)
    (htuple : tuple = bitmap ++ joined (List.zipWith tupleField schema contents)) :
    Tuple.fields schema (NullBitmap.clearPadding schema.length tuple)
      = List.zipWith tupleField schema contents := by
  rw [htuple, clearPadding_append h.bitmap_length]
  refine h.allowed_clearPadding.fields_eq ?_
  rw [NullBitmap.length_clearPadding, h.bitmap_length]

end Packed

end Tablespace
