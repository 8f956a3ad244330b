import Tablespace.Proofs.Record.RoundTrip

/-!
# The grammar of tuples

A tuple is a bitmap and the fields whose bits in it are clear, in the order of
the schema, with nothing behind them. It has its contents in one way only, and
it is packed unless a text is longer than declared or the record too large.
-/

namespace Tablespace

namespace Tuple

open LittleEndian (ofUInt32 toUInt32)
open Packed (joined)

/-- The field at the front has the content: a number its four bytes, a text the bytes behind their
count. -/
def Holds (type : AttributeType) (content b rest : Bytes) : Prop :=
  match type with
  | .varchar => ∃ n : UInt32, n.toNat = content.length ∧ b = ofUInt32 n ++ content ++ rest
  | _ => content.length = 4 ∧ b = content ++ rest

/-- The fields from a number on have the contents, none for a null, and the rest lies behind them. -/
inductive Fields (bitmap : Bytes) : Schema → Nat → Bytes → List (Option Bytes) → Bytes → Prop
  | nil (index : Nat) (rest : Bytes) : Fields bitmap [] index rest [] rest
  | null {a schema index b contents rest} : NullBitmap.isNull bitmap index = true →
      Fields bitmap schema (index + 1) b contents rest →
      Fields bitmap (a :: schema) index b (none :: contents) rest
  | content {a schema index b tail c contents rest} : NullBitmap.isNull bitmap index = false →
      Holds a.type c b tail → Fields bitmap schema (index + 1) tail contents rest →
      Fields bitmap (a :: schema) index b (some c :: contents) rest

def WellFormed (schema : Schema) (tuple : Bytes) (contents : List (Option Bytes)) : Prop :=
  ∃ bitmap b, tuple = bitmap ++ b ∧ bitmap.length = NullBitmap.size schema.length
    ∧ Fields bitmap schema 0 b contents []

/-! ## Texts -/

def EachText (P : Attribute → Bytes → Prop) (schema : Schema) (contents : List (Option Bytes)) : Prop :=
  ∀ (k : Nat) a c, schema[k]? = some a → contents[k]? = some (some c) → a.type = .varchar → P a c

def Declared (a : Attribute) (content : Bytes) : Prop := content.length ≤ a.length.toNat

section
variable {P : Attribute → Bytes → Prop} {a : Attribute} {schema : Schema} {c : Bytes}
  {contents : List (Option Bytes)}

theorem eachText_nil : EachText P [] [] := by
  intro k a c ha
  cases ha

theorem eachText_null : EachText P (a :: schema) (none :: contents) ↔ EachText P schema contents := by
  constructor
  · intro h k
    exact h (k + 1)
  · intro h k a' c' ha hc
    cases k with
    | zero => cases hc
    | succ k => exact h k a' c' ha hc

theorem eachText_cons : EachText P (a :: schema) (some c :: contents)
    ↔ (a.type = .varchar → P a c) ∧ EachText P schema contents := by
  constructor
  · intro h
    exact ⟨h 0 a c rfl rfl, fun k => h (k + 1)⟩
  · intro h k a' c' ha hc
    cases k with
    | zero =>
      cases ha
      cases hc
      exact h.1
    | succ k => exact h.2 k a' c' ha hc

end

/-! ## One field -/

section
variable {type : AttributeType} {a : Attribute} {b c c' rest rest' : Bytes}

theorem holds_number (htype : type ≠ .varchar) : Holds type c b rest ↔ b.cut? 4 = some (c, rest) := by
  rw [Bytes.cut?_eq_some_iff, and_comm]
  cases type with
  | varchar => exact absurd rfl htype
  | int => rfl
  | real => rfl

theorem holds_text : Holds .varchar c b rest
    ↔ ∃ word tail, b.cut? 4 = some (word, tail) ∧ tail.cut? (toUInt32 word).toNat = some (c, rest) := by
  simp only [Bytes.cut?_eq_some_iff]
  constructor
  · intro h
    obtain ⟨n, hn, rfl⟩ := h
    refine ⟨ofUInt32 n, c ++ rest, ⟨by rw [List.append_assoc], LittleEndian.length_ofUInt32 n⟩, rfl, ?_⟩
    rw [LittleEndian.toUInt32_ofUInt32, hn]
  · intro h
    obtain ⟨word, tail, ⟨rfl, hword⟩, rfl, hc⟩ := h
    refine ⟨toUInt32 word, hc.symm, ?_⟩
    rw [LittleEndian.ofUInt32_toUInt32 hword, List.append_assoc]

theorem Holds.unique (h : Holds type c b rest) (h' : Holds type c' b rest') : c = c' ∧ rest = rest' := by
  by_cases htype : type = .varchar
  · subst htype
    obtain ⟨word, tail, hword, hc⟩ := holds_text.mp h
    obtain ⟨word', tail', hword', hc'⟩ := holds_text.mp h'
    rw [hword] at hword'
    cases hword'
    rw [hc] at hc'
    cases hc'
    exact ⟨rfl, rfl⟩
  · rw [holds_number htype] at h h'
    rw [h] at h'
    cases h'
    exact ⟨rfl, rfl⟩

theorem holds_of_wide (h : Packed.Wide a c) (rest : Bytes) :
    Holds a.type c (fieldOfContent a.type c ++ rest) rest ∧ (a.type = .varchar → Declared a c) := by
  unfold Packed.Wide at h
  cases htype : a.type with
  | int =>
    rw [htype, if_neg (by decide)] at h
    exact ⟨⟨h, rfl⟩, by simp⟩
  | real =>
    rw [htype, if_neg (by decide)] at h
    exact ⟨⟨h, rfl⟩, by simp⟩
  | varchar =>
    rw [if_pos htype] at h
    have hcount : (UInt32.ofNat c.length).toNat = c.length :=
      UInt32.toNat_ofNat_of_lt' (Nat.lt_of_le_of_lt h a.length.toNat_lt)
    exact ⟨⟨UInt32.ofNat c.length, hcount, rfl⟩, fun _ => h⟩

theorem Holds.eq_append (h : Holds a.type c b rest) : b = fieldOfContent a.type c ++ rest := by
  cases htype : a.type with
  | int => rw [htype] at h; exact h.2
  | real => rw [htype] at h; exact h.2
  | varchar =>
    rw [htype] at h
    obtain ⟨n, hn, rfl⟩ := h
    rw [fieldOfContent, counted, ← hn, UInt32.ofNat_toNat]

theorem holds_of_takeContent (h : Packed.takeContent a b = .ok (c, rest)) :
    Holds a.type c b rest ∧ (a.type = .varchar → Declared a c) := by
  obtain ⟨rfl, hwide⟩ := Packed.takeContent_eq h
  exact holds_of_wide hwide rest

theorem Holds.takeContent_eq (h : Holds a.type c b rest) (hlen : a.type = .varchar → Declared a c) :
    Packed.takeContent a b = .ok (c, rest) := by
  unfold Packed.takeContent
  cases htype : a.type with
  | int =>
    rw [htype, holds_number (by decide)] at h
    simp only [h]
    rfl
  | real =>
    rw [htype, holds_number (by decide)] at h
    simp only [h]
    rfl
  | varchar =>
    rw [htype] at h
    obtain ⟨word, tail, hword, htext⟩ := holds_text.mp h
    have hle : ¬ a.length < toUInt32 word := by
      rw [UInt32.lt_iff_toNat_lt, ← (Bytes.cut?_eq_some_iff.mp htext).2]
      exact Nat.not_lt.mpr (hlen htype)
    simp only [hword, hle, if_false, htext]
    rfl

end

/-! ## All fields -/

section
variable {bitmap b rest rest' directory values : Bytes} {schema : Schema} {index start size : Nat}
  {contents contents' : List (Option Bytes)}

theorem Fields.unique (h : Fields bitmap schema index b contents rest)
    (h' : Fields bitmap schema index b contents' rest') : contents = contents' ∧ rest = rest' := by
  induction h generalizing contents' with
  | nil =>
    cases h'
    exact ⟨rfl, rfl⟩
  | null hnull _ ih =>
    cases h' with
    | null _ hrest =>
      obtain ⟨rfl, rfl⟩ := ih hrest
      exact ⟨rfl, rfl⟩
    | content hsome =>
      rw [hnull] at hsome
      cases hsome
  | content hsome hc _ ih =>
    cases h' with
    | null hnull =>
      rw [hsome] at hnull
      cases hnull
    | content _ hc' hrest =>
      obtain ⟨rfl, rfl⟩ := hc.unique hc'
      obtain ⟨rfl, rfl⟩ := ih hrest
      exact ⟨rfl, rfl⟩

theorem Fields.eq_append (h : Fields bitmap schema index b contents rest) :
    b = joined (List.zipWith Packed.tupleField schema contents) ++ rest := by
  induction h with
  | nil => rfl
  | null _ _ ih => exact ih
  | content _ hc _ ih =>
    rw [hc.eq_append, ih, List.zipWith_cons_cons, Packed.joined_cons, List.append_assoc]
    rfl

theorem Fields.nulls (h : Fields bitmap schema index b contents rest) :
    contents.map Option.isNone = (List.range' index schema.length).map (NullBitmap.isNull bitmap) := by
  induction h with
  | nil => rfl
  | null hnull _ ih => rw [List.map_cons, List.length_cons, List.range'_succ, List.map_cons, hnull, ih]; rfl
  | content hsome _ _ ih => rw [List.map_cons, List.length_cons, List.range'_succ, List.map_cons, hsome, ih]; rfl

/-! ### Packing -/

theorem Fields.of_takes {a : Attribute} {content : Option Bytes} {tail : Bytes}
    (h : Packed.Takes bitmap a index b content tail) (hfields : Fields bitmap schema (index + 1) tail contents rest)
    (htexts : EachText Declared schema contents) :
    Fields bitmap (a :: schema) index b (content :: contents) rest
      ∧ EachText Declared (a :: schema) (content :: contents) := by
  unfold Packed.Takes at h
  split at h
  · obtain ⟨rfl, rfl⟩ := h
    exact ⟨.null ‹_› hfields, eachText_null.mpr htexts⟩
  · obtain ⟨c, rfl, htake⟩ := h
    obtain ⟨hc, hlen⟩ := holds_of_takeContent htake
    exact ⟨.content ((Bool.not_eq_true _).mp ‹_›) hc hfields, eachText_cons.mpr ⟨hlen, htexts⟩⟩

theorem Fields.exists_takes {a : Attribute} (h : Fields bitmap (a :: schema) index b contents rest)
    (htexts : EachText Declared (a :: schema) contents) :
    ∃ content tail contents', contents = content :: contents' ∧ Packed.Takes bitmap a index b content tail
      ∧ Fields bitmap schema (index + 1) tail contents' rest ∧ EachText Declared schema contents' := by
  unfold Packed.Takes
  cases h with
  | null hnull hrest =>
    refine ⟨none, b, _, rfl, ?_, hrest, eachText_null.mp htexts⟩
    rw [if_pos hnull]
    exact ⟨rfl, rfl⟩
  | @content _ _ _ _ tail c contents' _ hsome hc hrest =>
    obtain ⟨hlen, hothers⟩ := eachText_cons.mp htexts
    refine ⟨some c, tail, contents', rfl, ?_, hrest, hothers⟩
    rw [hsome, if_neg Bool.false_ne_true]
    exact ⟨c, rfl, hc.takeContent_eq hlen⟩

theorem fields_of_encodeFields
    (h : Packed.encodeFields bitmap size schema index start b = .ok (directory, values, rest)) :
    ∃ contents, Fields bitmap schema index b contents rest ∧ EachText Declared schema contents
      ∧ directory.length = 2 * schema.length ∧ values = joined contents := by
  induction schema generalizing index start b directory values with
  | nil =>
    cases h
    exact ⟨[], .nil index _, eachText_nil, rfl, rfl⟩
  | cons a schema ih =>
    obtain ⟨content, tail, directory', values', htake, -, hrest, rfl, rfl⟩ := Packed.encodeFields_cons h
    obtain ⟨contents, hfields, htexts, hdirectory, rfl⟩ := ih hrest
    obtain ⟨hall, htexts⟩ := Fields.of_takes htake hfields htexts
    refine ⟨content :: contents, hall, htexts, ?_, rfl⟩
    rw [List.length_append, LittleEndian.length_ofNat, hdirectory, List.length_cons, Nat.mul_succ, Nat.add_comm]

theorem Fields.exists_encodeFields (h : Fields bitmap schema index b contents rest)
    (htexts : EachText Declared schema contents) (hfit : start + (joined contents).length < UInt16.size)
    (size : Nat) : ∃ directory, directory.length = 2 * schema.length
      ∧ Packed.encodeFields bitmap size schema index start b = .ok (directory, joined contents, rest) := by
  induction schema generalizing index start b contents with
  | nil =>
    cases h
    exact ⟨[], rfl, rfl⟩
  | cons a schema ih =>
    obtain ⟨content, tail, contents, rfl, htake, hrest, htexts⟩ := h.exists_takes htexts
    rw [Packed.joined_cons, List.length_append, ← Nat.add_assoc] at hfit
    obtain ⟨directory, hdirectory, hencode⟩ := ih hrest htexts hfit
    refine ⟨LittleEndian.ofNat 2 (start + (content.getD []).length) ++ directory, ?_, ?_⟩
    · rw [List.length_append, LittleEndian.length_ofNat, hdirectory, List.length_cons, Nat.mul_succ, Nat.add_comm]
    · rw [Packed.encodeFields_of_takes htake, if_pos (Nat.lt_of_le_of_lt (Nat.le_add_right ..) hfit), hencode]
      rfl

/-- An offset that takes more than two bytes ends the packing. -/
theorem Fields.encodeFields_tooLarge (h : Fields bitmap schema index b contents rest)
    (htexts : EachText Declared schema contents) (hstart : start < UInt16.size)
    (hlarge : UInt16.size ≤ start + (joined contents).length) (size : Nat) :
    ∃ stop, UInt16.size ≤ stop ∧ Packed.encodeFields bitmap size schema index start b
      = .error (Packed.tooLarge (size + stop)) := by
  induction schema generalizing index start b contents with
  | nil =>
    cases h
    exact absurd hstart (Nat.not_lt.mpr hlarge)
  | cons a schema ih =>
    obtain ⟨content, tail, contents, rfl, htake, hrest, htexts⟩ := h.exists_takes htexts
    rw [Packed.joined_cons, List.length_append, ← Nat.add_assoc] at hlarge
    rw [Packed.encodeFields_of_takes htake]
    by_cases hfit : start + (content.getD []).length < UInt16.size
    · obtain ⟨stop, hstop, herror⟩ := ih hrest htexts hfit hlarge
      refine ⟨stop, hstop, ?_⟩
      rw [if_pos hfit, herror]
      rfl
    · exact ⟨_, Nat.le_of_not_lt hfit, if_neg hfit⟩

end

/-! ## Tuples -/

variable {schema : Schema} {tuple packed : Bytes} {contents contents' : List (Option Bytes)}

theorem WellFormed.unique (h : WellFormed schema tuple contents) (h' : WellFormed schema tuple contents') :
    contents = contents' := by
  obtain ⟨bitmap, b, rfl, hlen, hfields⟩ := h
  obtain ⟨bitmap', b', heq, hlen', hfields'⟩ := h'
  obtain ⟨rfl, rfl⟩ := List.append_inj heq (hlen.trans hlen'.symm)
  exact (hfields.unique hfields').1

theorem WellFormed.length_eq (h : WellFormed schema tuple contents) : contents.length = schema.length := by
  obtain ⟨bitmap, b, -, -, hfields⟩ := h
  simpa using congrArg List.length hfields.nulls

theorem WellFormed.isNull_eq (h : WellFormed schema tuple contents) {k : Nat} {content : Option Bytes}
    (hk : contents[k]? = some content) : NullBitmap.isNull tuple k = content.isNone := by
  have hlt : k < schema.length := h.length_eq ▸ (List.getElem?_eq_some_iff.mp hk).1
  obtain ⟨bitmap, b, rfl, hlen, hfields⟩ := h
  have hin : k < 8 * bitmap.length := by
    rw [hlen, NullBitmap.size]
    omega
  have hnull := congrArg (·[k]?) hfields.nulls
  rw [NullBitmap.isNull_append hin]
  simpa [hk, hlt, eq_comm] using hnull

theorem cutBitmap_eq_ok_iff {bitmap b : Bytes} : cutBitmap schema tuple = .ok (bitmap, b)
    ↔ tuple = bitmap ++ b ∧ bitmap.length = NullBitmap.size schema.length := by
  unfold cutBitmap
  rw [← Bytes.cut?_eq_some_iff]
  cases tuple.cut? (NullBitmap.size schema.length) <;> simp

theorem checkEnd_eq_ok_iff {rest : Bytes} : checkEnd rest = .ok () ↔ rest = [] := by
  cases rest <;> simp [checkEnd]

/-- The tuples of the grammar whose texts are no longer than declared are packed unless they take
too many bytes. -/
theorem encode_ok_iff : (∃ packed, Packed.encode schema tuple = .ok packed)
    ↔ ∃ contents, WellFormed schema tuple contents ∧ EachText Declared schema contents
      ∧ Packed.headerSize schema + (joined contents).length ≤ Packed.maxSize := by
  constructor
  · intro h
    obtain ⟨packed, h⟩ := h
    obtain ⟨bitmap, b, directory, values, htuple, hlen, hencode, rfl, hle⟩ := Packed.encode_eq_ok_iff.mp h
    obtain ⟨contents, hfields, htexts, hdirectory, rfl⟩ := fields_of_encodeFields hencode
    rw [List.length_append, List.length_append, hlen, hdirectory] at hle
    exact ⟨contents, ⟨bitmap, b, htuple, hlen, hfields⟩, htexts, hle⟩
  · intro h
    obtain ⟨contents, ⟨bitmap, b, htuple, hlen, hfields⟩, htexts, hle⟩ := h
    have hfit : 0 + (joined contents).length < UInt16.size := by
      rw [Nat.zero_add]
      exact Nat.lt_of_le_of_lt (Nat.le_of_add_left_le hle) (by decide)
    obtain ⟨directory, hdirectory, hencode⟩ := hfields.exists_encodeFields htexts hfit (Packed.headerSize schema)
    refine ⟨_, Packed.encode_eq_ok_iff.mpr ⟨bitmap, b, _, _, htuple, hlen, hencode, rfl, ?_⟩⟩
    rwa [List.length_append, List.length_append, hlen, hdirectory]

/-- A tuple of one text is packed as the text behind its end. -/
theorem encode_text {name : String} {limit : UInt32} {text : Bytes} {n : Nat} (hn : text.length = n)
    (hlen : n ≤ limit.toNat) (hsize : 3 + n ≤ Packed.maxSize) :
    Packed.encode [.varchar name limit] (0 :: counted text) = .ok (0 :: LittleEndian.ofNat 2 n ++ text) := by
  subst hn
  have htext : Packed.takeContent (.varchar name limit) (counted text) = .ok (text, []) := by
    refine Holds.takeContent_eq ⟨UInt32.ofNat text.length, ?_, (List.append_nil _).symm⟩ fun _ => hlen
    exact UInt32.toNat_ofNat_of_lt' (Nat.lt_of_le_of_lt hlen limit.toNat_lt)
  have htakes : Packed.Takes [0] (.varchar name limit) 0 (counted text) (some text) [] := ⟨text, rfl, htext⟩
  have hword : 0 + text.length < UInt16.size := by
    have : Packed.maxSize < UInt16.size := by decide
    omega
  refine Packed.encode_eq_ok_iff.mpr
    ⟨[0], counted text, LittleEndian.ofNat 2 text.length, text, rfl, by simp [NullBitmap.size], ?_, rfl, ?_⟩
  · rw [Packed.encodeFields_of_takes htakes, Option.getD_some, if_pos hword, Packed.encodeFields]
    simp [Except.map]
  · rw [List.length_append, List.length_cons, LittleEndian.length_ofNat]
    omega

theorem WellFormed.encode_tooLarge (h : WellFormed schema tuple contents) (htexts : EachText Declared schema contents)
    (hlarge : Packed.maxSize < Packed.headerSize schema + (joined contents).length) :
    ∃ size, Packed.maxSize < size ∧ Packed.encode schema tuple = .error (.recordTooLarge size Packed.maxSize) := by
  obtain ⟨bitmap, b, htuple, hlen, hfields⟩ := h
  unfold Packed.encode
  rw [cutBitmap_eq_ok_iff.mpr ⟨htuple, hlen⟩]
  by_cases hfit : 0 + (joined contents).length < UInt16.size
  · obtain ⟨directory, hdirectory, hencode⟩ := hfields.exists_encodeFields htexts hfit (Packed.headerSize schema)
    rw [Packed.headerSize, ← hlen, ← hdirectory, ← List.length_append, ← List.length_append] at hlarge
    refine ⟨_, hlarge, ?_⟩
    simp only [bind, Except.bind, hencode, checkEnd, List.isEmpty_nil, if_true, hlarge]
    rfl
  · obtain ⟨stop, hstop, hencode⟩ :=
      hfields.encodeFields_tooLarge htexts (by decide) (Nat.le_of_not_lt hfit) (Packed.headerSize schema)
    have hsize : Packed.maxSize < Packed.headerSize schema + stop :=
      Nat.lt_of_lt_of_le (by decide : Packed.maxSize < UInt16.size) (Nat.le_add_left_of_le hstop)
    refine ⟨_, hsize, ?_⟩
    simp only [bind, Except.bind, hencode]
    rfl

end Tuple

end Tablespace
