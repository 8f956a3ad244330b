import Tablespace.Proofs.Record.Bitmap
import Tablespace.Proofs.Run
import Tablespace.Proofs.Window
import Tablespace.Record.Packed

/-!
# Packing and unpacking

A tuple that can be packed is the tuple that is unpacked again, up to the bits
of its bitmap that stand for no field. Packing reads the contents of the fields
off the tuple and stores them one after the other, with the offsets where they
end in front, and each content is found again between two of these offsets.
-/

namespace Tablespace

namespace Packed

variable {schema : Schema} {packed bitmap tuple : Bytes}

/-! ## One field -/

theorem uint16At_middle (x z : Bytes) {n : Nat} (hn : n < UInt16.size) :
    (x ++ LittleEndian.ofNat 2 n ++ z).uint16At x.length = .ok (UInt16.ofNat n) := by
  have hs := Bytes.slice_middle x (LittleEndian.ofNat 2 n) z
  rw [LittleEndian.length_ofNat] at hs
  rw [Bytes.uint16At, hs]
  simp only [Except.map, LittleEndian.toUInt16, LittleEndian.toNat_ofNat, LittleEndian.range_two]
  rw [Nat.mod_eq_of_lt hn]

/-- How many bytes the content of a field may have. -/
def Wide (a : Attribute) (content : Bytes) : Prop :=
  if a.type = .varchar then content.length ≤ a.length.toNat else content.length = 4

/-- What `takeContent` cuts off a tuple is the field of the content that it returns. -/
theorem takeContent_eq {a : Attribute} {b content rest : Bytes}
    (h : takeContent a b = .ok (content, rest)) :
    b = fieldOfContent a.type content ++ rest ∧ Wide a content := by
  unfold takeContent at h
  cases hw : b.cut? 4 with
  | none => simp [hw] at h
  | some cut =>
    obtain ⟨word, tail⟩ := cut
    obtain ⟨rfl, hword⟩ := Bytes.cut?_eq_some_iff.mp hw
    simp only [hw] at h
    unfold Wide
    cases ht : a.type with
    | int =>
      simp only [ht] at h
      cases h
      exact ⟨rfl, hword⟩
    | real =>
      simp only [ht] at h
      cases h
      exact ⟨rfl, hword⟩
    | varchar =>
      simp only [ht] at h
      split at h
      · cases h
      · rename_i hle
        cases hc : tail.cut? (LittleEndian.toUInt32 word).toNat with
        | none => simp [hc] at h
        | some cut =>
          simp only [hc] at h
          cases h
          obtain ⟨rfl, hlen⟩ := Bytes.cut?_eq_some_iff.mp hc
          refine ⟨?_, ?_⟩
          · simp only [fieldOfContent, counted]
            rw [hlen, UInt32.ofNat_toNat, LittleEndian.ofUInt32_toUInt32 hword, List.append_assoc]
          · rw [if_pos rfl, hlen]
            exact Nat.not_lt.mp fun hlt => hle (UInt32.lt_iff_toNat_lt.mpr hlt)

theorem field_null {index : Nat} (hp : packed.slice 0 (NullBitmap.size schema.length) = .ok bitmap)
    (hi : index < schema.length) (hn : NullBitmap.isNull bitmap index = true) :
    field schema packed index = .ok none := by
  unfold field
  rw [List.getElem?_eq_getElem hi]
  simp only [hp, mapError_ok, bind, Except.bind, hn, if_true]
  rfl

theorem field_content {index : Nat} {start stop : UInt16} {a : Attribute} {content : Bytes}
    (hp : packed.slice 0 (NullBitmap.size schema.length) = .ok bitmap) (ha : schema[index]? = some a)
    (hn : NullBitmap.isNull bitmap index = false)
    (hstart : index = 0 ∧ start = 0 ∨ ∃ k, index = k + 1
      ∧ packed.uint16At (NullBitmap.size schema.length + 2 * k) = .ok start)
    (hstop : packed.uint16At (NullBitmap.size schema.length + 2 * index) = .ok stop)
    (hle : ¬ stop < start)
    (hcontent : packed.slice (headerSize schema + start.toNat) (stop.toNat - start.toNat) = .ok content)
    (hwide : Wide a content) : field schema packed index = .ok (some content) := by
  have hwidth : ¬ (a.type ≠ .varchar ∧ content.length ≠ 4) := fun hne => by
    rw [Wide, if_neg hne.1] at hwide
    exact hne.2 hwide
  unfold field
  rcases hstart with ⟨rfl, rfl⟩ | ⟨k, rfl, hstart⟩
  · simp only [ha, hp, hn, hstop, mapError_ok, bind, Except.bind, pure, Except.pure, if_true,
      Bool.false_eq_true, if_false, hle, hcontent, hwidth]
  · simp only [ha, hp, hn, hstop, mapError_ok, bind, Except.bind, pure, Except.pure,
      Nat.add_one_ne_zero, Nat.add_sub_cancel, hstart, Bool.false_eq_true, if_false, hle, hcontent,
      hwidth]

/-! ## The contents of all fields -/

/-- Contents one after the other, where a null has no bytes. -/
def joined (contents : List (Option Bytes)) : Bytes := contents.flatMap fun c => c.getD []

/-- Where the content of the field with a number begins. -/
def startOf (contents : List (Option Bytes)) (k : Nat) : Nat := (joined (contents.take k)).length

/-- Where each of the contents ends, when the first one begins at `start`. -/
def ends : Nat → List (Option Bytes) → List Nat
  | _, [] => []
  | start, c :: contents =>
    let stop := start + (c.getD []).length
    stop :: ends stop contents

section
variable {contents : List (Option Bytes)} {content : Option Bytes} {k start : Nat}

theorem joined_append (xs ys : List (Option Bytes)) : joined (xs ++ ys) = joined xs ++ joined ys :=
  List.flatMap_append

theorem joined_cons (c : Option Bytes) (contents : List (Option Bytes)) :
    joined (c :: contents) = c.getD [] ++ joined contents := List.flatMap_cons

theorem startOf_zero (contents : List (Option Bytes)) : startOf contents 0 = 0 := rfl

theorem startOf_succ (h : contents[k]? = some content) :
    startOf contents (k + 1) = startOf contents k + (content.getD []).length := by
  rw [startOf, List.take_add_one, h, joined_append, List.length_append]
  simp [startOf, joined]

theorem startOf_cons (c : Option Bytes) (contents : List (Option Bytes)) (k : Nat) :
    startOf (c :: contents) (k + 1) = (c.getD []).length + startOf contents k := by
  rw [startOf, List.take_succ_cons, joined_cons, List.length_append, startOf]

theorem length_ends : ∀ (start : Nat) (contents : List (Option Bytes)),
    (ends start contents).length = contents.length
  | _, [] => rfl
  | _, _ :: contents => congrArg (· + 1) (length_ends _ contents)

theorem length_words : ∀ words : List Nat, (words.flatMap (LittleEndian.ofNat 2)).length = 2 * words.length
  | [] => rfl
  | _ :: words => by
    rw [List.flatMap_cons, List.length_append, LittleEndian.length_ofNat, length_words, List.length_cons]
    omega

theorem getElem?_ends : ∀ {contents : List (Option Bytes)} {k : Nat} (start : Nat), k < contents.length →
    (ends start contents)[k]? = some (start + startOf contents (k + 1))
  | c :: contents, 0, start, _ => by
    rw [startOf_cons, startOf_zero]
    rfl
  | c :: contents, k + 1, start, h => by
    rw [ends, List.getElem?_cons_succ, getElem?_ends _ (Nat.lt_of_succ_lt_succ h), startOf_cons,
      Nat.add_assoc]

theorem slice_joined (front : Bytes) (h : contents[k]? = some content) :
    (front ++ joined contents).slice (front.length + startOf contents k) (content.getD []).length
      = .ok (content.getD []) := by
  obtain ⟨hk, he⟩ := List.getElem?_eq_some_iff.mp h
  have hsplit : contents = contents.take k ++ content :: contents.drop (k + 1) := by
    rw [← he, List.getElem_cons_drop, List.take_append_drop]
  have hjoin : front ++ joined contents
      = (front ++ joined (contents.take k)) ++ content.getD [] ++ joined (contents.drop (k + 1)) := by
    conv => lhs; rw [hsplit, joined_append, joined_cons]
    simp only [List.append_assoc]
  rw [hjoin, startOf, ← List.length_append]
  exact Bytes.slice_middle _ _ _

theorem uint16At_directory (back : Bytes) : ∀ {stops : List Nat} {k stop : Nat} (front : Bytes),
    stops[k]? = some stop → stop < UInt16.size →
    (front ++ stops.flatMap (LittleEndian.ofNat 2) ++ back).uint16At (front.length + 2 * k)
      = .ok (UInt16.ofNat stop)
  | stop :: stops, 0, _, front, h, hlt => by
    cases h
    have := uint16At_middle front (stops.flatMap (LittleEndian.ofNat 2) ++ back) hlt
    rwa [← List.append_assoc, List.append_assoc front, ← List.flatMap_cons] at this
  | first :: stops, k + 1, stop, front, h, hlt => by
    rw [List.getElem?_cons_succ] at h
    have := uint16At_directory back (front ++ LittleEndian.ofNat 2 first) h hlt
    rwa [List.length_append, LittleEndian.length_ofNat, List.append_assoc front, ← List.flatMap_cons,
      Nat.add_assoc, Nat.add_comm 2] at this

end

/-! ## Packing -/

/-- The content of a field in front of `b`, none when the field is null. -/
def Takes (bitmap : Bytes) (a : Attribute) (index : Nat) (b : Bytes) (content : Option Bytes)
    (rest : Bytes) : Prop :=
  if NullBitmap.isNull bitmap index then content = none ∧ rest = b
  else ∃ c, content = some c ∧ takeContent a b = .ok (c, rest)

section
variable {size index start : Nat} {a : Attribute} {b directory values rest tail : Bytes} {content : Option Bytes}

theorem encodeFields_of_takes (h : Takes bitmap a index b content tail) :
    encodeFields bitmap size (a :: schema) index start b
      = if start + (content.getD []).length < UInt16.size then
          (encodeFields bitmap size schema (index + 1) (start + (content.getD []).length) tail).map fun out =>
            (LittleEndian.ofNat 2 (start + (content.getD []).length) ++ out.1, content.getD [] ++ out.2.1, out.2.2)
        else .error (tooLarge (size + (start + (content.getD []).length))) := by
  have hrest : ∀ c : Bytes, (do
      let stop := start + c.length
      unless stop < UInt16.size do throw (tooLarge (size + stop))
      let out ← encodeFields bitmap size schema (index + 1) stop tail
      return (LittleEndian.ofNat 2 stop ++ out.1, c ++ out.2.1, out.2.2) :
        Except RecordError (Bytes × Bytes × Bytes))
      = if start + c.length < UInt16.size then
          (encodeFields bitmap size schema (index + 1) (start + c.length) tail).map fun out =>
            (LittleEndian.ofNat 2 (start + c.length) ++ out.1, c ++ out.2.1, out.2.2)
        else .error (tooLarge (size + (start + c.length))) := by
    intro c
    dsimp only
    split
    · cases encodeFields bitmap size schema (index + 1) (start + c.length) tail <;> rfl
    · rfl
  unfold Takes at h
  rw [encodeFields]
  split at h
  · obtain ⟨rfl, rfl⟩ := h
    rw [if_pos ‹_›]
    exact hrest []
  · obtain ⟨c, rfl, htake⟩ := h
    rw [if_neg ‹_›, htake]
    exact hrest c

theorem encodeFields_cons
    (h : encodeFields bitmap size (a :: schema) index start b = .ok (directory, values, rest)) :
    ∃ content tail directory' values', Takes bitmap a index b content tail
      ∧ start + (content.getD []).length < UInt16.size
      ∧ encodeFields bitmap size schema (index + 1) (start + (content.getD []).length) tail
        = .ok (directory', values', rest)
      ∧ directory = LittleEndian.ofNat 2 (start + (content.getD []).length) ++ directory'
      ∧ values = content.getD [] ++ values' := by
  obtain ⟨content, tail, htake⟩ : ∃ content tail, Takes bitmap a index b content tail := by
    unfold Takes
    by_cases hn : NullBitmap.isNull bitmap index = true
    · exact ⟨none, b, by rw [if_pos hn]; exact ⟨rfl, rfl⟩⟩
    · unfold encodeFields at h
      rw [if_neg hn] at h
      cases ht : takeContent a b with
      | error e => rw [ht] at h; cases h
      | ok cut => exact ⟨some cut.1, cut.2, by rw [if_neg hn]; exact ⟨cut.1, rfl, rfl⟩⟩
  rw [encodeFields_of_takes htake] at h
  split at h
  · cases hrest : encodeFields bitmap size schema (index + 1) (start + (content.getD []).length) tail with
    | error e => rw [hrest] at h; cases h
    | ok out =>
      rw [hrest] at h
      cases h
      exact ⟨content, tail, out.1, out.2.1, htake, ‹_›, hrest, rfl, rfl⟩
  · cases h

end

/-- A field in the format of tuples, none for a null. -/
def tupleField (a : Attribute) (content : Option Bytes) : Option Bytes :=
  content.map (fieldOfContent a.type)

theorem map_isNone_tupleField {contents : List (Option Bytes)} (hlen : contents.length = schema.length) :
    (List.zipWith tupleField schema contents).map Option.isNone = contents.map Option.isNone := by
  refine List.ext_getElem (by simp [hlen]) fun k hk hk' => ?_
  simp [tupleField]

/-- The bitmap and the declared lengths allow these contents of the fields from `index` on. -/
structure Allowed (bitmap : Bytes) (schema : Schema) (index : Nat) (contents : List (Option Bytes)) :
    Prop where
  nulls : contents.map Option.isNone = (List.range' index schema.length).map (NullBitmap.isNull bitmap)
  wide : ∀ (k : Nat) a c, schema[k]? = some a → contents[k]? = some (some c) → Wide a c

section
variable {a : Attribute} {index start size : Nat} {b directory values rest : Bytes}
  {content : Option Bytes} {contents : List (Option Bytes)}

theorem Allowed.length (h : Allowed bitmap schema index contents) : contents.length = schema.length := by
  simpa using congrArg List.length h.nulls

theorem Takes.allowed (h : Takes bitmap a index b content rest)
    (hs : Allowed bitmap schema (index + 1) contents) :
    Allowed bitmap (a :: schema) index (content :: contents) := by
  unfold Takes at h
  have hfirst : content.isNone = NullBitmap.isNull bitmap index
      ∧ ∀ c, content = some c → Wide a c := by
    split at h
    · rename_i hn
      obtain ⟨rfl, -⟩ := h
      exact ⟨hn.symm, fun c hc => by cases hc⟩
    · rename_i hn
      obtain ⟨c, rfl, ht⟩ := h
      refine ⟨(Bool.eq_false_of_not_eq_true hn).symm, fun c' hc => ?_⟩
      cases hc
      exact (takeContent_eq ht).2
  constructor
  · rw [List.map_cons, List.length_cons, List.range'_succ, List.map_cons, hfirst.1, hs.nulls]
  · rintro (_ | k) a' c ha hc
    · cases ha
      exact hfirst.2 c (Option.some.inj hc)
    · exact hs.wide k a' c ha hc

theorem Takes.eq_append (h : Takes bitmap a index b content rest) :
    b = (tupleField a content).getD [] ++ rest := by
  unfold Takes at h
  split at h
  · obtain ⟨rfl, rfl⟩ := h
    rfl
  · obtain ⟨c, rfl, ht⟩ := h
    exact (takeContent_eq ht).1

/-- What is packed are the contents of the fields, which the tuple holds in its own format. -/
theorem contents_of_encodeFields : ∀ {schema : Schema} {index start : Nat} {b directory values : Bytes},
    encodeFields bitmap size schema index start b = .ok (directory, values, rest) →
    ∃ contents, Allowed bitmap schema index contents
      ∧ b = joined (List.zipWith tupleField schema contents) ++ rest
      ∧ directory = (ends start contents).flatMap (LittleEndian.ofNat 2) ∧ values = joined contents
      ∧ ∀ stop ∈ ends start contents, stop < UInt16.size
  | [], _, _, _, _, _, h => by
    cases h
    exact ⟨[], ⟨rfl, by simp⟩, rfl, rfl, rfl, by simp [ends]⟩
  | a :: schema, index, start, b, directory, values, h => by
    obtain ⟨content, tail, directory', values', htake, hlt, hrest, rfl, rfl⟩ := encodeFields_cons h
    obtain ⟨contents, hallowed, rfl, rfl, rfl, hends⟩ := contents_of_encodeFields hrest
    refine ⟨content :: contents, htake.allowed hallowed, ?_, rfl, rfl, ?_⟩
    · rw [htake.eq_append, List.zipWith_cons_cons, joined_cons, List.append_assoc]
    · intro stop hstop
      rcases List.mem_cons.mp hstop with rfl | hstop
      · exact hlt
      · exact hends stop hstop

end

/-! ## Packed records -/

/-- How a packed record stores the contents of the fields of a tuple, none for a null. -/
structure Stores (schema : Schema) (bitmap packed : Bytes) (contents : List (Option Bytes)) : Prop where
  bitmap_length : bitmap.length = NullBitmap.size schema.length
  allowed : Allowed bitmap schema 0 contents
  packed_eq : packed = bitmap ++ (ends 0 contents).flatMap (LittleEndian.ofNat 2) ++ joined contents
  ends_lt : ∀ stop ∈ ends 0 contents, stop < UInt16.size

section
variable {contents : List (Option Bytes)} {content : Option Bytes} {k : Nat}

theorem Stores.lt_length (h : Stores schema bitmap packed contents) (hk : contents[k]? = some content) :
    k < schema.length := by
  rw [← h.allowed.length]
  exact (List.getElem?_eq_some_iff.mp hk).1

theorem Stores.isNull_eq (h : Stores schema bitmap packed contents) (hk : contents[k]? = some content) :
    NullBitmap.isNull bitmap k = content.isNone := by
  have := congrArg (·[k]?) h.allowed.nulls
  simpa [hk, h.lt_length hk, eq_comm] using this

theorem Stores.startOf_lt (h : Stores schema bitmap packed contents) (hk : contents[k]? = some content) :
    startOf contents (k + 1) < UInt16.size := by
  have hend := getElem?_ends 0 (List.getElem?_eq_some_iff.mp hk).1
  rw [Nat.zero_add] at hend
  exact h.ends_lt _ (List.mem_of_getElem? hend)

theorem Stores.slice_bitmap (h : Stores schema bitmap packed contents) :
    packed.slice 0 (NullBitmap.size schema.length) = .ok bitmap := by
  rw [h.packed_eq, ← h.bitmap_length, List.append_assoc]
  exact Bytes.slice_middle [] bitmap _

theorem Stores.uint16At_eq (h : Stores schema bitmap packed contents) (hk : contents[k]? = some content) :
    packed.uint16At (NullBitmap.size schema.length + 2 * k)
      = .ok (UInt16.ofNat (startOf contents (k + 1))) := by
  have hend := getElem?_ends 0 (List.getElem?_eq_some_iff.mp hk).1
  rw [Nat.zero_add] at hend
  rw [h.packed_eq, ← h.bitmap_length]
  exact uint16At_directory _ bitmap hend (h.startOf_lt hk)

theorem Stores.slice_content (h : Stores schema bitmap packed contents) (hk : contents[k]? = some content) :
    packed.slice (headerSize schema + startOf contents k) (content.getD []).length
      = .ok (content.getD []) := by
  have hlen : (bitmap ++ (ends 0 contents).flatMap (LittleEndian.ofNat 2)).length = headerSize schema := by
    rw [List.length_append, h.bitmap_length, length_words, length_ends, h.allowed.length, headerSize]
  rw [h.packed_eq, ← hlen]
  exact slice_joined _ hk

/-- Each field is found again between two neighbours of the directory. -/
theorem Stores.field_eq (h : Stores schema bitmap packed contents) (hk : contents[k]? = some content) :
    field schema packed k = .ok content := by
  have hn := h.isNull_eq hk
  have hlt := h.lt_length hk
  cases content with
  | none => exact field_null h.slice_bitmap hlt hn
  | some c =>
    have ha := List.getElem?_eq_getElem hlt
    have hstop := startOf_succ hk
    have hfit := h.startOf_lt hk
    have hstart : (UInt16.ofNat (startOf contents k)).toNat = startOf contents k :=
      UInt16.toNat_ofNat_of_lt' (by omega)
    have hend : (UInt16.ofNat (startOf contents (k + 1))).toNat = startOf contents (k + 1) :=
      UInt16.toNat_ofNat_of_lt' hfit
    have hfront : k = 0 ∧ UInt16.ofNat (startOf contents k) = 0 ∨ ∃ j, k = j + 1
        ∧ packed.uint16At (NullBitmap.size schema.length + 2 * j)
          = .ok (UInt16.ofNat (startOf contents k)) := by
      cases k with
      | zero => exact .inl ⟨rfl, rfl⟩
      | succ j =>
        have hj := List.getElem?_eq_getElem (Nat.lt_of_succ_lt (List.getElem?_eq_some_iff.mp hk).1)
        exact .inr ⟨j, rfl, h.uint16At_eq hj⟩
    refine field_content h.slice_bitmap ha hn hfront (h.uint16At_eq hk) ?_ ?_ (h.allowed.wide k _ c ha hk)
    · rw [UInt16.lt_iff_toNat_lt, hend, hstart]
      omega
    · rw [hend, hstart, hstop, Nat.add_sub_cancel_left]
      exact h.slice_content hk

theorem Stores.fields_eq (h : Stores schema bitmap packed contents) {indices : List Nat}
    (hi : ∀ k ∈ indices, k < schema.length) : fields schema packed indices
      = .ok (indices.map fun k => (List.zipWith tupleField schema contents)[k]?.getD none) := by
  have hlen := h.allowed.length
  refine mapM_eq_ok ?_
  rw [List.map_map]
  refine List.map_congr_left fun k hk => ?_
  have hlt := hi k hk
  have hc : contents[k]? = some contents[k] := List.getElem?_eq_getElem (by omega)
  simp only [Function.comp, List.getElem?_zipWith, h.field_eq hc, hc, List.getElem?_eq_getElem hlt, bind,
    Except.bind, pure, Except.pure, Option.map_some, Option.getD_some, tupleField]
  cases contents[k] <;> rfl

end

/-! ## Records -/

theorem encode_eq_ok_iff {tuple : Bytes} : encode schema tuple = .ok packed ↔
    ∃ bitmap rest directory values, tuple = bitmap ++ rest
      ∧ bitmap.length = NullBitmap.size schema.length
      ∧ encodeFields bitmap (headerSize schema) schema 0 0 rest = .ok (directory, values, [])
      ∧ packed = bitmap ++ directory ++ values ∧ packed.length ≤ maxSize := by
  unfold encode Tuple.cutBitmap
  constructor
  · intro h
    cases hc : tuple.cut? (NullBitmap.size schema.length) with
    | none => simp only [hc] at h; cases h
    | some cut =>
      obtain ⟨bitmap, rest⟩ := cut
      obtain ⟨rfl, hlen⟩ := Bytes.cut?_eq_some_iff.mp hc
      simp only [hc, bind, Except.bind] at h
      cases he : encodeFields bitmap (headerSize schema) schema 0 0 rest with
      | error e => rw [he] at h; cases h
      | ok out =>
        obtain ⟨directory, values, left⟩ := out
        simp only [he, Tuple.checkEnd] at h
        cases left with
        | cons x left => cases h
        | nil =>
          simp only [List.isEmpty_nil, if_true] at h
          split at h
          · cases h
          · cases h
            exact ⟨bitmap, rest, directory, values, rfl, hlen, he, rfl, by omega⟩
  · rintro ⟨bitmap, rest, directory, values, rfl, hlen, he, rfl, hle⟩
    simp only [Bytes.cut?_eq_some_iff.mpr ⟨rfl, hlen⟩, bind, Except.bind, he, Tuple.checkEnd,
      List.isEmpty_nil, if_true, Nat.not_lt.mpr hle, if_false, pure, Except.pure]

theorem length_le_of_encode (h : encode schema tuple = .ok packed) : packed.length ≤ maxSize := by
  obtain ⟨_, _, _, _, -, -, -, -, hle⟩ := encode_eq_ok_iff.mp h
  exact hle

theorem stores_of_encode (h : encode schema tuple = .ok packed) :
    ∃ bitmap contents, Stores schema bitmap packed contents
      ∧ tuple = bitmap ++ joined (List.zipWith tupleField schema contents) := by
  obtain ⟨bitmap, rest, directory, values, rfl, hlen, he, rfl, -⟩ := encode_eq_ok_iff.mp h
  obtain ⟨contents, hallowed, rfl, rfl, rfl, hends⟩ := contents_of_encodeFields he
  exact ⟨bitmap, contents, ⟨hlen, hallowed, rfl, hends⟩, by rw [List.append_nil]⟩

theorem modify_append {f : UInt8 → UInt8} {rest : Bytes} : ∀ {b : Bytes} {i : Nat}, i < b.length →
    (b ++ rest).modify i f = b.modify i f ++ rest
  | _ :: _, 0, _ => rfl
  | x :: _, _ + 1, h => congrArg (x :: ·) (modify_append (Nat.lt_of_succ_lt_succ h))

theorem clearPadding_append {n : Nat} {rest : Bytes} (h : bitmap.length = NullBitmap.size n) :
    NullBitmap.clearPadding n (bitmap ++ rest) = NullBitmap.clearPadding n bitmap ++ rest := by
  unfold NullBitmap.clearPadding
  unfold NullBitmap.size at h
  split
  · rfl
  · exact modify_append (by omega)

/-- The fields of a tuple make up the tuple again, up to the padding of its bitmap. -/
theorem ofFlags_append_joined {contents : List (Option Bytes)} (hlen : bitmap.length = NullBitmap.size schema.length)
    (hnulls : contents.map Option.isNone = (List.range' 0 schema.length).map (NullBitmap.isNull bitmap)) :
    NullBitmap.ofFlags ((List.zipWith tupleField schema contents).map Option.isNone)
        ++ joined (List.zipWith tupleField schema contents)
      = NullBitmap.clearPadding schema.length (bitmap ++ joined (List.zipWith tupleField schema contents)) := by
  have hcount : contents.length = schema.length := by simpa using congrArg List.length hnulls
  rw [map_isNone_tupleField hcount, hnulls, ← List.range_eq_range', NullBitmap.ofFlags_isNull hlen,
    clearPadding_append hlen]

/-- Packing keeps all of a tuple but the padding of its bitmap. -/
theorem decode_encode (h : encode schema tuple = .ok packed) :
    decode schema packed = .ok (NullBitmap.clearPadding schema.length tuple) := by
  obtain ⟨bitmap, contents, hs, rfl⟩ := stores_of_encode h
  have hall : (List.range schema.length).map (fun k => (List.zipWith tupleField schema contents)[k]?.getD none)
      = List.zipWith tupleField schema contents := by
    refine List.ext_getElem (by simp [hs.allowed.length]) fun k hk hk' => ?_
    simp [List.getElem?_eq_getElem hk']
  unfold decode project
  simp only [hs.fields_eq fun k hk => List.mem_range.mp hk, hall, bind, Except.bind, pure, Except.pure]
  exact congrArg Except.ok (ofFlags_append_joined hs.bitmap_length hs.allowed.nulls)

end Packed

end Tablespace
