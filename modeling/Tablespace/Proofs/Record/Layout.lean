import Mathlib.Data.List.Chain
import Tablespace.Proofs.Record.RoundTrip

/-!
# The layout of packed records

What packing makes of a tuple, byte by byte, and what comes back when the record is
unpacked and packed once more.
-/

namespace Tablespace

namespace Packed

variable {schema : Schema} {tuple packed bitmap : Bytes} {contents : List (Option Bytes)}

/-- The contents of the fields of a tuple, none for a null, and the offsets where they end, as a
packed record stores them. -/
structure LaidOut (schema : Schema) (tuple packed : Bytes) (contents : List (Option Bytes))
    (stops : List Nat) : Prop where
  bitmap_le : NullBitmap.size schema.length ≤ tuple.length
  count : contents.length = schema.length
  null_iff : ∀ k < schema.length, contents[k]? = some none ↔ NullBitmap.isNull tuple k = true
  wide : ∀ (k : Nat) a c, schema[k]? = some a → contents[k]? = some (some c) → Wide a c
  tuple_eq : tuple = tuple.take (NullBitmap.size schema.length)
    ++ joined (List.zipWith tupleField schema contents)
  packed_eq : packed = tuple.take (NullBitmap.size schema.length)
    ++ stops.flatMap (LittleEndian.ofNat 2) ++ joined contents
  stop_count : stops.length = schema.length
  stop_lt : ∀ stop ∈ stops, stop < UInt16.size
  sorted : stops.Pairwise (· ≤ ·)
  null_repeats : ∀ k : Nat, contents[k]? = some none → stops[k]? = (0 :: stops)[k]?
  last : stops.getLastD 0 = (joined contents).length
  field_eq : ∀ (k : Nat) content, contents[k]? = some content → field schema packed k = .ok content

/-- Unpacking undoes packing, and both keep all but the padding of the bitmap. -/
structure RoundTrips (schema : Schema) (tuple packed : Bytes) : Prop where
  decodes : decode schema packed = .ok (NullBitmap.clearPadding schema.length tuple)
  decodes_iff : decode schema packed = .ok tuple
    ↔ ∀ i, schema.length ≤ i → i < 8 * NullBitmap.size schema.length → NullBitmap.isNull tuple i = false
  reencodes : encode schema (NullBitmap.clearPadding schema.length tuple)
    = .ok (NullBitmap.clearPadding schema.length packed)
  laidOut : ∃ contents stops, LaidOut schema tuple packed contents stops

/-! ## Offsets -/

theorem isChain_ends : ∀ (start : Nat) (contents : List (Option Bytes)),
    List.IsChain (· ≤ ·) (start :: ends start contents)
  | start, [] => .singleton start
  | _, _ :: contents => .cons_cons (Nat.le_add_right ..) (isChain_ends _ contents)

theorem ends_sorted (start : Nat) (contents : List (Option Bytes)) :
    (ends start contents).Pairwise (· ≤ ·) :=
  (List.pairwise_cons.mp (List.isChain_iff_pairwise.mp (isChain_ends start contents))).2

theorem getElem?_ends_before {k : Nat} (h : k < contents.length) :
    (0 :: ends 0 contents)[k]? = some (startOf contents k) := by
  cases k with
  | zero => rfl
  | succ j => rw [List.getElem?_cons_succ, getElem?_ends 0 (Nat.lt_of_succ_lt h), Nat.zero_add]

theorem getLastD_ends : ∀ (start : Nat) (contents : List (Option Bytes)),
    (ends start contents).getLastD start = start + (joined contents).length
  | _, [] => rfl
  | _, c :: contents => by
    rw [ends, List.getLastD_cons, getLastD_ends, joined_cons, List.length_append, Nat.add_assoc]

/-! ## Packing again -/

theorem encodeFields_congr {bitmap' : Bytes} {size : Nat} : ∀ {schema : Schema} {index : Nat} (start : Nat)
    (b : Bytes),
    (∀ i, index ≤ i → i < index + schema.length →
      NullBitmap.isNull bitmap' i = NullBitmap.isNull bitmap i) →
    encodeFields bitmap' size schema index start b = encodeFields bitmap size schema index start b
  | [], _, _, _, _ => rfl
  | a :: schema, index, start, b, h => by
    have hfirst := h index (Nat.le_refl _) (by rw [List.length_cons]; omega)
    have hrest (start : Nat) (b : Bytes) : encodeFields bitmap' size schema (index + 1) start b
        = encodeFields bitmap size schema (index + 1) start b :=
      encodeFields_congr start b fun i hi hlt => h i (by omega) (by rw [List.length_cons]; omega)
    simp only [encodeFields, hfirst, hrest]

theorem encode_clearPadding (h : encode schema tuple = .ok packed) :
    encode schema (NullBitmap.clearPadding schema.length tuple)
      = .ok (NullBitmap.clearPadding schema.length packed) := by
  obtain ⟨bitmap, rest, directory, values, rfl, hlen, he, rfl, hle⟩ := encode_eq_ok_iff.mp h
  refine encode_eq_ok_iff.mpr ⟨_, rest, directory, values, clearPadding_append hlen,
    (NullBitmap.length_clearPadding ..).trans hlen, ?_, ?_, ?_⟩
  · rw [← he]
    refine encodeFields_congr 0 rest fun i _ hi => ?_
    rw [NullBitmap.isNull_clearPadding hlen, decide_eq_true (by omega), Bool.and_true]
  · rw [List.append_assoc, clearPadding_append hlen, List.append_assoc]
  · rwa [NullBitmap.length_clearPadding]

/-! ## Records -/

theorem Stores.laidOut (h : Stores schema bitmap packed contents)
    (ht : tuple = bitmap ++ joined (List.zipWith tupleField schema contents)) :
    LaidOut schema tuple packed contents (ends 0 contents) := by
  subst ht
  have hlen := h.bitmap_length
  have hcount := h.allowed.length
  have hfront : (bitmap ++ joined (List.zipWith tupleField schema contents)).take
      (NullBitmap.size schema.length) = bitmap := by rw [← hlen, List.take_left]
  constructor
  case bitmap_le => rw [List.length_append, hlen]; exact Nat.le_add_right ..
  case count => exact hcount
  case null_iff =>
    intro k hk
    have hin : k < 8 * bitmap.length := by
      rw [hlen, NullBitmap.size]
      omega
    have hc := List.getElem?_eq_getElem (hcount.symm ▸ hk : k < contents.length)
    rw [NullBitmap.isNull_append hin, h.isNull_eq hc, hc, Option.isNone_iff_eq_none, Option.some.injEq]
  case wide => exact h.allowed.wide
  case tuple_eq => rw [hfront]
  case packed_eq => rw [hfront]; exact h.packed_eq
  case stop_count => rw [length_ends, hcount]
  case stop_lt => exact h.ends_lt
  case sorted => exact ends_sorted 0 contents
  case null_repeats =>
    intro k hk
    have hlt := (List.getElem?_eq_some_iff.mp hk).1
    rw [getElem?_ends 0 hlt, getElem?_ends_before hlt, startOf_succ hk, Nat.zero_add]
    rfl
  case last => rw [getLastD_ends, Nat.zero_add]
  case field_eq => exact fun k content hk => h.field_eq hk

theorem decode_eq_ok_self_iff (h : encode schema tuple = .ok packed) :
    decode schema packed = .ok tuple ↔ ∀ i, schema.length ≤ i →
      i < 8 * NullBitmap.size schema.length → NullBitmap.isNull tuple i = false := by
  have hdecode := decode_encode h
  obtain ⟨bitmap, contents, hs, rfl⟩ := stores_of_encode h
  have hlen := hs.bitmap_length
  rw [hdecode, Except.ok.injEq, clearPadding_append hlen, List.append_left_inj,
    NullBitmap.clearPadding_eq_self_iff hlen]
  refine forall_congr' fun i => forall_congr' fun _ => forall_congr' fun hi => ?_
  rw [NullBitmap.isNull_append (by rwa [hlen])]

theorem roundTrips_of_encode (h : encode schema tuple = .ok packed) : RoundTrips schema tuple packed where
  decodes := decode_encode h
  decodes_iff := decode_eq_ok_self_iff h
  reencodes := encode_clearPadding h
  laidOut := by
    obtain ⟨bitmap, contents, hs, ht⟩ := stores_of_encode h
    exact ⟨contents, ends 0 contents, hs.laidOut ht⟩

/-- A number, a null and a text, with a bit of the padding set. -/
theorem roundTrips_of_encode_padded :
    encode [.int "a", .real "b", .varchar "c" 5] [0x41, 7, 0, 0, 0, 2, 0, 0, 0, 104, 105]
        = .ok [0x41, 4, 0, 4, 0, 6, 0, 7, 0, 0, 0, 104, 105]
      ∧ RoundTrips [.int "a", .real "b", .varchar "c" 5] [0x41, 7, 0, 0, 0, 2, 0, 0, 0, 104, 105]
        [0x41, 4, 0, 4, 0, 6, 0, 7, 0, 0, 0, 104, 105] :=
  ⟨by rfl, roundTrips_of_encode (by rfl)⟩

end Packed

end Tablespace
