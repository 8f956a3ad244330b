import Mathlib.Data.List.Chain
import Tablespace.Proofs.Record.RoundTrip

/-!
# Directories of any bytes

What unpacking asks of a byte string that need not be a packed record. It looks
at a field only if the bitmap does not call it null, and then at the two offsets
around it. These looks find every fault of a directory but two: a null field
that does not repeat the offset before it, and bytes behind the last content.
-/

namespace Tablespace

namespace Packed

variable {schema : Schema} {packed bitmap area : Bytes} {stops : List Nat} {k : Nat} {a : Attribute}
  {content : Option Bytes} {e : RecordError}

/-- The record falls apart into a bitmap, the offsets of a directory and the area of the contents. -/
structure Directory (schema : Schema) (packed bitmap : Bytes) (stops : List Nat) (area : Bytes) : Prop where
  bitmap_length : bitmap.length = NullBitmap.size schema.length
  count : stops.length = schema.length
  stop_lt : ∀ stop ∈ stops, stop < UInt16.size
  packed_eq : packed = bitmap ++ stops.flatMap (LittleEndian.ofNat 2) ++ area

/-- Where the field with a number ends. -/
def stopAt (stops : List Nat) (k : Nat) : Nat := stops.getD k 0

/-- Where the field with a number begins: where the one before it ends. -/
def startAt (stops : List Nat) (k : Nat) : Nat := stopAt (0 :: stops) k

def NullsRepeat (bitmap : Bytes) (stops : List Nat) : Prop :=
  ∀ k < stops.length, NullBitmap.isNull bitmap k = true → stopAt stops k = startAt stops k

def NumbersWide (schema : Schema) (bitmap : Bytes) (stops : List Nat) : Prop :=
  ∀ (k : Nat) a, schema[k]? = some a → a.type ≠ .varchar → NullBitmap.isNull bitmap k = false →
    stopAt stops k = startAt stops k + 4

/-- The offsets never decrease, a null repeats the one before it, and the last is the size of the area. -/
structure Consistent (bitmap : Bytes) (stops : List Nat) (area : Bytes) : Prop where
  sorted : stops.Pairwise (· ≤ ·)
  nulls : NullsRepeat bitmap stops
  last : stops.getLastD 0 = area.length

/-- The content between two offsets lies in an area of that size and has the width of its type. -/
def Readable (a : Attribute) (start stop size : Nat) : Prop :=
  start ≤ stop ∧ stop ≤ size ∧ (a.type ≠ .varchar → stop = start + 4)

/-! ## Offsets -/

theorem isChain_iff_stopAt : ∀ {start : Nat} {stops : List Nat}, List.IsChain (· ≤ ·) (start :: stops)
    ↔ ∀ k < stops.length, stopAt (start :: stops) k ≤ stopAt stops k
  | _, [] => by simp
  | start, stop :: stops => by
    rw [List.isChain_cons_cons, isChain_iff_stopAt]
    constructor
    · intro h k hk
      cases k with
      | zero => exact h.1
      | succ k => exact h.2 k (Nat.lt_of_succ_lt_succ hk)
    · intro h
      exact ⟨h 0 (Nat.succ_pos _), fun k hk => h (k + 1) (Nat.succ_lt_succ hk)⟩

theorem pairwise_iff : stops.Pairwise (· ≤ ·) ↔ ∀ k < stops.length, startAt stops k ≤ stopAt stops k := by
  unfold startAt
  rw [← isChain_iff_stopAt, List.isChain_iff_pairwise, List.pairwise_cons, and_iff_right fun _ _ => Nat.zero_le _]

theorem stopAt_le_last : ∀ {stops : List Nat} {k : Nat}, stops.Pairwise (· ≤ ·) → k < stops.length →
    stopAt stops k ≤ stops.getLastD 0
  | [], _, _, h => absurd h (Nat.not_lt_zero _)
  | stop :: stops, k, hsorted, hk => by
    have hlast : stopAt (stop :: stops) k ≤ (stop :: stops).getLast (List.cons_ne_nil _ _) := by
      rw [stopAt, List.getD_eq_getElem _ _ hk]
      exact hsorted.rel_getLast (List.getElem_mem hk)
    rwa [List.getLastD_eq_getLast?, List.getLast?_eq_some_getLast (List.cons_ne_nil _ _), Option.getD_some]

theorem exists_words : ∀ {n : Nat} {b : Bytes}, b.length = 2 * n → ∃ words : List Nat, words.length = n
    ∧ (∀ word ∈ words, word < UInt16.size) ∧ b = words.flatMap (LittleEndian.ofNat 2)
  | 0, _, h => ⟨[], rfl, by simp, List.length_eq_zero_iff.mp h⟩
  | n + 1, x :: y :: b, h => by
    have hrest : b.length = 2 * n := by
      rw [List.length_cons, List.length_cons] at h
      omega
    obtain ⟨words, hlen, hlt, rfl⟩ := exists_words hrest
    refine ⟨LittleEndian.toNat [x, y] :: words, congrArg (· + 1) hlen, ?_, ?_⟩
    · exact List.forall_mem_cons.mpr ⟨LittleEndian.toNat_lt [x, y], hlt⟩
    · rw [List.flatMap_cons]
      exact congrArg (· ++ _) (LittleEndian.ofNat_toNat [x, y]).symm

/-- Every byte string that is long enough has a directory. -/
theorem exists_directory (h : headerSize schema ≤ packed.length) :
    ∃ bitmap stops area, Directory schema packed bitmap stops area := by
  rw [headerSize] at h
  obtain ⟨stops, hlen, hlt, hstops⟩ :=
    exists_words (b := (packed.drop (NullBitmap.size schema.length)).take (2 * schema.length)) (n := schema.length)
      (by rw [List.length_take, List.length_drop]; omega)
  refine ⟨_, stops, (packed.drop (NullBitmap.size schema.length)).drop (2 * schema.length),
    List.length_take_of_le (Nat.le_of_add_right_le h), hlen, hlt, ?_⟩
  rw [← hstops, List.append_assoc, List.take_append_drop, List.take_append_drop]

/-! ## What a field needs -/

/-- The offset where a field begins, as it is stored. -/
def startWord (schema : Schema) (packed : Bytes) : Nat → Except OutOfBounds UInt16
  | 0 => .ok 0
  | k + 1 => packed.uint16At (NullBitmap.size schema.length + 2 * k)

def stopWord (schema : Schema) (packed : Bytes) (k : Nat) : Except OutOfBounds UInt16 :=
  packed.uint16At (NullBitmap.size schema.length + 2 * k)

def inside {α : Type} (k : Nat) : Except OutOfBounds α → Except RecordError α :=
  Except.mapError fun _ => .corruptRecord (.outside k)

/-- The content of a field that is not null, between two offsets. -/
def between (schema : Schema) (packed : Bytes) (k : Nat) (a : Attribute) (start stop : UInt16) :
    Except RecordError Bytes :=
  if stop < start then .error (.corruptRecord (.reversed k stop start))
  else (inside k (packed.slice (headerSize schema + start.toNat) (stop.toNat - start.toNat))).bind fun content =>
    if a.type ≠ .varchar ∧ content.length ≠ 4 then .error (.corruptRecord (.wrongWidth k content.length))
    else .ok content

theorem field_eq (ha : schema[k]? = some a) : field schema packed k = do
    let bitmap ← inside k (packed.slice 0 (NullBitmap.size schema.length))
    if NullBitmap.isNull bitmap k then return none
    let start ← inside k (startWord schema packed k)
    let stop ← inside k (stopWord schema packed k)
    return some (← between schema packed k a start stop) := by
  have hbetween (start : UInt16) : (do
        let stop ← inside k (stopWord schema packed k)
        if stop < start then throw (.corruptRecord (.reversed k stop start))
        let content ← inside k (packed.slice (headerSize schema + start.toNat) (stop.toNat - start.toNat))
        if a.type ≠ .varchar ∧ content.length ≠ 4 then
          throw (.corruptRecord (.wrongWidth k content.length))
        return some content)
      = do
        let stop ← inside k (stopWord schema packed k)
        return some (← between schema packed k a start stop) := by
    refine bind_congr fun stop => ?_
    unfold between
    by_cases hlt : stop < start
    · simp only [if_pos hlt]
      rfl
    · simp only [if_neg hlt]
      cases inside k (packed.slice (headerSize schema + start.toNat) (stop.toNat - start.toNat)) with
      | error e => rfl
      | ok content =>
        simp only [bind, Except.bind]
        split <;> rfl
  unfold field
  simp only [ha]
  refine bind_congr fun bitmap => ?_
  split
  · rfl
  · cases k with
    | zero => exact hbetween 0
    | succ k => exact bind_congr hbetween

theorem between_eq_ok_iff {start stop : UInt16} {c : Bytes} : between schema packed k a start stop = .ok c
    ↔ start ≤ stop ∧ packed.slice (headerSize schema + start.toNat) (stop.toNat - start.toNat) = .ok c
      ∧ (a.type ≠ .varchar → c.length = 4) := by
  unfold between
  by_cases hlt : stop < start
  · simp [hlt, UInt16.not_le.mpr hlt]
  · simp only [if_neg hlt, UInt16.not_lt.mp hlt, true_and]
    cases packed.slice (headerSize schema + start.toNat) (stop.toNat - start.toNat) with
    | error e => simp [inside, mapError_error, Except.bind]
    | ok content =>
      simp only [inside, mapError_ok, Except.bind, Except.ok.injEq]
      by_cases hwidth : a.type ≠ .varchar ∧ content.length ≠ 4
      · rw [if_pos hwidth]
        constructor
        · intro h
          cases h
        · intro h
          rw [← h.1] at h
          exact absurd (h.2 hwidth.1) hwidth.2
      · rw [if_neg hwidth, Except.ok.injEq, iff_self_and]
        rintro rfl htype
        exact Decidable.not_not.mp fun hne => hwidth ⟨htype, hne⟩

theorem exists_field_iff (ha : schema[k]? = some a)
    (hp : packed.slice 0 (NullBitmap.size schema.length) = .ok bitmap) (hn : NullBitmap.isNull bitmap k = false) :
    (∃ content, field schema packed k = .ok content) ↔ ∃ start stop c, startWord schema packed k = .ok start
      ∧ stopWord schema packed k = .ok stop ∧ between schema packed k a start stop = .ok c := by
  rw [field_eq ha, hp]
  simp only [inside, mapError_ok, bind, Except.bind, hn, Bool.false_eq_true, if_false]
  cases startWord schema packed k with
  | error e => simp [mapError_error]
  | ok start =>
    cases stopWord schema packed k with
    | error e => simp [mapError_ok, mapError_error]
    | ok stop => cases hc : between schema packed k a start stop <;> simp [mapError_ok, pure, Except.pure, hc]

/-! ## Refusals -/

/-- Whatever fails here fails as a corrupt record. -/
def OnlyCorrupt {α : Type} (x : Except RecordError α) : Prop :=
  ∀ e, x = .error e → ∃ fault, e = .corruptRecord fault

section
variable {α β : Type} {x : Except RecordError α} {g : α → Except RecordError β}

theorem onlyCorrupt_ok (y : α) : OnlyCorrupt (.ok y) := by
  intro e h
  cases h

theorem onlyCorrupt_error (fault : PackedFault) : OnlyCorrupt (.error (.corruptRecord fault) : Except RecordError α) := by
  intro e h
  cases h
  exact ⟨fault, rfl⟩

theorem onlyCorrupt_inside (k : Nat) (x : Except OutOfBounds α) : OnlyCorrupt (inside k x) := by
  cases x with
  | error e => exact onlyCorrupt_error (.outside k)
  | ok y => exact onlyCorrupt_ok y

theorem OnlyCorrupt.bind (hx : OnlyCorrupt x) (hg : ∀ y, OnlyCorrupt (g y)) : OnlyCorrupt (x >>= g) := by
  cases x with
  | error e' =>
    intro e h
    cases h
    exact hx e' rfl
  | ok y => exact hg y

end

theorem onlyCorrupt_between (schema : Schema) (packed : Bytes) (k : Nat) (a : Attribute) (start stop : UInt16) :
    OnlyCorrupt (between schema packed k a start stop) := by
  unfold between
  split
  · exact onlyCorrupt_error _
  · refine (onlyCorrupt_inside k _).bind fun content => ?_
    split
    · exact onlyCorrupt_error _
    · exact onlyCorrupt_ok content

theorem onlyCorrupt_field (hk : k < schema.length) : OnlyCorrupt (field schema packed k) := by
  rw [field_eq (List.getElem?_eq_getElem hk)]
  refine (onlyCorrupt_inside k _).bind fun bitmap => ?_
  split
  · exact onlyCorrupt_ok none
  · exact (onlyCorrupt_inside k _).bind fun start => (onlyCorrupt_inside k _).bind fun stop =>
      OnlyCorrupt.bind (onlyCorrupt_between schema packed k _ start stop) fun content => onlyCorrupt_ok _

/-! ## Projections -/

theorem project_ok_iff {indices : List Nat} : (∃ tuple, project schema packed indices = .ok tuple)
    ↔ ∀ k ∈ indices, ∃ content, field schema packed k = .ok content := by
  have hall : (∃ chosen, fields schema packed indices = .ok chosen)
      ↔ ∀ k ∈ indices, ∃ content, field schema packed k = .ok content := by
    rw [fields, exists_mapM_iff]
    refine forall_congr' fun k => forall_congr' fun _ => ?_
    cases field schema packed k <;> simp [bind, Except.bind, pure, Except.pure]
  rw [← hall]
  unfold project
  cases fields schema packed indices <;> simp [bind, Except.bind, pure, Except.pure]

theorem exists_of_project_eq_error {indices : List Nat} (h : project schema packed indices = .error e) :
    ∃ k ∈ indices, field schema packed k = .error e := by
  have hfields : fields schema packed indices = .error e := by
    unfold project at h
    cases hchosen : fields schema packed indices with
    | error e' => rw [hchosen] at h; cases h; rfl
    | ok chosen => rw [hchosen] at h; cases h
  obtain ⟨k, hk, he⟩ := exists_of_mapM_eq_error hfields
  refine ⟨k, hk, ?_⟩
  cases hc : field schema packed k with
  | error e' => rw [hc] at he; exact he
  | ok content => rw [hc] at he; cases he

/-! ## Fields of a directory -/

namespace Directory

variable (h : Directory schema packed bitmap stops area)
include h

theorem slice_bitmap : packed.slice 0 (NullBitmap.size schema.length) = .ok bitmap := by
  rw [h.packed_eq, ← h.bitmap_length, List.append_assoc]
  exact Bytes.slice_middle [] bitmap _

theorem length_eq : packed.length = headerSize schema + area.length := by
  rw [h.packed_eq, List.length_append, List.length_append, h.bitmap_length, length_words, h.count, headerSize]

theorem stopAt_lt (hk : k < schema.length) : stopAt stops k < UInt16.size := by
  rw [stopAt, List.getD_eq_getElem _ _ (h.count ▸ hk)]
  exact h.stop_lt _ (List.getElem_mem _)

theorem stopWord_eq (hk : k < schema.length) : stopWord schema packed k = .ok (UInt16.ofNat (stopAt stops k)) := by
  have hlt := h.stopAt_lt hk
  obtain ⟨stop, hstop⟩ : ∃ stop, stops[k]? = some stop := ⟨_, List.getElem?_eq_getElem (h.count ▸ hk)⟩
  have hat : stopAt stops k = stop := by rw [stopAt, List.getD_eq_getElem?_getD, hstop, Option.getD_some]
  rw [hat] at hlt ⊢
  rw [stopWord, h.packed_eq, ← h.bitmap_length]
  exact uint16At_directory area bitmap hstop hlt

theorem startAt_lt (hk : k < schema.length) : startAt stops k < UInt16.size := by
  cases k with
  | zero => exact (by decide : 0 < UInt16.size)
  | succ k => exact h.stopAt_lt (Nat.lt_of_succ_lt hk)

theorem startWord_eq (hk : k < schema.length) :
    startWord schema packed k = .ok (UInt16.ofNat (startAt stops k)) := by
  cases k with
  | zero => rfl
  | succ k => exact h.stopWord_eq (Nat.lt_of_succ_lt hk)

theorem field_ok_iff (ha : schema[k]? = some a) : (∃ content, field schema packed k = .ok content)
    ↔ NullBitmap.isNull bitmap k = true ∨ Readable a (startAt stops k) (stopAt stops k) area.length := by
  have hk := (List.getElem?_eq_some_iff.mp ha).1
  have hstart := UInt16.toNat_ofNat_of_lt' (h.startAt_lt hk)
  have hstop := UInt16.toNat_ofNat_of_lt' (h.stopAt_lt hk)
  cases hn : NullBitmap.isNull bitmap k with
  | true =>
    rw [field_null h.slice_bitmap hk hn]
    simp
  | false =>
    rw [exists_field_iff ha h.slice_bitmap hn, h.startWord_eq hk, h.stopWord_eq hk]
    simp only [Except.ok.injEq, exists_and_left, exists_eq_left', between_eq_ok_iff, UInt16.le_iff_toNat_le, hstart,
      hstop, Bool.false_eq_true, false_or]
    refine and_congr_right fun hle => ?_
    constructor
    · intro hc
      obtain ⟨c, hslice, hwidth⟩ := hc
      have hlen := Bytes.length_of_slice hslice
      have hin := (Bytes.slice_eq_ok_iff.mp hslice).1
      rw [h.length_eq] at hin
      exact ⟨by omega, fun htype => by have := hwidth htype; omega⟩
    · intro hr
      have hin : headerSize schema + startAt stops k + (stopAt stops k - startAt stops k) ≤ packed.length := by
        rw [h.length_eq]
        have := hr.1
        omega
      refine ⟨_, Bytes.slice_of_le hin, fun htype => ?_⟩
      rw [Bytes.length_of_slice (Bytes.slice_of_le hin), hr.2 htype, Nat.add_sub_cancel_left]

end Directory

/-- Of a record that is too short for its directory only nulls can be read. -/
theorem field_ok_iff_of_short (hshort : packed.length < headerSize schema) (ha : schema[k]? = some a) :
    (∃ content, field schema packed k = .ok content)
      ↔ NullBitmap.size schema.length ≤ packed.length ∧ NullBitmap.isNull packed k = true := by
  have hk := (List.getElem?_eq_some_iff.mp ha).1
  have hin : k < 8 * NullBitmap.size schema.length := by
    rw [NullBitmap.size]
    omega
  by_cases hsize : NullBitmap.size schema.length ≤ packed.length
  · have hbitmap : packed.slice 0 (NullBitmap.size schema.length) = .ok (packed.take (NullBitmap.size schema.length)) :=
      Bytes.slice_of_le (by rwa [Nat.zero_add])
    have hsame : NullBitmap.isNull packed k = NullBitmap.isNull (packed.take (NullBitmap.size schema.length)) k := by
      conv => lhs; rw [← List.take_append_drop (NullBitmap.size schema.length) packed]
      exact NullBitmap.isNull_append (by rwa [List.length_take_of_le hsize])
    rw [hsame, and_iff_right hsize]
    cases hn : NullBitmap.isNull (packed.take (NullBitmap.size schema.length)) k with
    | true => exact iff_of_true ⟨none, field_null hbitmap hk hn⟩ rfl
    | false =>
      rw [exists_field_iff ha hbitmap hn]
      refine iff_of_false (fun h => ?_) Bool.false_ne_true
      obtain ⟨start, stop, c, -, -, hc⟩ := h
      have hin := (Bytes.slice_eq_ok_iff.mp (between_eq_ok_iff.mp hc).2.1).1
      omega
  · have hbitmap : packed.slice 0 (NullBitmap.size schema.length)
        = .error ⟨0, NullBitmap.size schema.length, packed.length⟩ := if_neg (by rwa [Nat.zero_add])
    rw [field_eq ha, hbitmap]
    simp [hsize, inside, mapError_error, bind, Except.bind]

/-! ## Records -/

theorem decode_ok_iff : (∃ tuple, decode schema packed = .ok tuple)
    ↔ ∀ k a, schema[k]? = some a → ∃ content, field schema packed k = .ok content := by
  unfold decode
  rw [project_ok_iff]
  constructor
  · intro h k a ha
    exact h k (List.mem_range.mpr (List.getElem?_eq_some_iff.mp ha).1)
  · intro h k hk
    exact h k _ (List.getElem?_eq_getElem (List.mem_range.mp hk))

theorem decode_ok_or_corrupt (schema : Schema) (packed : Bytes) : (∃ tuple, decode schema packed = .ok tuple)
    ∨ ∃ fault, decode schema packed = .error (.corruptRecord fault) := by
  cases hd : decode schema packed with
  | ok tuple => exact .inl ⟨tuple, rfl⟩
  | error e =>
    obtain ⟨k, hk, he⟩ := exists_of_project_eq_error hd
    obtain ⟨fault, rfl⟩ := onlyCorrupt_field (List.mem_range.mp hk) e he
    exact .inr ⟨fault, rfl⟩

namespace Directory

variable (h : Directory schema packed bitmap stops area)
include h

theorem decode_ok_iff : (∃ tuple, decode schema packed = .ok tuple)
    ↔ ∀ k a, schema[k]? = some a → NullBitmap.isNull bitmap k = false →
      Readable a (startAt stops k) (stopAt stops k) area.length := by
  rw [Packed.decode_ok_iff]
  refine forall_congr' fun k => forall_congr' fun a => forall_congr' fun ha => ?_
  rw [h.field_ok_iff ha]
  cases NullBitmap.isNull bitmap k <;> simp

theorem consistent_iff : Consistent bitmap stops area ∧ NumbersWide schema bitmap stops
    ↔ (∃ tuple, decode schema packed = .ok tuple) ∧ NullsRepeat bitmap stops ∧ stops.getLastD 0 = area.length := by
  rw [h.decode_ok_iff]
  constructor
  · intro hc
    obtain ⟨⟨hsorted, hnulls, hlast⟩, hwide⟩ := hc
    refine ⟨fun k a ha hn => ?_, hnulls, hlast⟩
    have hk : k < stops.length := h.count ▸ (List.getElem?_eq_some_iff.mp ha).1
    exact ⟨pairwise_iff.mp hsorted k hk, hlast ▸ stopAt_le_last hsorted hk, fun htype => hwide k a ha htype hn⟩
  · intro hd
    obtain ⟨hread, hnulls, hlast⟩ := hd
    refine ⟨⟨pairwise_iff.mpr fun k hk => ?_, hnulls, hlast⟩, fun k a ha htype hn => (hread k a ha hn).2.2 htype⟩
    cases hn : NullBitmap.isNull bitmap k with
    | true => exact Nat.le_of_eq (hnulls k hk hn).symm
    | false => exact (hread k _ (List.getElem?_eq_getElem (h.count ▸ hk)) hn).1

end Directory

theorem decode_ok_iff_of_short (hshort : packed.length < headerSize schema) :
    (∃ tuple, decode schema packed = .ok tuple) ↔ NullBitmap.size schema.length ≤ packed.length
      ∧ ∀ k < schema.length, NullBitmap.isNull packed k = true := by
  have hpos : 0 < schema.length := by
    rw [headerSize, NullBitmap.size] at hshort
    omega
  rw [decode_ok_iff]
  constructor
  · intro h
    have hread (k : Nat) (hk : k < schema.length) :=
      (field_ok_iff_of_short hshort (List.getElem?_eq_getElem hk)).mp (h k _ (List.getElem?_eq_getElem hk))
    exact ⟨(hread 0 hpos).1, fun k hk => (hread k hk).2⟩
  · intro h k a ha
    exact (field_ok_iff_of_short hshort ha).mpr ⟨h.1, h.2 k (List.getElem?_eq_some_iff.mp ha).1⟩

/-- A record with a consistent directory and numbers of four bytes is unpacked, and so is a record
with another directory only if a null does not repeat the offset before it or bytes lie behind the
last content. What is refused is refused as corrupt. -/
theorem decodes_iff_consistent (schema : Schema) (packed : Bytes) :
    ((∃ tuple, decode schema packed = .ok tuple) ∨ ∃ fault, decode schema packed = .error (.corruptRecord fault))
    ∧ (packed.length < headerSize schema → ((∃ tuple, decode schema packed = .ok tuple)
      ↔ NullBitmap.size schema.length ≤ packed.length ∧ ∀ k < schema.length, NullBitmap.isNull packed k = true))
    ∧ (headerSize schema ≤ packed.length → ∃ bitmap stops area, Directory schema packed bitmap stops area)
    ∧ ∀ bitmap stops area, Directory schema packed bitmap stops area →
      ((∃ tuple, decode schema packed = .ok tuple) ↔ ∀ k a, schema[k]? = some a →
        NullBitmap.isNull bitmap k = false → Readable a (startAt stops k) (stopAt stops k) area.length)
      ∧ (Consistent bitmap stops area ∧ NumbersWide schema bitmap stops ↔ (∃ tuple, decode schema packed = .ok tuple)
        ∧ NullsRepeat bitmap stops ∧ stops.getLastD 0 = area.length) :=
  ⟨decode_ok_or_corrupt schema packed, decode_ok_iff_of_short, exists_directory, fun _ _ _ h =>
    ⟨h.decode_ok_iff, h.consistent_iff⟩⟩

/-- A null between two contents, and a null without a directory. -/
theorem decodes_iff_consistent_null :
    Directory [.int "a", .real "b", .varchar "c" 5] [0x40, 4, 0, 4, 0, 6, 0, 7, 0, 0, 0, 104, 105] [0x40] [4, 4, 6]
        [7, 0, 0, 0, 104, 105]
      ∧ Consistent [0x40] [4, 4, 6] [7, 0, 0, 0, 104, 105]
      ∧ ([0x80] : Bytes).length < headerSize [.int "a"]
      ∧ ∃ tuple, decode [.int "a"] [0x80] = .ok tuple := by
  have hdir : Directory [.int "a", .real "b", .varchar "c" 5] [0x40, 4, 0, 4, 0, 6, 0, 7, 0, 0, 0, 104, 105] [0x40]
      [4, 4, 6] [7, 0, 0, 0, 104, 105] := ⟨rfl, rfl, by decide, rfl⟩
  have hnulls : NullsRepeat [0x40] [4, 4, 6] := by
    unfold NullsRepeat
    decide
  have hshort : ([0x80] : Bytes).length < headerSize [.int "a"] := by decide
  obtain ⟨-, -, -, hall⟩ := decodes_iff_consistent [.int "a", .real "b", .varchar "c" 5]
    [0x40, 4, 0, 4, 0, 6, 0, 7, 0, 0, 0, 104, 105]
  refine ⟨hdir, ((hall _ _ _ hdir).2.mpr ⟨⟨_, rfl⟩, hnulls, rfl⟩).1, hshort, ?_⟩
  exact ((decodes_iff_consistent [.int "a"] [0x80]).2.1 hshort).mpr ⟨by decide, by decide⟩

/-- The offset of a null that lies before its field begins, and bytes behind it. -/
theorem decodes_reversed :
    decode [.int "a", .int "b"] [0x40, 4, 0, 0, 0, 7, 0, 0, 0] = .ok [0x40, 7, 0, 0, 0]
      ∧ Directory [.int "a", .int "b"] [0x40, 4, 0, 0, 0, 7, 0, 0, 0] [0x40] [4, 0] [7, 0, 0, 0]
      ∧ ¬ [4, 0].Pairwise (· ≤ ·) ∧ ¬ NullsRepeat [0x40] [4, 0]
      ∧ [4, 0].getLastD 0 ≠ ([7, 0, 0, 0] : Bytes).length := by
  refine ⟨rfl, ⟨rfl, rfl, by decide, rfl⟩, by decide, ?_, by decide⟩
  unfold NullsRepeat
  decide

end Packed

end Tablespace
