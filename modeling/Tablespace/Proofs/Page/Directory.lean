import Tablespace.Page.Edit
import Tablespace.Proofs.Run
import Tablespace.Proofs.Window

/-!
# The directory of a page

A page lists slots when its directory stores each of them where it is looked
up. Edits are followed on that list: a slot is replaced, a slot is added in
front, and writes elsewhere leave the list as it is.
-/

namespace Tablespace

open Bytes (AgreeOff)

namespace SlottedPage

/-- Where the first byte of a directory of `count` slots lies. -/
def directoryStart (count : Nat) : Nat := Trailer.offset - Slot.size * count

/-- The directory of the page reads as these slots. -/
structure Lists (p : SlottedPage) (slots : List Slot) : Prop where
  size : p.bytes.length = pageSize
  count : p.trailer.slotCount.toNat = slots.length
  room : Trailer.size + Slot.size * slots.length ≤ pageSize
  stored : ∀ n s, slots[n]? = some s →
    ∃ b, p.bytes.slice (directoryStart (n + 1)) Slot.size = .ok b ∧ Slot.decode b = .ok s

variable {p q : SlottedPage} {slots : List Slot} {n : SlotNum} {s : Slot} {a b c : UInt16}

theorem lt_of_getElem?_eq_some {α : Type} {xs : List α} {i : Nat} {x : α} (h : xs[i]? = some x) :
    i < xs.length := (List.getElem?_eq_some_iff.mp h).1

theorem toNat_ofNat_of_lt {i : Nat} (h : i < UInt16.size) : (UInt16.ofNat i).toNat = i :=
  UInt16.toNat_ofNat_of_lt' h

theorem toNat_add_of_lt (h : a.toNat + b.toNat < UInt16.size) :
    (a + b).toNat = a.toNat + b.toNat := (UInt16.toNat_add a b).trans (Nat.mod_eq_of_lt h)

/-! ## Sums -/

theorem run_sum (h : (a + b).toNat = a.toNat + b.toNat) (p : SlottedPage) :
    sum a b p = .ok (a + b) p := by
  have hlt : a.toNat + b.toNat < UInt16.size := h ▸ (a + b).toNat_lt
  rw [sum, if_pos hlt]
  rfl

theorem run_difference (h : b ≤ a) (p : SlottedPage) :
    difference a b p = .ok (a - b) p := by
  rw [difference, if_pos h]
  rfl

theorem sum_cases (a b : UInt16) (p : SlottedPage) :
    UInt16.size ≤ a.toNat + b.toNat ∧ sum a b p = .error .overflow p
    ∨ a.toNat + b.toNat < UInt16.size ∧ sum a b p = .ok (a + b) p := by
  rcases Nat.lt_or_ge (a.toNat + b.toNat) UInt16.size with hlt | hge
  · exact .inr ⟨hlt, run_sum (toNat_add_of_lt hlt) p⟩
  · refine .inl ⟨hge, ?_⟩
    rw [sum, if_neg (Nat.not_lt.mpr hge)]
    rfl

theorem sum_eq_ok (h : sum a b p = .ok c q) : c = a + b ∧ q = p ∧ a.toNat + b.toNat < UInt16.size := by
  rcases sum_cases a b p with ⟨-, hno⟩ | ⟨hlt, hrun⟩
  · rw [h] at hno
    cases hno
  · rw [h] at hrun
    cases hrun
    exact ⟨rfl, rfl, hlt⟩

/-! ## Reading -/

theorem slotOffset_of_lt (h : p.Lists slots) {n : SlotNum} (hn : n.toNat < slots.length) :
    slotOffset n = directoryStart (n.toNat + 1) := by
  have hr := h.room
  rw [slotOffset_eq, directoryStart]
  simp only [Trailer.size, Slot.size, pageSize, Trailer.offset] at hr ⊢
  omega

theorem Lists.slot_eq (h : p.Lists slots) (hn : slots[n.toNat]? = some s) : p.slot n = .ok s := by
  have hlt := lt_of_getElem?_eq_some hn
  have hcount : n < p.trailer.slotCount := by rw [UInt16.lt_iff_toNat_lt, h.count]; exact hlt
  obtain ⟨b, hb, hs⟩ := h.stored _ _ hn
  rw [← slotOffset_of_lt h hlt] at hb
  simp [slot, hcount, hb, hs, inFile, mapError_ok, bind, Except.bind]

theorem Lists.slot_missing (h : p.Lists slots) (hn : slots[n.toNat]? = none) :
    p.slot n = .error (.recordNotFound ⟨p.number, n⟩) := by
  have hcount : ¬ n < p.trailer.slotCount := by
    rw [UInt16.lt_iff_toNat_lt, h.count]
    exact Nat.not_lt.mpr (List.getElem?_eq_none_iff.mp hn)
  simp [slot, hcount, bind, Except.bind, throw, throwThe, MonadExceptOf.throw]

theorem Lists.slot_eq_ok_iff (h : p.Lists slots) : p.slot n = .ok s ↔ slots[n.toNat]? = some s := by
  refine ⟨fun hs => ?_, h.slot_eq⟩
  cases hn : slots[n.toNat]? with
  | none => rw [h.slot_missing hn] at hs; cases hs
  | some t => rw [h.slot_eq hn] at hs; cases hs; rfl

theorem run_readSlot (h : p.slot n = .ok s) : readSlot n p = .ok s p := by
  rw [readSlot, run_get_bind, h]
  rfl

theorem readSlot_eq_ok (h : readSlot n p = .ok s q) : q = p ∧ p.slot n = .ok s := by
  rw [readSlot, run_get_bind] at h
  cases hs : p.slot n with
  | ok t => rw [hs] at h; cases h; exact ⟨rfl, rfl⟩
  | error e => rw [hs] at h; cases h

theorem Lists.run_readSlot (h : p.Lists slots) (hn : slots[n.toNat]? = some s) :
    readSlot n p = .ok s p := SlottedPage.run_readSlot (h.slot_eq hn)

/-! ## Writing -/

def withBytes (p : SlottedPage) (b : Bytes) : SlottedPage := { p with bytes := b }

@[simp] theorem bytes_withBytes (p : SlottedPage) (b : Bytes) : (p.withBytes b).bytes = b := rfl
@[simp] theorem number_withBytes (p : SlottedPage) (b : Bytes) : (p.withBytes b).number = p.number := rfl
@[simp] theorem trailer_withBytes (p : SlottedPage) (b : Bytes) :
    (p.withBytes b).trailer = p.trailer := rfl

theorem run_put {offset : Nat} {src : Bytes} (h : offset + src.length ≤ p.bytes.length) :
    put offset src p = .ok () (p.withBytes (p.bytes.overwrite offset src)) := by
  rw [put, run_get_bind, Bytes.write_of_le h]
  rfl

/-- Slots are read where they were if the directory and the count of slots stay. -/
theorem Lists.of_agree (h : p.Lists slots) {q : SlottedPage} {lo hi : Nat}
    (hq : q.trailer.slotCount = p.trailer.slotCount) (hsize : q.bytes.length = p.bytes.length)
    (hb : AgreeOff lo hi p.bytes q.bytes)
    (hd : hi ≤ directoryStart slots.length ∨ Trailer.offset ≤ lo) : q.Lists slots where
  size := hsize.trans h.size
  count := hq ▸ h.count
  room := h.room
  stored n s hn := by
    have hlt := lt_of_getElem?_eq_some hn
    have hr := h.room
    obtain ⟨entry, hentry, hs⟩ := h.stored n s hn
    refine ⟨entry, ?_, hs⟩
    rw [hb, hentry]
    simp only [directoryStart, Slot.size, Trailer.offset, Trailer.size, pageSize] at hd hr ⊢
    omega

theorem Lists.withTrailer (h : p.Lists slots) {t : Trailer} (ht : t.slotCount = p.trailer.slotCount) :
    ({ p with trailer := t } : SlottedPage).Lists slots :=
  h.of_agree ht rfl (AgreeOff.refl 0 0 _) (.inl (Nat.zero_le _))

theorem run_setSlot (hsize : p.bytes.length = pageSize)
    (hr : Trailer.size + Slot.size * (n.toNat + 1) ≤ pageSize) (s : Slot) :
    ∃ b, setSlot n s p = .ok () (p.withBytes b) ∧ b.length = pageSize
      ∧ b.slice (directoryStart (n.toNat + 1)) Slot.size = .ok s.encode
      ∧ AgreeOff (directoryStart (n.toNat + 1)) (directoryStart n.toNat) p.bytes b := by
  have hoff : slotOffset n = directoryStart (n.toNat + 1) := by
    rw [slotOffset_eq, directoryStart]
    simp only [Trailer.size, Slot.size, pageSize, Trailer.offset] at hr ⊢
    omega
  have hnext : directoryStart (n.toNat + 1) + s.encode.length = directoryStart n.toNat := by
    rw [Slot.length_encode]
    simp only [directoryStart, Slot.size, Trailer.offset, Trailer.size, pageSize] at hr ⊢
    omega
  have hin : directoryStart (n.toNat + 1) + s.encode.length ≤ p.bytes.length := by
    rw [hnext, hsize, directoryStart, Trailer.offset]
    omega
  refine ⟨p.bytes.overwrite (directoryStart (n.toNat + 1)) s.encode, ?_,
    (Bytes.length_overwrite hin).trans hsize, ?_, ?_⟩
  · rw [setSlot, hoff, run_put hin]
  · have := Bytes.slice_overwrite hin
    rwa [Slot.length_encode] at this
  · have := Bytes.agreeOff_overwrite hin
    rwa [hnext] at this

theorem entry_apart {count m n : Nat} (hr : Trailer.size + Slot.size * count ≤ pageSize)
    (hm : m < count) (hn : n < count) (hne : m ≠ n) :
    directoryStart (m + 1) + Slot.size ≤ directoryStart (n + 1)
      ∨ directoryStart n ≤ directoryStart (m + 1) := by
  simp only [directoryStart, Slot.size, Trailer.offset, Trailer.size, pageSize] at hr ⊢
  omega

theorem Lists.run_setSlot (h : p.Lists slots) (hn : n.toNat < slots.length) (s : Slot) :
    ∃ b, setSlot n s p = .ok () (p.withBytes b) ∧ (p.withBytes b).Lists (slots.set n.toNat s)
      ∧ AgreeOff (directoryStart slots.length) Trailer.offset p.bytes b := by
  have hr := h.room
  obtain ⟨b, hrun, hsize, hown, hag⟩ := SlottedPage.run_setSlot h.size (n := n)
    (by simp only [Slot.size] at hr ⊢; omega) s
  refine ⟨b, hrun, ⟨hsize, by simpa using h.count, by simpa using hr, ?_⟩, hag.mono ?_ ?_⟩
  · intro m t hm
    by_cases hmn : m = n.toNat
    · subst hmn
      rw [List.getElem?_set_self hn] at hm
      cases hm
      exact ⟨_, hown, Slot.decode_encode s⟩
    · rw [List.getElem?_set_ne (Ne.symm hmn)] at hm
      obtain ⟨entry, hentry, ht⟩ := h.stored m t hm
      exact ⟨entry, (hag _ _ (entry_apart hr (lt_of_getElem?_eq_some hm) hn hmn)).trans hentry, ht⟩
  all_goals
    simp only [directoryStart, Slot.size, Trailer.offset, Trailer.size, pageSize] at hr ⊢
    omega

theorem Lists.run_setSlot_push (h : p.Lists slots) {q : SlottedPage} (hb : q.bytes = p.bytes)
    (hcount : q.trailer.slotCount.toNat = slots.length + 1)
    (hr : Trailer.size + Slot.size * (slots.length + 1) ≤ pageSize) (hn : n.toNat = slots.length)
    (s : Slot) :
    ∃ b, setSlot n s q = .ok () (q.withBytes b) ∧ (q.withBytes b).Lists (slots ++ [s])
      ∧ AgreeOff (directoryStart (slots.length + 1)) Trailer.offset q.bytes b := by
  obtain ⟨b, hrun, hsize, hown, hag⟩ := SlottedPage.run_setSlot (hb ▸ h.size) (by rwa [hn]) s
  rw [hn] at hown hag
  refine ⟨b, hrun, ⟨hsize, by simpa using hcount, by simpa using hr, ?_⟩, hag.mono (Nat.le_refl _) ?_⟩
  · intro m t hm
    rcases Nat.lt_or_ge m slots.length with hlt | hge
    · rw [List.getElem?_append_left hlt] at hm
      obtain ⟨entry, hentry, ht⟩ := h.stored m t hm
      refine ⟨entry, (hag _ _ (entry_apart hr ?_ ?_ ?_)).trans (hb ▸ hentry), ht⟩ <;> omega
    · obtain rfl : m = slots.length := by
        have := lt_of_getElem?_eq_some hm
        rw [List.length_append, List.length_singleton] at this
        omega
      rw [List.getElem?_concat_length] at hm
      cases hm
      exact ⟨_, hown, Slot.decode_encode s⟩
  · simp only [directoryStart, Slot.size, Trailer.offset, Trailer.size, pageSize]
    omega

/-! ## The trailer -/

theorem length_encode_trailer (t : Trailer) : t.encode.length = Trailer.size := by
  simp [Trailer.encode, Trailer.size]

theorem decode_encode_trailer (t : Trailer) : Trailer.decode t.encode = t := by
  have h2 (w : UInt16) (b : Bytes) : (LittleEndian.ofUInt16 w ++ b).drop 2 = b := by
    rw [List.drop_append_of_le_length (by simp), List.drop_of_length_le (by simp), List.nil_append]
  have hdrop (b : Bytes) : b.drop 4 = (b.drop 2).drop 2 := by rw [List.drop_drop]
  have hlast (w : UInt16) : (LittleEndian.ofUInt16 w).take 2 = LittleEndian.ofUInt16 w :=
    List.take_of_length_le (by simp)
  simp only [Trailer.decode, Trailer.encode, List.append_assoc, hdrop, h2, hlast,
    Slot.take_append_ofUInt16, LittleEndian.toUInt16_ofUInt16]

/-- The page stores the trailer that is held beside its bytes. -/
def StoresTrailer (p : SlottedPage) : Prop :=
  p.bytes.slice Trailer.offset Trailer.size = .ok p.trailer.encode

theorem run_storeTrailer (hsize : p.bytes.length = pageSize) :
    ∃ b, storeTrailer p = .ok () (p.withBytes b) ∧ b.length = pageSize
      ∧ (p.withBytes b).StoresTrailer ∧ AgreeOff Trailer.offset pageSize p.bytes b := by
  have hin : Trailer.offset + p.trailer.encode.length ≤ p.bytes.length := by
    rw [length_encode_trailer, hsize]
    decide
  refine ⟨p.bytes.overwrite Trailer.offset p.trailer.encode, ?_, (Bytes.length_overwrite hin).trans hsize,
    ?_, ?_⟩
  · rw [storeTrailer, run_get_bind, run_put hin]
  · have := Bytes.slice_overwrite hin
    rwa [length_encode_trailer] at this
  · exact (Bytes.agreeOff_overwrite hin).mono (Nat.le_refl _) (by rw [length_encode_trailer]; decide)

theorem Lists.run_storeTrailer (h : p.Lists slots) :
    ∃ b, storeTrailer p = .ok () (p.withBytes b) ∧ (p.withBytes b).Lists slots
      ∧ (p.withBytes b).StoresTrailer ∧ AgreeOff Trailer.offset pageSize p.bytes b := by
  obtain ⟨b, hrun, hsize, hstores, hag⟩ := SlottedPage.run_storeTrailer h.size
  exact ⟨b, hrun, h.of_agree rfl (hsize.trans h.size.symm) hag (.inr (Nat.le_refl _)), hstores, hag⟩

theorem StoresTrailer.ofBytes_eq (ht : p.StoresTrailer) (hsize : p.bytes.length = pageSize)
    (hb : p.trailer.boundary.toNat + p.trailer.directorySize ≤ pageSize) :
    ofBytes p.bytes p.number = .ok p := by
  obtain ⟨-, hdrop⟩ := Bytes.slice_eq_ok_iff.mp ht
  have hlast : p.bytes.drop Trailer.offset = p.trailer.encode := by
    rw [← hdrop, List.take_of_length_le]
    rw [List.length_drop, hsize]
    decide
  simp only [ofBytes, checkSize, hsize, if_true, bind, Except.bind, hlast, decode_encode_trailer,
    Nat.not_lt.mpr hb, if_false]
  rfl

end SlottedPage

end Tablespace
