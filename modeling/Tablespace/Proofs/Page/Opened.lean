import Tablespace.Proofs.Page.Edits

/-!
# Pages of any bytes

What edits do on a page that opens, though its slots may be damaged. They are
followed by what the slots read as: an edit without a body changes one slot, and
a body can be given up when all slots can be read and it ends in front of the
boundary.
-/

namespace Tablespace

open Bytes (AgreeOff)

namespace SlottedPage

variable {p q : SlottedPage} {n m : SlotNum} {s : Slot} {o l : UInt16} {target : RecordId}

/-- The page has its size, and its bodies stay out of its directory. -/
structure Opens (p : SlottedPage) : Prop where
  size : p.bytes.length = pageSize
  room : p.trailer.boundary.toNat + p.trailer.directorySize ≤ pageSize

theorem ofBytes_eq_ok {b : Bytes} {number : PageNum} (h : ofBytes b number = .ok p) :
    p.Opens ∧ p.bytes = b ∧ p.number = number := by
  unfold ofBytes checkSize at h
  by_cases hb : b.length = pageSize
  · simp only [if_pos hb, bind, Except.bind] at h
    split at h
    · cases h
    · rename_i hroom
      cases h
      exact ⟨⟨hb, Nat.not_lt.mp hroom⟩, rfl, rfl⟩
  · simp only [if_neg hb] at h
    cases h

theorem Opens.low (h : p.Opens) :
    p.trailer.boundary.toNat ≤ directoryStart p.trailer.slotCount.toNat
      ∧ Trailer.size + Slot.size * p.trailer.slotCount.toNat ≤ pageSize := by
  have hr := h.room
  rw [Trailer.directorySize] at hr
  simp only [directoryStart, Trailer.offset, Trailer.size, Slot.size, pageSize] at hr ⊢
  omega

theorem Opens.toNat_freeSpace (h : p.Opens) :
    p.freeSpace.toNat = pageSize - p.trailer.directorySize - p.trailer.boundary.toNat :=
  SlottedPage.toNat_freeSpace h.room

/-! ## Slots -/

theorem slot_eq_ok (h : p.slot n = .ok s) : n < p.trailer.slotCount
    ∧ ∃ b, p.bytes.slice (slotOffset n) Slot.size = .ok b ∧ Slot.decode b = .ok s := by
  unfold slot at h
  by_cases hn : n < p.trailer.slotCount
  · simp only [if_pos hn] at h
    refine ⟨hn, ?_⟩
    cases hb : p.bytes.slice (slotOffset n) Slot.size with
    | error e => rw [hb] at h; cases h
    | ok b =>
      rw [hb] at h
      change (Slot.decode b).mapError _ = _ at h
      cases hd : Slot.decode b with
      | error e => rw [hd] at h; cases h
      | ok t => rw [hd] at h; cases h; exact ⟨b, rfl, hd⟩
  · rw [if_neg hn] at h
    cases h

theorem Opens.slotOffset_eq (h : p.Opens) (hn : n < p.trailer.slotCount) :
    slotOffset n = directoryStart (n.toNat + 1) := by
  have hr := h.low.2
  rw [UInt16.lt_iff_toNat_lt] at hn
  rw [SlottedPage.slotOffset_eq, directoryStart]
  simp only [Trailer.offset, Trailer.size, Slot.size, pageSize] at hr ⊢
  omega

/-- A slot of the directory reads as it did where its bytes are what they were. -/
theorem Opens.slot_congr (h : p.Opens) (hcount : q.trailer.slotCount = p.trailer.slotCount)
    (hnum : q.number = p.number)
    (hb : n < p.trailer.slotCount → q.bytes.slice (directoryStart (n.toNat + 1)) Slot.size
      = p.bytes.slice (directoryStart (n.toNat + 1)) Slot.size) : q.slot n = p.slot n := by
  unfold slot
  rw [hcount, hnum]
  by_cases hn : n < p.trailer.slotCount
  · rw [h.slotOffset_eq hn, hb hn]
  · simp only [if_neg hn]
    rfl

/-- What lies in front of the directory or behind it does not matter to the slots. -/
theorem Opens.slot_of_agree (h : p.Opens) (hcount : q.trailer.slotCount = p.trailer.slotCount)
    (hnum : q.number = p.number) {lo hi : Nat} (hb : AgreeOff lo hi p.bytes q.bytes)
    (hd : hi ≤ directoryStart p.trailer.slotCount.toNat ∨ Trailer.offset ≤ lo) (n : SlotNum) :
    q.slot n = p.slot n := by
  refine h.slot_congr hcount hnum fun hn => hb _ _ ?_
  have hr := h.low.2
  rw [UInt16.lt_iff_toNat_lt] at hn
  simp only [directoryStart, Trailer.offset, Trailer.size, Slot.size, pageSize] at hr hd ⊢
  omega

theorem Opens.run_setSlot (h : p.Opens) (hn : n < p.trailer.slotCount) (s : Slot) :
    ∃ b, setSlot n s p = .ok () (p.withBytes b) ∧ b.length = pageSize
      ∧ (p.withBytes b).slot n = .ok s ∧ ∀ m, m ≠ n → (p.withBytes b).slot m = p.slot m := by
  have hr := h.low.2
  have hlt := UInt16.lt_iff_toNat_lt.mp hn
  obtain ⟨b, hrun, hsize, hown, hag⟩ := SlottedPage.run_setSlot h.size (n := n)
    (by simp only [Slot.size] at hr ⊢; omega) s
  refine ⟨b, hrun, hsize, ?_, fun m hm => h.slot_congr rfl rfl fun hm' => hag _ _ ?_⟩
  · simp [slot, hn, h.slotOffset_eq hn, hown, inFile, mapError_ok, bind, Except.bind]
  · exact entry_apart hr (UInt16.lt_iff_toNat_lt.mp hm') hlt fun he => hm (UInt16.toNat_inj.mp he)

theorem Opens.exists_lists (h : p.Opens) (hl : ∀ m < p.trailer.slotCount, ∃ s, p.slot m = .ok s) :
    ∃ slots, p.Lists slots := by
  have hentry : ∀ i : Fin p.trailer.slotCount.toNat, ∃ s,
      ∃ b, p.bytes.slice (directoryStart (i + 1)) Slot.size = .ok b ∧ Slot.decode b = .ok s := by
    intro i
    have hnum : (UInt16.ofNat i).toNat = i :=
      toNat_ofNat_of_lt (Nat.lt_trans i.isLt p.trailer.slotCount.toNat_lt)
    have hi : UInt16.ofNat i < p.trailer.slotCount := by
      rw [UInt16.lt_iff_toNat_lt, hnum]
      exact i.isLt
    obtain ⟨s, hs⟩ := hl _ hi
    obtain ⟨-, b, hb, hd⟩ := slot_eq_ok hs
    rw [h.slotOffset_eq hi, hnum] at hb
    exact ⟨s, b, hb, hd⟩
  obtain ⟨slotAt, hslotAt⟩ := Classical.axiomOfChoice hentry
  refine ⟨List.ofFn slotAt, h.size, by simp, by simpa using h.low.2, fun i s hi => ?_⟩
  obtain ⟨hlt, rfl⟩ := List.getElem?_eq_some_iff.mp hi
  rw [List.length_ofFn] at hlt
  simpa using hslotAt ⟨i, hlt⟩

/-! ## Pages of a directory -/

/-- The page with a directory of any bytes and nothing but zeros in front of it. -/
def ofDirectory (directory : Bytes) (t : Trailer) (number : PageNum) : SlottedPage :=
  ⟨Bytes.zeros (Trailer.offset - directory.length) ++ directory ++ t.encode, number, t⟩

section
variable {directory : Bytes} {t : Trailer} {number : PageNum}
  (hd : directory.length = Slot.size * t.slotCount.toNat)
  (hroom : t.boundary.toNat + t.directorySize ≤ pageSize)
include hd hroom

theorem length_ofDirectory : (ofDirectory directory t number).bytes.length = pageSize := by
  rw [Trailer.directorySize] at hroom
  simp only [ofDirectory, List.length_append, Bytes.length_zeros, length_encode_trailer, hd, Trailer.offset,
    Trailer.size, pageSize] at hroom ⊢
  omega

theorem ofBytes_ofDirectory :
    ofBytes (ofDirectory directory t number).bytes number = .ok (ofDirectory directory t number) := by
  have hstores : (ofDirectory directory t number).StoresTrailer := by
    have hslice :=
      Bytes.slice_middle (Bytes.zeros (Trailer.offset - directory.length) ++ directory) t.encode []
    rw [List.append_nil, List.length_append, Bytes.length_zeros, length_encode_trailer] at hslice
    rw [Trailer.directorySize] at hroom
    rwa [Nat.sub_add_cancel (by rw [hd, Trailer.offset]; omega)] at hslice
  exact hstores.ofBytes_eq (length_ofDirectory hd hroom) hroom

/-- The slots are read off the directory, the first one at its end. -/
theorem slot_ofDirectory (hn : n < t.slotCount) :
    (ofDirectory directory t number).slot n = (do
      let b ← inFile (directory.slice (Slot.size * (t.slotCount.toNat - (n.toNat + 1))) Slot.size)
      (Slot.decode b).mapError (.corruption number)) := by
  have hlt := UInt16.lt_iff_toNat_lt.mp hn
  have hopens : (ofDirectory directory t number).Opens := ⟨length_ofDirectory hd hroom, hroom⟩
  have hslice := Bytes.slice_middle (Bytes.zeros (Trailer.offset - directory.length)) directory t.encode
  rw [Bytes.length_zeros] at hslice
  have hin := Bytes.slice_slice hslice (i := Slot.size * (t.slotCount.toNat - (n.toNat + 1)))
    (k := Slot.size) (by rw [hd]; simp only [Slot.size]; omega)
  have hoff : directoryStart (n.toNat + 1)
      = Trailer.offset - directory.length + Slot.size * (t.slotCount.toNat - (n.toNat + 1)) := by
    rw [Trailer.directorySize] at hroom
    simp only [directoryStart, hd, Trailer.offset, Trailer.size, Slot.size, pageSize] at hroom ⊢
    omega
  unfold slot
  rw [hopens.slotOffset_eq hn, hoff, hin, ofDirectory, if_pos hn]

end

/-! ## Edits of one slot -/

/-- The second page opens from its bytes, under the number of the first one. -/
structure Reopens (p q : SlottedPage) : Prop where
  ofBytes_eq : ofBytes q.bytes q.number = .ok q
  number_eq : q.number = p.number

theorem Reopens.size_eq (h : p.Reopens q) : q.bytes.length = pageSize := (ofBytes_eq_ok h.ofBytes_eq).1.size

/-- The second page reads as the first one but for one slot. -/
structure Changes (p : SlottedPage) (n : SlotNum) (s : Slot) (q : SlottedPage) : Prop extends
    Reopens p q where
  count_eq : q.trailer.slotCount = p.trailer.slotCount
  own : q.slot n = .ok s
  others : ∀ m, m ≠ n → q.slot m = p.slot m

/-- The last steps of an edit: a slot is set, and a trailer with as many slots is stored. -/
theorem Opens.run_settle (h : p.Opens) (hn : n < p.trailer.slotCount) (s : Slot) {t : Trailer}
    (hcount : t.slotCount = p.trailer.slotCount)
    (hroom : t.boundary.toNat + t.directorySize ≤ pageSize) :
    ∃ b c, setSlot n s p = .ok () (p.withBytes b)
      ∧ storeTrailer ⟨b, p.number, t⟩ = .ok () ⟨c, p.number, t⟩ ∧ p.Changes n s ⟨c, p.number, t⟩ := by
  obtain ⟨b, hset, hsize, hown, hothers⟩ := h.run_setSlot hn s
  obtain ⟨c, hstore, hsize', hstores, hag⟩ := run_storeTrailer (p := ⟨b, p.number, t⟩) hsize
  have hb : (p.withBytes b).Opens := ⟨hsize, h.room⟩
  have hslots := hb.slot_of_agree (q := ⟨c, p.number, t⟩) hcount rfl hag (.inr (Nat.le_refl _))
  refine ⟨b, c, hset, hstore, ⟨hstores.ofBytes_eq hsize' hroom, rfl⟩, hcount, ?_, fun m hm => ?_⟩
  · rw [hslots, hown]
  · rw [hslots, hothers m hm]

theorem Opens.run_remove_pointer (h : p.Opens) (hn : p.slot n = .ok (.forwarded target)) :
    ∃ q, remove n p = .ok () q ∧ p.Changes n (.deleted p.trailer.freeHead) q := by
  obtain ⟨b, c, hset, hstore, hc⟩ := h.run_settle (slot_eq_ok hn).1 (.deleted p.trailer.freeHead)
    (t := { p.trailer with freeHead := n }) rfl h.room
  refine ⟨_, ?_, hc⟩
  rw [remove, run_bind (run_readSlot hn)]
  simp only [run_get_bind]
  rw [run_bind hset]
  exact (run_bind rfl).trans hstore

theorem Opens.run_forward_pointer (h : p.Opens) (hn : p.slot n = .ok (.forwarded target))
    (newTarget : RecordId) :
    ∃ q, forward n newTarget p = .ok () q ∧ p.Changes n (.forwarded newTarget) q := by
  obtain ⟨b, c, hset, hstore, hc⟩ := h.run_settle (slot_eq_ok hn).1 (.forwarded newTarget)
    (t := p.trailer) rfl h.room
  refine ⟨_, ?_, hc⟩
  rw [forward, run_bind (run_readSlot hn)]
  exact (run_bind hset).trans hstore

theorem Opens.run_restore (h : p.Opens) (hn : p.slot n = .ok (.forwarded target)) {b : Bytes}
    (hfit : b.length ≤ p.freeSpace.toNat) :
    ∃ q, restore n b p = .ok true q ∧ p.trailer.boundary.toNat ≤ q.trailer.boundary.toNat
      ∧ p.Changes n (.occupied p.trailer.boundary (UInt16.ofNat b.length)) q := by
  have hlow := h.low
  have hps : pageSize = 4096 := rfl
  rw [h.toNat_freeSpace, Trailer.directorySize] at hfit
  simp only [directoryStart, Trailer.offset, Trailer.size, Slot.size] at hfit hlow
  have hlen := toNat_ofNat_length (b := b) (by omega)
  have hsum := toNat_add_of_fit (a := p.trailer.boundary) (b := UInt16.ofNat b.length) (by omega)
  have hin : p.trailer.boundary.toNat + b.length ≤ p.bytes.length := by
    rw [h.size]
    omega
  have hag := Bytes.agreeOff_overwrite hin
  have hb : (p.withBytes (p.bytes.overwrite p.trailer.boundary.toNat b)).Opens :=
    ⟨(Bytes.length_overwrite hin).trans h.size, h.room⟩
  have hslots := h.slot_of_agree (q := p.withBytes (p.bytes.overwrite p.trailer.boundary.toNat b)) rfl rfl
    hag (.inl (by simp only [directoryStart, Trailer.offset, Trailer.size, Slot.size]; omega))
  obtain ⟨b₁, c, hset, hstore, hc⟩ := hb.run_settle (slot_eq_ok hn).1
    (.occupied p.trailer.boundary (UInt16.ofNat b.length))
    (t := { p.trailer with boundary := p.trailer.boundary + UInt16.ofNat b.length }) rfl
    (by simp only [Trailer.directorySize, hsum, Trailer.size, Slot.size]; omega)
  refine ⟨_, ?_, ?_, ⟨hc.ofBytes_eq, hc.number_eq⟩, hc.count_eq, hc.own,
    fun m hm => (hc.others m hm).trans (hslots m)⟩
  · rw [restore, run_bind (run_readSlot hn)]
    simp only [run_get_bind]
    rw [if_neg (by rw [h.toNat_freeSpace, Trailer.directorySize, Trailer.size, Slot.size]; omega),
      run_bind (run_put hin), run_bind hset, run_bind (run_sum hsum _)]
    exact (run_bind rfl).trans ((run_bind hstore).trans rfl)
  · rw [hsum]
    omega

/-! ## Giving up a body -/

/-- All slots of the page can be read, and the body of the slot ends in front of the boundary. -/
structure Yields (p : SlottedPage) (n : SlotNum) : Prop where
  legible : ∀ m < p.trailer.slotCount, ∃ s, p.slot m = .ok s
  inside : ∀ s o l, p.slot n = .ok s → s.body? = some (o, l) →
    o.toNat + l.toNat ≤ p.trailer.boundary.toNat

theorem Yields.of_changes (hy : p.Yields m) (hq : p.Changes n s q) (hne : m ≠ n)
    (hbound : p.trailer.boundary.toNat ≤ q.trailer.boundary.toNat) : q.Yields m where
  legible k hk := by
    by_cases hkn : k = n
    · exact ⟨s, hkn ▸ hq.own⟩
    · rw [hq.others k hkn]
      exact hy.legible k (hq.count_eq ▸ hk)
  inside t o l ht hb := by
    rw [hq.others m hne] at ht
    exact Nat.le_trans (hy.inside t o l ht hb) hbound

/-- Where the first page forwards the second one does so too. -/
structure KeepsPointers (p q : SlottedPage) : Prop extends Reopens p q where
  pointers : ∀ m target, p.slot m = .ok (.forwarded target) → q.slot m = .ok (.forwarded target)

theorem Yields.run_compact (hy : p.Yields n) (h : p.Opens) (hn : p.slot n = .ok s)
    (hs : s.body? = some (o, l)) :
    ∃ b, compact n o l p = .ok () ⟨b, p.number, { p.trailer with boundary := p.trailer.boundary - l }⟩
      ∧ Opens ⟨b, p.number, { p.trailer with boundary := p.trailer.boundary - l }⟩
      ∧ ∀ m target, p.slot m = .ok (.forwarded target) →
        slot ⟨b, p.number, { p.trailer with boundary := p.trailer.boundary - l }⟩ m
          = .ok (.forwarded target) := by
  obtain ⟨slots, hl⟩ := h.exists_lists hy.legible
  have hin := hy.inside s o l hn hs
  obtain ⟨b, hrun, hb, hsub, -⟩ := hl.run_compact (by rw [← hl.count]; exact h.low.1) n hin
  refine ⟨b, hrun, ⟨hb.size, ?_⟩, fun m target hm => hb.slot_eq ?_⟩
  · have := h.room
    simp only [Trailer.directorySize, hsub] at this ⊢
    omega
  · rw [shiftOthers, List.getElem?_mapIdx, hl.slot_eq_ok_iff.mp hm]
    simp [Slot.shift, Slot.body?]

theorem Yields.run_vacate (hy : p.Yields n) (h : p.Opens) (hn : p.slot n = .ok s)
    (hs : s.body? = some (o, l)) (t : Slot) (head : SlotNum) :
    ∃ b c q, compact n o l p = .ok () ⟨b, p.number, { p.trailer with boundary := p.trailer.boundary - l }⟩
      ∧ setSlot n t ⟨b, p.number, { p.trailer with boundary := p.trailer.boundary - l }⟩
        = .ok () ⟨c, p.number, { p.trailer with boundary := p.trailer.boundary - l }⟩
      ∧ storeTrailer ⟨c, p.number, ⟨head, p.trailer.slotCount, p.trailer.boundary - l⟩⟩ = .ok () q
      ∧ p.KeepsPointers q := by
  obtain ⟨b, hrun, hb, hpointers⟩ := hy.run_compact h hn hs
  obtain ⟨c, d, hset, hstore, hd⟩ := hb.run_settle (slot_eq_ok hn).1 t
    (t := ⟨head, p.trailer.slotCount, p.trailer.boundary - l⟩) rfl hb.room
  refine ⟨b, c, _, hrun, hset, hstore, ⟨hd.ofBytes_eq, rfl⟩, fun m target hm => ?_⟩
  have hne : m ≠ n := by
    rintro rfl
    rw [hn, Except.ok.injEq] at hm
    rw [hm] at hs
    cases hs
  rw [hd.others m hne, hpointers m target hm]

theorem Yields.run_remove (hy : p.Yields n) (h : p.Opens) (hn : p.slot n = .ok s)
    (hs : s.body? = some (o, l)) : ∃ q, remove n p = .ok () q ∧ p.KeepsPointers q := by
  obtain ⟨b, c, q, hrun, hset, hstore, hq⟩ := hy.run_vacate h hn hs (.deleted p.trailer.freeHead) n
  exact ⟨q, run_remove_of_compact hn hs hrun hset hstore, hq⟩

theorem Yields.run_forward (hy : p.Yields n) (h : p.Opens) (hn : p.slot n = .ok (.occupied o l))
    (target : RecordId) : ∃ q, forward n target p = .ok () q ∧ p.KeepsPointers q := by
  obtain ⟨b, c, q, hrun, hset, hstore, hq⟩ :=
    hy.run_vacate h hn rfl (.forwarded target) p.trailer.freeHead
  refine ⟨q, ?_, hq⟩
  rw [forward, run_bind (run_readSlot hn)]
  exact (run_bind hrun).trans ((run_bind hset).trans hstore)

/-! ## Slots that cannot be read -/

/-- Shifting one slot reads it, and leaves the others as they were. -/
theorem Opens.of_shiftBody (h : p.Opens) {limit length newLength : UInt16}
    (hrun : shiftBody limit length newLength n p = .ok () q) :
    q.Opens ∧ (∃ s, p.slot n = .ok s) ∧ ∀ m, m ≠ n → q.slot m = p.slot m := by
  obtain ⟨s, p₁, hread, htail⟩ := run_bind_eq_ok hrun
  obtain ⟨rfl, hs⟩ := readSlot_eq_ok hread
  cases hb : s.body? with
  | none =>
    simp only [hb] at htail
    cases htail
    exact ⟨h, ⟨s, hs⟩, fun _ _ => rfl⟩
  | some body =>
    obtain ⟨offset, size⟩ := body
    simp only [hb] at htail
    by_cases hl : limit ≤ offset
    · obtain ⟨b, hset, hsize, -, hothers⟩ :=
        h.run_setSlot (slot_eq_ok hs).1 (s.withBody (offset + newLength - length) size)
      rw [if_pos hl, hset] at htail
      cases htail
      exact ⟨⟨hsize, h.room⟩, ⟨s, hs⟩, hothers⟩
    · rw [if_neg hl] at htail
      cases htail
      exact ⟨h, ⟨s, hs⟩, fun _ _ => rfl⟩

theorem Opens.legible_of_forM (limit length newLength : UInt16) : ∀ (ns : List SlotNum) {p : SlottedPage},
    p.Opens → ns.forM (shiftBody limit length newLength) p = .ok () q → ∀ m ∈ ns, ∃ s, p.slot m = .ok s
  | [], _, _, _, m, hm => by cases hm
  | n :: ns, p, h, hrun, m, hm => by
    obtain ⟨_, p₁, hfirst, hrest⟩ := run_bind_eq_ok hrun
    obtain ⟨h₁, hown, hothers⟩ := h.of_shiftBody hfirst
    -- A step does not mend what the steps after it cannot read.
    by_cases hmn : m = n
    · exact hmn ▸ hown
    · obtain ⟨s, hs⟩ := legible_of_forM limit length newLength ns h₁ hrest m
        ((List.mem_cons.mp hm).resolve_left hmn)
      exact ⟨s, (hothers m hmn).symm.trans hs⟩

theorem Opens.legible_of_compact (h : p.Opens) (hin : o.toNat + l.toNat ≤ p.trailer.boundary.toNat)
    (hrun : compact n o l p = .ok () q) (hm : m < p.trailer.slotCount) (hne : m ≠ n) :
    ∃ s, p.slot m = .ok s := by
  obtain ⟨hlow, hroom⟩ := h.low
  have hps : pageSize = 4096 := rfl
  have hlimit : directoryStart p.trailer.slotCount.toNat ≤ pageSize := by
    simp only [directoryStart, Trailer.offset, Trailer.size, Slot.size]
    omega
  obtain ⟨hstop, hdest, b, hmove, hsize, hag, -⟩ :=
    run_move h.size hlimit hlow 0 hin (Nat.le_trans hlow (Nat.le_add_right _ _))
  have hb : (p.withBytes b).Opens := ⟨hsize, h.room⟩
  obtain ⟨_, p₁, hstretch, -⟩ := run_bind_eq_ok hrun
  rw [stretch, run_bind (run_sum hstop p), run_bind (run_sum hdest p), run_get_bind, run_bind hmove,
    shiftBodies, run_get_bind] at hstretch
  obtain ⟨s, hs⟩ := hb.legible_of_forM _ _ _ _ hstretch m (mem_others.mpr ⟨hm, hne⟩)
  rw [h.slot_of_agree (q := p.withBytes b) rfl rfl hag (.inl (Nat.le_refl _))] at hs
  exact ⟨s, hs⟩

/-- A body that ends in front of the boundary makes way for a pointer exactly where the page can
give it up. -/
theorem Opens.forward_iff (h : p.Opens) (hn : p.slot n = .ok (.occupied o l))
    (hin : o.toNat + l.toNat ≤ p.trailer.boundary.toNat) (target : RecordId) :
    (∃ q, forward n target p = .ok () q) ↔ p.Yields n := by
  constructor
  · rintro ⟨q, hrun⟩
    refine ⟨fun m hm => ?_, fun s a k hs hb => ?_⟩
    · by_cases hne : m = n
      · exact ⟨_, hne ▸ hn⟩
      · rw [forward, run_bind (run_readSlot hn)] at hrun
        obtain ⟨_, p₁, hcompact, -⟩ := run_bind_eq_ok hrun
        exact h.legible_of_compact hin hcompact hm hne
    · rw [hn, Except.ok.injEq] at hs
      rw [← hs] at hb
      cases hb
      exact hin
  · intro hy
    obtain ⟨q, hrun, -⟩ := hy.run_forward h hn target
    exact ⟨q, hrun⟩

/-! ## Pages without room -/

theorem Opens.canHold_eq_false (h : p.Opens) {length : Nat} (hfull : p.freeSpace.toNat < length)
    (hlen : length ≤ pageSize) : p.canHold length = false := by
  have hfree := h.toNat_freeSpace
  have hcost : length + (if p.hasFreeSlot then 0 else Slot.size) < UInt64.size := by
    simp only [pageSize, Slot.size, UInt64.size] at hlen ⊢
    split <;> omega
  rw [canHold, decide_eq_false_iff_not, UInt64.le_iff_toNat_le, UInt64.toNat_ofNat_of_lt' hcost]
  omega

/-- A body that is not replaced for want of room leaves the page as it was, which has no room for
the record anywhere. -/
theorem Opens.full_of_resize (h : p.Opens) {b : Bytes} (hb : b.length ≤ pageSize)
    (hrun : resize n b p = .ok false q) : q = p ∧ p.canHold b.length = false := by
  obtain ⟨s, p₁, hread, htail⟩ := run_bind_eq_ok hrun
  obtain ⟨rfl, -⟩ := readSlot_eq_ok hread
  cases hsb : s.body? with
  | none => rw [hsb] at htail; cases htail
  | some body =>
    obtain ⟨o, l⟩ := body
    simp only [hsb] at htail
    rw [run_get_bind] at htail
    by_cases hfull : (p₁.freeSpace + l.toUInt64).toNat < b.length
    · rw [if_pos hfull] at htail
      cases htail
      refine ⟨rfl, h.canHold_eq_false (Nat.lt_of_le_of_lt ?_ hfull) hb⟩
      have := h.toNat_freeSpace
      have := l.toNat_lt
      have hps : pageSize = 4096 := rfl
      rw [UInt64.toNat_add, UInt16.toNat_toUInt64]
      omega
    · -- All that follows ends with true.
      rw [if_neg hfull] at htail
      obtain ⟨_, _, -, htail⟩ := run_bind_eq_ok htail
      obtain ⟨_, _, -, htail⟩ := run_bind_eq_ok htail
      obtain ⟨_, _, -, htail⟩ := run_bind_eq_ok htail
      obtain ⟨_, _, -, htail⟩ := run_bind_eq_ok htail
      obtain ⟨_, _, -, htail⟩ := run_bind_eq_ok htail
      obtain ⟨_, _, -, htail⟩ := run_bind_eq_ok htail
      cases htail

end SlottedPage

end Tablespace
