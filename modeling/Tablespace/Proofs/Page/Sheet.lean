import Tablespace.Proofs.Page.Tiling

/-!
# Sheets

What a page holds, without its layout: a cell for each slot, and the free slots,
the last freed first. A page shows a sheet when its directory, its bodies and
its free list store it.
-/

namespace Tablespace

open Bytes (AgreeOff)

/-- What a slot stands for. -/
inductive Cell where
  /-- The bytes of a record that is addressed through the slot. -/
  | record (b : Bytes)
  /-- Bytes held for a forwarded slot of another page. -/
  | guest (b : Bytes)
  /-- A record whose bytes lie elsewhere. -/
  | pointer (target : RecordId)
  | free
deriving DecidableEq, Repr

def Cell.size : Cell → Nat
  | .record b => b.length
  | .guest b => b.length
  | _ => 0

/-- What a slot stands for on a page of these bytes. -/
def Slot.cell (b : Bytes) : Slot → Cell
  | .occupied offset length => .record ((b.drop offset.toNat).take length.toNat)
  | .moved offset length => .guest ((b.drop offset.toNat).take length.toNat)
  | .forwarded target => .pointer target
  | .deleted _ => .free

structure Sheet where
  cells : List Cell
  free : List SlotNum

namespace Sheet

def blank : Sheet := ⟨[], []⟩

def used (v : Sheet) : Nat := (v.cells.map Cell.size).sum

/-- The bytes that neither bodies nor directory take. -/
def space (v : Sheet) : Nat := pageSize - (Trailer.size + Slot.size * v.cells.length) - v.used

/-- Whether a body of this length fits together with the slot that it may need. -/
def CanHold (v : Sheet) (length : Nat) : Prop :=
  length + (if v.free = [] then Slot.size else 0) ≤ v.space

/-- The slot that the next body gets. -/
def nextSlot (v : Sheet) : SlotNum :=
  match v.free with
  | n :: _ => n
  | [] => UInt16.ofNat v.cells.length

def insert (v : Sheet) (c : Cell) : Sheet :=
  match v.free with
  | n :: rest => ⟨v.cells.set n.toNat c, rest⟩
  | [] => ⟨v.cells ++ [c], []⟩

def put (v : Sheet) (n : SlotNum) (c : Cell) : Sheet := { v with cells := v.cells.set n.toNat c }

def release (v : Sheet) (n : SlotNum) : Sheet := ⟨v.cells.set n.toNat .free, n :: v.free⟩

end Sheet

/-- The free slots from `head` on, each naming the next. -/
def FreeChain (slots : List Slot) : SlotNum → List SlotNum → Prop
  | head, [] => head = Trailer.noSlot
  | head, n :: rest =>
    head = n ∧ ∃ next, slots[n.toNat]? = some (.deleted next) ∧ FreeChain slots next rest

theorem FreeChain.congr {slots slots' : List Slot} :
    ∀ {free : List SlotNum} {head : SlotNum}, FreeChain slots head free →
      (∀ n ∈ free, slots'[n.toNat]? = slots[n.toNat]?) → FreeChain slots' head free
  | [], _, h, _ => h
  | n :: _, _, ⟨he, next, hn, hrest⟩, hs =>
    ⟨he, next, (hs n (List.mem_cons_self ..)).trans hn,
      hrest.congr fun m hm => hs m (List.mem_cons_of_mem _ hm)⟩

theorem FreeChain.deleted {slots : List Slot} :
    ∀ {free : List SlotNum} {head : SlotNum}, FreeChain slots head free →
      ∀ n ∈ free, ∃ next, slots[n.toNat]? = some (.deleted next)
  | _ :: _, _, ⟨_, next, hn, hrest⟩, m, hm => by
    rcases List.mem_cons.mp hm with rfl | hm
    · exact ⟨next, hn⟩
    · exact hrest.deleted m hm

/-- The list from `head` on has these members, and they are the deleted slots. -/
structure FreeList (slots : List Slot) (head : SlotNum) (free : List SlotNum) : Prop where
  chain : FreeChain slots head free
  nodup : free.Nodup
  complete : ∀ (n : SlotNum) next, slots[n.toNat]? = some (.deleted next) → n ∈ free

/-- The lists have the same deleted slots, up to the one at `n`. -/
def SameDeleted (n : Nat) (slots slots' : List Slot) : Prop :=
  ∀ m next, m ≠ n → (slots'[m]? = some (.deleted next) ↔ slots[m]? = some (.deleted next))

namespace FreeList

variable {slots slots' : List Slot} {head n : SlotNum} {free rest : List SlotNum}

theorem nil : FreeList [] Trailer.noSlot [] := ⟨rfl, List.nodup_nil, by simp⟩

theorem chain_of_same (h : FreeList slots head free) {m : Nat} (hs : SameDeleted m slots slots')
    (hm : ∀ k ∈ free, k.toNat ≠ m) : FreeChain slots' head free := by
  apply h.chain.congr
  intro k hk
  obtain ⟨next, hd⟩ := h.chain.deleted k hk
  rw [hd]
  exact (hs k.toNat next (hm k hk)).mpr hd

theorem congr (h : FreeList slots head free) {m : Nat} (hs : SameDeleted m slots slots')
    (hold : ∀ next, slots[m]? ≠ some (.deleted next))
    (hnew : ∀ next, slots'[m]? ≠ some (.deleted next)) : FreeList slots' head free where
  chain := h.chain_of_same hs fun k hk hkm => by
    obtain ⟨next, hd⟩ := h.chain.deleted k hk
    exact hold next (hkm ▸ hd)
  nodup := h.nodup
  complete k next hk := by
    by_cases hkm : k.toNat = m
    · exact absurd (hkm ▸ hk) (hnew next)
    · exact h.complete k next ((hs _ _ hkm).mp hk)

theorem release (h : FreeList slots head free) (hs : SameDeleted n.toNat slots slots')
    (hold : ∀ next, slots[n.toNat]? ≠ some (.deleted next))
    (hnew : slots'[n.toNat]? = some (.deleted head)) : FreeList slots' n (n :: free) := by
  have hnot : ∀ k ∈ free, k.toNat ≠ n.toNat := by
    intro k hk hkn
    obtain ⟨next, hd⟩ := h.chain.deleted k hk
    exact hold next (hkn ▸ hd)
  refine ⟨⟨rfl, head, hnew, h.chain_of_same hs hnot⟩, ?_, ?_⟩
  · exact List.nodup_cons.mpr ⟨fun hm => hnot n hm rfl, h.nodup⟩
  · intro k next hk
    by_cases hkn : k.toNat = n.toNat
    · exact List.mem_cons.mpr (.inl (UInt16.toNat_inj.mp hkn))
    · exact List.mem_cons_of_mem _ (h.complete k next ((hs _ _ hkn).mp hk))

theorem claim (h : FreeList slots head (n :: rest)) (hs : SameDeleted n.toNat slots slots')
    (hnew : ∀ next, slots'[n.toNat]? ≠ some (.deleted next)) :
    ∃ next, slots[n.toNat]? = some (.deleted next) ∧ FreeList slots' next rest := by
  obtain ⟨-, next, hn, hrest⟩ := h.chain
  obtain ⟨hnot, hnd⟩ := List.nodup_cons.mp h.nodup
  have htail : FreeChain slots' next rest := by
    apply hrest.congr
    intro k hk
    obtain ⟨next', hd⟩ := hrest.deleted k hk
    rw [hd]
    exact (hs _ _ fun he => hnot (UInt16.toNat_inj.mp he ▸ hk)).mpr hd
  refine ⟨next, hn, htail, hnd, fun k next' hk => ?_⟩
  by_cases hkn : k.toNat = n.toNat
  · exact absurd (hkn ▸ hk) (hnew next')
  · rcases List.mem_cons.mp (h.complete k next' ((hs _ _ hkn).mp hk)) with rfl | hm
    · exact absurd rfl hkn
    · exact hm

end FreeList

theorem sameDeleted_set {slots : List Slot} (n : Nat) (s : Slot) :
    SameDeleted n slots (slots.set n s) := by
  intro m next hm
  rw [List.getElem?_set_ne (Ne.symm hm)]

theorem sameDeleted_shiftOthers_set {slots : List Slot} (n : Nat) (limit length newLength : UInt16)
    (s : Slot) :
    SameDeleted n slots ((SlottedPage.shiftOthers n limit length newLength slots).set n s) := by
  intro m next hm
  rw [List.getElem?_set_ne (Ne.symm hm), SlottedPage.shiftOthers, List.getElem?_mapIdx]
  cases slots[m]? with
  | none => simp
  | some t =>
    simp only [Option.map_some, if_neg hm, Option.some.injEq]
    constructor
    · intro ht
      have hb := Slot.body?_shift t limit length newLength
      rw [ht] at hb
      have : t.body? = none := by simpa [Slot.body?] using hb.symm
      rwa [Slot.shift, this] at ht
    · rintro rfl
      rfl

namespace SlottedPage

/-- The page stores these slots, their bodies tile it, and its free list has these members. -/
structure Holds (p : SlottedPage) (slots : List Slot) (free : List SlotNum) : Prop where
  lists : p.Lists slots
  trailer : p.StoresTrailer
  tiled : Tiled p.trailer.boundary.toNat slots
  low : p.trailer.boundary.toNat ≤ directoryStart slots.length
  freeList : FreeList slots p.trailer.freeHead free

/-- The page stores the sheet. -/
def Shows (p : SlottedPage) (v : Sheet) : Prop :=
  ∃ slots, p.Holds slots v.free ∧ v.cells = slots.map (Slot.cell p.bytes)

variable {p : SlottedPage} {slots : List Slot} {free : List SlotNum} {v : Sheet} {n : SlotNum}

theorem Lists.length_le (h : p.Lists slots) : slots.length ≤ 511 := by
  have := h.room
  simp only [Trailer.size, Slot.size, pageSize] at this
  omega

theorem Lists.low_le (h : p.Lists slots) : directoryStart slots.length + Slot.size * slots.length
    + Trailer.size = pageSize := by
  have := h.room
  simp only [directoryStart, Trailer.offset, Trailer.size, Slot.size, pageSize] at this ⊢
  omega

theorem Holds.ofBytes_eq (h : p.Holds slots free) : ofBytes p.bytes p.number = .ok p := by
  apply h.trailer.ofBytes_eq h.lists.size
  have := h.low
  have := h.lists.low_le
  rw [Trailer.directorySize, h.lists.count]
  omega

/-! ## Sizes -/

theorem length_window {b : Bytes} {o l : Nat} (h : o + l ≤ b.length) :
    ((b.drop o).take l).length = l := by
  rw [List.length_take, List.length_drop]
  omega

theorem size_cell {b : Bytes} {s : Slot} (h : ∀ o l, s.body? = some (o, l) →
    o.toNat + l.toNat ≤ b.length) : (s.cell b).size = s.bodySize := by
  cases s with
  | occupied o l => exact length_window (h o l rfl)
  | moved o l => exact length_window (h o l rfl)
  | forwarded t => rfl
  | deleted next => rfl

theorem Holds.body_le (h : p.Holds slots free) {n : Nat} {s : Slot} {o l : UInt16}
    (hn : slots[n]? = some s) (hs : s.body? = some (o, l)) :
    o.toNat + l.toNat ≤ p.trailer.boundary.toNat :=
  h.tiled.inside n o l (by rw [bodyAt, hn]; exact hs)

theorem Holds.boundary_le (h : p.Holds slots free) : p.trailer.boundary.toNat ≤ p.bytes.length := by
  have := h.low
  have := h.lists.low_le
  rw [h.lists.size]
  omega

theorem Holds.used_eq (h : p.Holds slots free) (hc : v.cells = slots.map (Slot.cell p.bytes)) :
    v.used = p.trailer.boundary.toNat := by
  have hmap : v.cells.map Cell.size = slots.map Slot.bodySize := by
    rw [hc, List.map_map]
    apply List.map_congr_left
    intro s hs
    obtain ⟨n, hn⟩ := List.mem_iff_getElem?.mp hs
    exact size_cell fun o l hb => Nat.le_trans (h.body_le hn hb) h.boundary_le
  rw [Sheet.used, hmap, h.tiled.total]

theorem Holds.space_eq (h : p.Holds slots free) (hc : v.cells = slots.map (Slot.cell p.bytes)) :
    p.trailer.boundary.toNat + v.space = directoryStart slots.length := by
  have := h.low
  have := h.lists.low_le
  have hlen : v.cells.length = slots.length := by rw [hc, List.length_map]
  rw [Sheet.space, h.used_eq hc, hlen]
  omega

theorem Holds.freeSpace_eq (h : p.Holds slots free) (hc : v.cells = slots.map (Slot.cell p.bytes)) :
    p.freeSpace.toNat = v.space := by
  have hlow := h.low
  have hall := h.lists.low_le
  have hlen : v.cells.length = slots.length := by rw [hc, List.length_map]
  rw [toNat_freeSpace, Trailer.directorySize, h.lists.count, Sheet.space, h.used_eq hc, hlen]
  rw [Trailer.directorySize, h.lists.count]
  omega

theorem Holds.ne_noSlot (h : p.Holds slots free) (hn : n ∈ free) : n ≠ Trailer.noSlot := by
  obtain ⟨next, hd⟩ := h.freeList.chain.deleted n hn
  have hlt := lt_of_getElem?_eq_some hd
  have hle := h.lists.length_le
  rintro rfl
  have : Trailer.noSlot.toNat = 65535 := rfl
  omega

theorem Holds.hasFreeSlot_iff (h : p.Holds slots free) : p.hasFreeSlot = true ↔ free ≠ [] := by
  have hc := h.freeList.chain
  unfold hasFreeSlot
  cases free with
  | nil => simp [FreeChain] at hc ⊢; exact hc
  | cons n rest =>
    simp only [ne_eq, decide_eq_true_eq, reduceCtorEq, not_false_eq_true, iff_true]
    rw [hc.1]
    exact h.ne_noSlot (List.mem_cons_self ..)

theorem Holds.canHold_iff (h : p.Holds slots v.free) (hc : v.cells = slots.map (Slot.cell p.bytes))
    {length : Nat} (hl : length + Slot.size < UInt64.size) :
    p.canHold length = true ↔ v.CanHold length := by
  have hcost : (if p.hasFreeSlot = true then 0 else Slot.size)
      = if v.free = [] then Slot.size else 0 := by
    by_cases hf : v.free = []
    · have : p.hasFreeSlot = false := by simpa [hf] using h.hasFreeSlot_iff
      simp [hf, this]
    · simp [hf, h.hasFreeSlot_iff.mpr hf]
  have hle : length + (if v.free = [] then Slot.size else 0) < UInt64.size := by split <;> omega
  rw [canHold, decide_eq_true_eq, UInt64.le_iff_toNat_le, hcost, h.freeSpace_eq hc,
    UInt64.toNat_ofNat_of_lt' hle, Sheet.CanHold]

/-! ## Sheets that a page can show -/

theorem shows_empty (number : PageNum) : (empty number).Shows .blank := by
  have hsize : (empty number).bytes.length = pageSize := by
    simp [empty, length_encode_trailer]
    rfl
  have htrailer : (empty number).StoresTrailer := by
    refine Bytes.slice_eq_ok_iff.mpr ⟨by rw [hsize]; decide, ?_⟩
    simp only [empty]
    rw [List.drop_append_of_le_length (by simp), List.drop_of_length_le (by simp), List.nil_append,
      List.take_of_length_le (Nat.le_of_eq (length_encode_trailer _))]
  exact ⟨[], ⟨⟨hsize, rfl, by decide, by simp⟩, htrailer, .nil, Nat.zero_le _, .nil⟩, rfl⟩

theorem Shows.ofBytes_eq (h : p.Shows v) : ofBytes p.bytes p.number = .ok p := by
  obtain ⟨slots, hh, -⟩ := h
  exact hh.ofBytes_eq

theorem Shows.size_eq (h : p.Shows v) : p.bytes.length = pageSize := by
  obtain ⟨slots, hh, -⟩ := h
  exact hh.lists.size

theorem Shows.boundary_eq (h : p.Shows v) : p.trailer.boundary.toNat = v.used := by
  obtain ⟨slots, hh, hc⟩ := h
  exact (hh.used_eq hc).symm

theorem Shows.freeSpace_eq (h : p.Shows v) : p.freeSpace.toNat = v.space := by
  obtain ⟨slots, hh, hc⟩ := h
  exact hh.freeSpace_eq hc

theorem Shows.length_lt (h : p.Shows v) : v.cells.length < UInt16.size := by
  obtain ⟨slots, hh, hc⟩ := h
  rw [hc, List.length_map]
  exact Nat.lt_of_le_of_lt hh.lists.length_le (by decide)

theorem Shows.free_cell (h : p.Shows v) (hn : n ∈ v.free) : v.cells[n.toNat]? = some .free := by
  obtain ⟨slots, hh, hc⟩ := h
  obtain ⟨next, hd⟩ := hh.freeList.chain.deleted n hn
  rw [hc, List.getElem?_map, hd]
  rfl

theorem Shows.canHold_iff (h : p.Shows v) {length : Nat} (hl : length ≤ pageSize) :
    p.canHold length = true ↔ v.CanHold length := by
  obtain ⟨slots, hh, hc⟩ := h
  refine hh.canHold_iff hc (Nat.lt_of_le_of_lt (Nat.add_le_add_right hl _) (by decide))

end SlottedPage

namespace Sheet

variable {v : Sheet} {c : Cell}

theorem getElem?_nextSlot (hfree : ∀ n ∈ v.free, v.cells[n.toNat]? = some .free)
    (hlen : v.cells.length < UInt16.size) :
    v.cells[v.nextSlot.toNat]? = none ∨ v.cells[v.nextSlot.toNat]? = some .free := by
  unfold nextSlot
  split
  · exact .inr (hfree _ (by simp [*]))
  · left
    rw [SlottedPage.toNat_ofNat_of_lt hlen]
    exact List.getElem?_eq_none (Nat.le_refl _)

theorem getElem?_insert (hfree : ∀ n ∈ v.free, v.cells[n.toNat]? = some .free)
    (hlen : v.cells.length < UInt16.size) (m : Nat) :
    (v.insert c).cells[m]? = if m = v.nextSlot.toNat then some c else v.cells[m]? := by
  unfold insert nextSlot
  cases hf : v.free with
  | nil =>
    simp only [SlottedPage.toNat_ofNat_of_lt hlen]
    rcases Nat.lt_trichotomy m v.cells.length with hm | rfl | hm
    · rw [List.getElem?_append_left hm, if_neg (Nat.ne_of_lt hm)]
    · simp
    · rw [if_neg (Nat.ne_of_gt hm), List.getElem?_eq_none (Nat.le_of_lt hm),
        List.getElem?_eq_none (by rw [List.length_append, List.length_singleton]; omega)]
  | cons n rest =>
    have hn := SlottedPage.lt_of_getElem?_eq_some (hfree n (by simp [hf]))
    by_cases hm : m = n.toNat
    · subst hm
      simp [List.getElem?_set_self hn]
    · simp [List.getElem?_set_ne (Ne.symm hm), hm]

end Sheet

end Tablespace
