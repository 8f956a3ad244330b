import Tablespace.Proofs.Heap.Hops
import Tablespace.Proofs.Page.Reachable

/-!
# Where records are placed

A record goes to the first page that has room for it, where the last page is
tried before the others, or to a new page if none has room. It gets a slot that
nothing used, and no other page changes. An update that relocates a record
places it like this, and not on a page that has just turned out too full.
-/

namespace Tablespace

namespace SlottedPage

variable {p q : SlottedPage} {v : Sheet} {c : Cell}

/-- Whether a slot of the page is deleted. -/
def hasDeleted (p : SlottedPage) : Bool :=
  p.slotNums.any fun m =>
    match p.slot m with
    | .ok (.deleted _) => true
    | _ => false

/-- How many bytes another body takes in the directory. -/
def slotCost (p : SlottedPage) : Nat := if p.hasDeleted then 0 else Slot.size

theorem hasDeleted_iff : p.hasDeleted = true ↔ ∃ m next, p.slot m = .ok (.deleted next) := by
  rw [hasDeleted, List.any_eq_true]
  constructor
  · intro h
    obtain ⟨m, -, hm⟩ := h
    split at hm
    · exact ⟨m, _, ‹_›⟩
    · cases hm
  · intro h
    obtain ⟨m, next, hm⟩ := h
    exact ⟨m, mem_slotNums.mpr (slot_eq_ok hm).1, by rw [hm]⟩

theorem Shows.hasDeleted_iff (h : p.Shows v) : p.hasDeleted = true ↔ v.free ≠ [] := by
  rw [SlottedPage.hasDeleted_iff]
  constructor
  · intro hm
    obtain ⟨m, next, hm⟩ := hm
    refine List.ne_nil_of_mem (h.mem_free_iff.mpr (h.look_eq_ok_iff.mp (?_ : p.look m = .ok .free)))
    rw [look, hm]
    rfl
  · intro hne
    obtain ⟨m, hm⟩ := List.exists_mem_of_ne_nil _ hne
    obtain ⟨s, hs, hc⟩ := h.slot_of_cell (h.free_cell hm)
    obtain ⟨next, rfl⟩ := Heap.deleted_of_cell hc
    exact ⟨m, next, hs⟩

theorem Shows.slotCost_le_iff (h : p.Shows v) {length : Nat} :
    length + p.slotCost ≤ p.freeSpace.toNat ↔ v.CanHold length := by
  rw [h.freeSpace_eq, slotCost, Sheet.CanHold]
  by_cases hfree : v.free = []
  · rw [if_neg fun hdel => h.hasDeleted_iff.mp hdel hfree, if_pos hfree]
  · rw [if_pos (h.hasDeleted_iff.mpr hfree), if_neg hfree]

/-- A body gets a slot that nothing used, and leaves the other slots as they are. -/
theorem Shows.replaces_insert (h : p.Shows v) (hq : q.Shows (v.insert c)) (hnum : q.number = p.number) :
    (∀ d, p.look v.nextSlot = .ok d → d = .free) ∧ p.Replaces v.nextSlot c q := by
  have hfree : ∀ n ∈ v.free, v.cells[n.toNat]? = some .free := fun n hn => h.free_cell hn
  refine ⟨fun d hd => ?_, h.replaces hq hnum (Sheet.getElem?_insert hfree h.length_lt)⟩
  have hcell := h.look_eq_ok_iff.mp hd
  rcases Sheet.getElem?_nextSlot hfree h.length_lt with hnone | hsome
  · rw [hnone] at hcell
    cases hcell
  · rw [hsome] at hcell
    cases hcell
    rfl

end SlottedPage

namespace Heap

open Access Volume
open SlottedPage (bodyCell)

variable {f f' : PagedFile} {sheets sheets' : List Sheet} {isMoved : Bool} {packed : Bytes} {id target : RecordId}
  {length : Nat}

/-! ## The first page with room -/

/-- Whether a record of this length fits on the page together with the slot that it may need. -/
def hasRoom (f : PagedFile) (length n : Nat) : Bool :=
  match f.pages[n]?.bind fun page => (SlottedPage.ofBytes page.bytes (UInt32.ofNat n)).toOption with
  | some p => length + p.slotCost ≤ p.freeSpace.toNat
  | none => false

/-- The number of the last page, and then the others from the first. -/
def probes : Nat → List Nat
  | 0 => []
  | last + 1 => last :: List.range last

def firstRoom (f : PagedFile) (length : Nat) : Option Nat := (probes f.pages.length).find? (hasRoom f length)

theorem map_candidates (count : PageNum) : (candidates count).map UInt32.toNat = probes count.toNat := by
  have hword : count.toNat < UInt32.size := count.toNat_lt
  unfold candidates
  cases hc : count.toNat with
  | zero => rfl
  | succ last =>
    have hlast : (UInt32.ofNat last).toNat = last := UInt32.toNat_ofNat_of_lt' (by omega)
    rw [List.map_cons, List.map_map, hlast, probes]
    refine congrArg (last :: ·) ((List.map_congr_left fun i hi => ?_).trans (List.map_id _))
    exact UInt32.toNat_ofNat_of_lt' (by have := List.mem_range.mp hi; omega)

example : probes 4 = [3, 0, 1, 2] := rfl

theorem hasRoom_iff (h : f.Shows sheets) {n : PageNum} : hasRoom f length n.toNat = true ↔ ¬ Full sheets n length := by
  unfold hasRoom
  cases hv : sheets[n.toNat]? with
  | none =>
    have hpage : f.pages[n.toNat]? = none := by
      rw [List.getElem?_eq_none_iff] at hv ⊢
      rwa [h.length_eq]
    simp [hpage, Full, hv]
  | some v =>
    obtain ⟨p, ⟨page, hpage, hopens⟩, hp⟩ := exists_opens h hv
    simp [hpage, UInt32.ofNat_toNat, hopens, Except.toOption, hp.slotCost_le_iff, Full, hv]

theorem Placed.firstRoom_eq (hplaced : Placed f sheets isMoved packed id f' sheets') (h : f.Shows sheets)
    (hb : sheets.length < UInt32.size) :
    firstRoom f packed.length = none ∧ id.page.toNat = f.pages.length ∧ f'.pages.length = f.pages.length + 1
    ∨ firstRoom f packed.length = some id.page.toNat ∧ f'.pages.length = f.pages.length := by
  have hcount := toNat_pageCount h hb
  have hprobes : probes f.pages.length = (candidates (UInt32.ofNat sheets.length)).map UInt32.toNat := by
    rw [map_candidates, ← h.length_eq, hcount, h.length_eq]
  unfold firstRoom
  rw [hprobes]
  cases hplaced with
  | onNew page hfull =>
    refine .inl ⟨?_, ?_, List.length_append⟩
    · refine List.find?_eq_none.mpr fun i hi => ?_
      obtain ⟨n, -, rfl⟩ := List.mem_map.mp hi
      exact fun hroom => (hasRoom_iff h).mp hroom (hfull n)
    · rw [UInt32.toNat_ofNat_of_lt' hb, h.length_eq]
  | onPage page he hbefore hv hcan =>
    refine .inr ⟨?_, List.length_set ..⟩
    rw [he, List.map_append, List.map_cons]
    refine List.find?_eq_some_iff_append.mpr ⟨(hasRoom_iff h).mpr fun hfull => hfull _ hv hcan, _, _, rfl, ?_⟩
    intro i hi
    obtain ⟨m, hm, rfl⟩ := List.mem_map.mp hi
    rw [Bool.not_eq_true', ← Bool.not_eq_true, hasRoom_iff h, not_not]
    exact hbefore m hm

/-! ## Files that take a record -/

/-- A record was placed on the first page with room for it, or on a new page if there is none. It has
a slot to itself, and the other slots of the page and the other pages are as they were. -/
structure FirstFit (f : PagedFile) (isMoved : Bool) (packed : Bytes) (id : RecordId) (f' : PagedFile) : Prop where
  page : id.page.toNat = (firstRoom f packed.length).getD f.pages.length
  count : f'.pages.length = if firstRoom f packed.length = none then f.pages.length + 1 else f.pages.length
  others : ∀ i, i ≠ id.page.toNat → f'.pages[i]? = f.pages[i]?
  slot : ∃ p q, (f.Opens id.page p ∨ f.pages.length = id.page.toNat ∧ p = SlottedPage.empty id.page)
    ∧ f'.Opens id.page q ∧ (∀ c, p.look id.slot = .ok c → c = .free)
    ∧ p.Replaces id.slot (bodyCell isMoved packed) q

theorem Placed.others (hplaced : Placed f sheets isMoved packed id f' sheets') (h : f.Shows sheets)
    (hb : sheets.length < UInt32.size) {i : Nat} (hi : i ≠ id.page.toNat) : f'.pages[i]? = f.pages[i]? := by
  cases hplaced with
  | onPage page => exact List.getElem?_set_ne (Ne.symm hi)
  | onNew page =>
    rw [UInt32.toNat_ofNat_of_lt' hb, ← h.length_eq] at hi
    rcases Nat.lt_or_gt_of_ne hi with hlt | hgt
    · exact List.getElem?_append_left hlt
    · rw [List.getElem?_eq_none (Nat.le_of_lt hgt), PagedFile.append]
      exact List.getElem?_eq_none (by rw [List.length_append, List.length_singleton]; omega)

theorem Placed.firstFit (hplaced : Placed f sheets isMoved packed id f' sheets') (h : f.Shows sheets)
    (h' : f'.Shows sheets') (hb : sheets.length < UInt32.size) : FirstFit f isMoved packed id f' := by
  constructor
  case page =>
    rcases hplaced.firstRoom_eq h hb with ⟨hnone, hpage, -⟩ | ⟨hsome, -⟩
    · rw [hnone, hpage, Option.getD_none]
    · rw [hsome, Option.getD_some]
  case count =>
    rcases hplaced.firstRoom_eq h hb with ⟨hnone, -, hlen⟩ | ⟨hsome, hlen⟩
    · rw [if_pos hnone, hlen]
    · rw [hsome, if_neg (by simp), hlen]
  case others => exact fun i => hplaced.others h hb
  case slot =>
    cases hplaced with
    | @onPage before n after v page he hbefore hv hcan =>
      obtain ⟨p, hopens, hp⟩ := exists_opens h hv
      have hv' : (sheets.set n.toNat (v.insert (bodyCell isMoved packed)))[n.toNat]?
          = some (v.insert (bodyCell isMoved packed)) :=
        List.getElem?_set_self (SlottedPage.lt_of_getElem?_eq_some hv)
      obtain ⟨q, hopens', hq⟩ := exists_opens h' hv'
      have hnum : q.number = p.number := by rw [hopens'.number_eq, hopens.number_eq]
      exact ⟨p, q, .inl hopens, hopens', hp.replaces_insert hq hnum⟩
    | onNew page hfull =>
      have hword : (UInt32.ofNat sheets.length).toNat = sheets.length := UInt32.toNat_ofNat_of_lt' hb
      have hv' : (sheets ++ [Sheet.blank.insert (bodyCell isMoved packed)])[(UInt32.ofNat sheets.length).toNat]?
          = some (Sheet.blank.insert (bodyCell isMoved packed)) := by
        rw [hword, List.getElem?_concat_length]
      obtain ⟨q, hopens', hq⟩ := exists_opens h' hv'
      refine ⟨_, q, .inr ⟨by rw [hword, h.length_eq], rfl⟩, hopens', ?_⟩
      exact (SlottedPage.shows_empty _).replaces_insert hq hopens'.number_eq

theorem does_place_firstFit (h : f.Shows sheets) (hb : sheets.length < UInt32.size) (isMoved : Bool)
    (hsize : packed.length ≤ Packed.maxSize) :
    ∃ id f', Does (place packed isMoved) f id f' ∧ FirstFit f isMoved packed id f' := by
  obtain ⟨id, f', sheets', hdoes, hf', hplaced⟩ := does_place h isMoved hsize hb
  exact ⟨id, f', hdoes, hplaced.firstFit h hf' hb⟩

/-! ## Updates -/

/-- The bytes of a page that neither bodies nor directory take. -/
def freeOn (f : PagedFile) (n : PageNum) : Nat :=
  match f.pages[n.toNat]?.bind fun page => (SlottedPage.ofBytes page.bytes n).toOption with
  | some p => p.freeSpace.toNat
  | none => 0

/-- The longest record that has room where the record is: in place of its body, or on the page of its
slot if the body is on another one. -/
def capacityAt (f : PagedFile) (id : RecordId) : Nat :=
  match slotAt f id with
  | some (.occupied _ l) => freeOn f id.page + l.toNat
  | some (.forwarded target) =>
    match slotAt f target with
    | some (.moved _ l) => max (freeOn f target.page + l.toNat) (freeOn f id.page)
    | _ => freeOn f id.page
  | _ => 0

/-- The slot of the record holds it, or forwards to the same place as before. -/
def Stays (f : PagedFile) (id : RecordId) (f' : PagedFile) : Prop :=
  (∃ o l, slotAt f' id = some (.occupied o l))
  ∨ ∃ target, slotAt f id = some (.forwarded target) ∧ slotAt f' id = some (.forwarded target)

/-- The work places the record on a page that neither its slot nor its body was on, and the slot
forwards to that place, unless the file has come to too many pages to be counted. -/
def Relocates (work : RecordM Unit) (f : PagedFile) (packed : Bytes) (id : RecordId) : Prop :=
  ∃ target f₁, Does (place packed true) f target f₁ ∧ FirstFit f true packed target f₁ ∧ target.page ≠ id.page
    ∧ (∀ old, slotAt f id = some (.forwarded old) → target.page ≠ old.page)
    ∧ (f₁.pages.length < UInt32.size → ∃ f', Does work f () f' ∧ slotAt f' id = some (.forwarded target))

/-- The record is relocated just if it has no room where it is. -/
def StaysOrRelocates (work : RecordM Unit) (f : PagedFile) (packed : Bytes) (id : RecordId) : Prop :=
  packed.length ≤ capacityAt f id ∧ (∃ f', Does work f () f' ∧ Stays f id f')
  ∨ capacityAt f id < packed.length ∧ Relocates work f packed id

theorem StaysOrRelocates.mono {work work' : RecordM Unit} (hwork : ∀ f', Does work f () f' → Does work' f () f')
    (h : StaysOrRelocates work f packed id) : StaysOrRelocates work' f packed id := by
  rcases h with ⟨hle, f', hdoes, hstays⟩ | ⟨hlt, target, f₁, hplace, hfirst, hhome, hold, hrest⟩
  · exact .inl ⟨hle, f', hwork f' hdoes, hstays⟩
  · refine .inr ⟨hlt, target, f₁, hplace, hfirst, hhome, hold, fun hcount => ?_⟩
    obtain ⟨f', hdoes, hslot⟩ := hrest hcount
    exact ⟨f', hwork f' hdoes, hslot⟩

theorem freeOn_eq (h : f.Shows sheets) (n : PageNum) : freeOn f n = spaceOn sheets n := by
  unfold freeOn
  cases hv : sheets[n.toNat]? with
  | none =>
    have hpage : f.pages[n.toNat]? = none := by
      rw [List.getElem?_eq_none_iff] at hv ⊢
      rwa [h.length_eq]
    simp [hpage, spaceOn, hv]
  | some v =>
    obtain ⟨p, ⟨page, hpage, hopens⟩, hp⟩ := exists_opens h hv
    simp [hpage, hopens, Except.toOption, hp.freeSpace_eq, spaceOn_eq hv]

theorem capacityAt_record {b : Bytes} (h : f.Shows sheets) (hid : cells sheets id = .record b) :
    capacityAt f id = spaceOn sheets id.page + b.length := by
  obtain ⟨o, l, hslot, hlen⟩ := slotAt_of_body h false hid
  rw [← hlen, ← freeOn_eq h, capacityAt, hslot]
  rfl

theorem capacityAt_pointer {b : Bytes} (h : f.Shows sheets) (hid : cells sheets id = .pointer target)
    (htarget : cells sheets target = .guest b) :
    capacityAt f id = max (spaceOn sheets target.page + b.length) (spaceOn sheets id.page) := by
  obtain ⟨o, l, hslot, hlen⟩ := slotAt_of_body h true htarget
  simp only [capacityAt, (slotAt_forwarded_iff h).mpr hid, hslot, SlottedPage.bodySlot, if_true, freeOn_eq h, hlen]

section
variable {records : RecordId → Option Bytes} {b : Bytes} (h : f.Shows sheets) (hb : sheets.length < UInt32.size)
  (hsize : packed.length ≤ Packed.maxSize)
include h hb hsize

theorem updateAtHome_places (hid : cells sheets id = .record b) :
    StaysOrRelocates (updateAtHome id packed) f packed id := by
  rw [StaysOrRelocates, capacityAt_record h hid]
  rcases updateAtHome_cases h hb hsize hid with ⟨hle, f', sheets', hdoes, hf', -, hcells⟩
    | ⟨hlt, target, f₁, sheets₁, hplace, hf₁, hplaced, hpage, f', sheets', hdoes, hf', -, hcells⟩
  · exact .inl ⟨hle, f', hdoes, .inl ((slotAt_occupied_iff hf').mpr ⟨packed, by rw [hcells, Cells.set_self]⟩)⟩
  · refine .inr ⟨hlt, target, f₁, hplace, hplaced.firstFit h hf₁ hb, hpage, fun old hold => ?_,
      fun _ => ⟨f', hdoes, ?_⟩⟩
    · rw [slotAt_forwarded_iff h, hid] at hold
      cases hold
    · rw [slotAt_forwarded_iff hf', hcells, Cells.set_self]

theorem updateMoved_places (hc : (cells sheets).Keeps records) (hid : cells sheets id = .pointer target) :
    StaysOrRelocates (updateMoved id target packed) f packed id := by
  obtain ⟨hpage, g, hg⟩ := hc.hop _ _ hid
  have hne : id ≠ target := (ne_of_apply_ne RecordId.page hpage).symm
  rw [StaysOrRelocates, capacityAt_pointer h hid hg]
  rcases updateMoved_cases h hb hsize hid hpage hg with ⟨hle, f', sheets', hdoes, hf', -, hcells⟩
    | ⟨hle, f', sheets', hdoes, hf', -, hcells⟩
    | ⟨hlt, hlt', third, f₁, sheets₁, hplace, hf₁, hplaced, hhome, hold, hlast⟩
  · refine .inl ⟨le_max_of_le_left hle, f', hdoes,
      .inr ⟨target, (slotAt_forwarded_iff h).mpr hid, (slotAt_forwarded_iff hf').mpr ?_⟩⟩
    rw [hcells, Cells.set_of_ne hne, hid]
  · refine .inl ⟨le_max_of_le_right hle, f', hdoes, .inl ((slotAt_occupied_iff hf').mpr ⟨packed, ?_⟩)⟩
    rw [hcells, Cells.set_of_ne hne, Cells.set_self]
  · refine .inr ⟨Nat.max_lt.mpr ⟨hlt, hlt'⟩, third, f₁, hplace, hplaced.firstFit h hf₁ hb, hhome,
      fun old ho => ?_, fun hcount => ?_⟩
    · rw [slotAt_forwarded_iff h, hid] at ho
      cases ho
      exact hold
    · rcases hlast with ⟨f', sheets', hdoes, hf', -, hcells⟩ | ⟨hlen, -⟩
      · exact ⟨f', hdoes, by rw [slotAt_forwarded_iff hf', hcells, Cells.set_self]⟩
      · exact absurd hcount (Nat.not_lt.mpr (Nat.le_of_eq hlen.symm))

end

section
variable {k : Nat} {v : Volume} {L : Ledger} {schema : Schema} {tuple : Bytes}

theorem update_places (h : f.Stores L) (hb : f.pages.length < UInt32.size) (hid : L id ≠ none)
    (he : Packed.encode schema tuple = .ok packed) : StaysOrRelocates (update schema tuple id) f packed id := by
  obtain ⟨b, hpacked⟩ := exists_packed h hid
  obtain ⟨sheets, hf, hc⟩ := h.keeps
  have hb' := hf.length_eq ▸ hb
  have hsize := Packed.length_le_of_encode he
  have hpack : Does (liftM (Packed.encode schema tuple) : RecordM Bytes) f packed f := does_lift he
  rcases hc.cell_of_some hpacked with hrec | ⟨target, hptr, -⟩
  · obtain ⟨o, l, hslot⟩ := does_homeSlot_record hf hb' hrec
    exact (updateAtHome_places hf hb' hsize hrec).mono fun f' hdoes => hpack.bind (hslot.bind hdoes)
  · have hslot := does_homeSlot_pointer hf hb' hptr
    exact (updateMoved_places hf hb' hsize hc hptr).mono fun f' hdoes => hpack.bind (hslot.bind hdoes)

/-- In the file of a run every record that a page can take is placed on the first page with room for
it. Inserts place records like this, and so do updates when a record does not fit any more on the
pages of its slot and its body. -/
theorem places_of_reaches (h : Reaches k v L) (hf : v.files[k]? = some f) :
    (∀ packed isMoved, packed.length ≤ Packed.maxSize →
      ∃ id f', Does (place packed isMoved) f id f' ∧ FirstFit f isMoved packed id f')
    ∧ (∀ schema tuple packed, Packed.encode schema tuple = .ok packed →
      ∃ id f', Does (insert schema tuple) f id f' ∧ FirstFit f false packed id f')
    ∧ ∀ schema tuple packed id, Packed.encode schema tuple = .ok packed → L id ≠ none →
      StaysOrRelocates (update schema tuple id) f packed id := by
  obtain ⟨g, hg, hb, hs⟩ := h.stores
  rw [hf] at hg
  cases hg
  obtain ⟨sheets, hshows, -⟩ := hs.keeps
  have hb' := hshows.length_eq ▸ hb
  refine ⟨fun packed isMoved => does_place_firstFit hshows hb' isMoved, ?_, ?_⟩
  · intro schema tuple packed he
    obtain ⟨id, f', hdoes, hfirst⟩ := does_place_firstFit hshows hb' false (Packed.length_le_of_encode he)
    exact ⟨id, f', (does_lift he).bind hdoes, hfirst⟩
  · intro schema tuple packed id he hid
    exact update_places hs hb hid he

/-- Beside a long text a record of 7 bytes may grow to 171, and leaves the page when it grows further. -/
theorem places_of_reaches_crowded :
    (Reaches 0 fresh (fun _ => none) ∧ ∃ id f', Does (place [1, 2, 3] true) .empty id f' ∧ id.page = 0
      ∧ f'.pages.length = 1)
    ∧ ∃ v L f, Reaches 0 v L ∧ v.files[0]? = some f ∧ capacityAt f ⟨0, 0⟩ = 171
      ∧ (∃ id f', Does (insert [.int "a"] [0, 8, 0, 0, 0]) f id f' ∧ FirstFit f false [0, 4, 0, 8, 0, 0, 0] id f')
      ∧ (∃ f', Does (update [.int "a"] [0, 8, 0, 0, 0] ⟨0, 0⟩) f () f' ∧ Stays f ⟨0, 0⟩ f')
      ∧ Relocates (update [.varchar "a" 4000] (0 :: counted (List.replicate 200 99)) ⟨0, 0⟩) f
        (packedText 99 200) ⟨0, 0⟩ := by
  have hstart : Reaches 0 fresh fun _ => none := .start rfl
  obtain ⟨hplaces, -⟩ := places_of_reaches hstart rfl
  obtain ⟨id, f', hdoes, hfirst⟩ := hplaces [1, 2, 3] true (by decide)
  refine ⟨⟨hstart, id, f', hdoes, UInt32.toNat_inj.mp hfirst.page, hfirst.count⟩, ?_⟩
  obtain ⟨v, hreaches, -, f, hf, hshows⟩ := exists_reaches_beside
    (encode_packedText 97 (show 4 ≤ 4000 by decide)) (encode_packedText 98 (show 3900 ≤ 4000 by decide))
    (by simp only [length_packedText]; decide)
  have hcapacity : capacityAt f ⟨0, 0⟩ = 171 := by
    rw [capacityAt_record hshows rfl, spaceOn_eq rfl, length_packedText]
    simp only [Sheet.space, Sheet.used, List.map_cons, List.map_nil, List.sum_cons, List.sum_nil, Cell.size,
      length_packedText]
    rfl
  obtain ⟨-, hinsert, hupdate⟩ := places_of_reaches hreaches hf
  have updates {schema : Schema} {tuple packed : Bytes} (he : Packed.encode schema tuple = .ok packed) :
      StaysOrRelocates (update schema tuple ⟨0, 0⟩) f packed ⟨0, 0⟩ := by
    refine hupdate _ _ _ _ he ?_
    rw [Function.update_of_ne (by decide), Function.update_self]
    exact Option.some_ne_none _
  refine ⟨v, _, f, hreaches, hf, hcapacity, hinsert _ _ _ rfl, ?_, ?_⟩
  · have hsmall : Packed.encode [.int "a"] [0, 8, 0, 0, 0] = .ok [0, 4, 0, 8, 0, 0, 0] := rfl
    refine ((updates hsmall).resolve_right fun hlt => ?_).2
    rw [hcapacity] at hlt
    exact absurd hlt.1 (by decide)
  · refine ((updates (encode_packedText 99 (show 200 ≤ 4000 by decide))).resolve_left fun hle => ?_).2
    rw [hcapacity, length_packedText] at hle
    exact absurd hle.1 (by decide)

end

end Heap

end Tablespace
