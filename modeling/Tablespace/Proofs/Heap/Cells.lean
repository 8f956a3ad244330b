import Tablespace.Proofs.Heap.Forwarding
import Tablespace.Proofs.Heap.Pages

/-!
# Steps on record files

What the steps of an operation do to the cells of a file: an edit changes the
cell of one identifier, and a record is placed under an identifier that held
nothing, on a page that has room for it.
-/

namespace Tablespace

open Access
open SlottedPage (bodyCell)

namespace Heap

def cells (sheets : List Sheet) : Cells := fun id =>
  (sheets[id.page.toNat]?.bind fun v => v.cells[id.slot.toNat]?).getD .free

/-- The bytes of a page that neither bodies nor directory take. -/
def spaceOn (sheets : List Sheet) (n : PageNum) : Nat := (sheets[n.toNat]?.map Sheet.space).getD 0

variable {f : PagedFile} {sheets : List Sheet} {id : RecordId} {v v' : Sheet} {c : Cell} {b : Bytes}

theorem spaceOn_eq {n : PageNum} (hv : sheets[n.toNat]? = some v) : spaceOn sheets n = v.space := by
  simp [spaceOn, hv]

theorem cells_eq (hv : sheets[id.page.toNat]? = some v) :
    cells sheets id = v.cells[id.slot.toNat]?.getD .free := by simp [cells, hv]

theorem cells_past (hv : sheets[id.page.toNat]? = none) : cells sheets id = .free := by
  simp [cells, hv]

theorem exists_of_cells (h : cells sheets id = c) (hc : c ≠ .free) :
    ∃ v, sheets[id.page.toNat]? = some v ∧ v.cells[id.slot.toNat]? = some c := by
  cases hv : sheets[id.page.toNat]? with
  | none => exact absurd (h.symm.trans (cells_past hv)) hc
  | some v =>
    rw [cells_eq hv] at h
    cases hs : v.cells[id.slot.toNat]? with
    | none => exact absurd (by rw [← h, hs]; rfl) hc
    | some d =>
      rw [hs, Option.getD_some] at h
      exact ⟨v, rfl, by rw [hs, h]⟩

/-- A page whose sheet changes in one cell changes the file in one cell. -/
theorem cells_set (id : RecordId) (hv : sheets[id.page.toNat]? = some v)
    (hc : ∀ m, v'.cells[m]?.getD .free = if m = id.slot.toNat then c else v.cells[m]?.getD .free) :
    cells (sheets.set id.page.toNat v') = (cells sheets).set id c := by
  have hlt := SlottedPage.lt_of_getElem?_eq_some hv
  funext a
  by_cases hp : a.page.toNat = id.page.toNat
  · have hpage : (sheets.set id.page.toNat v')[a.page.toNat]? = some v' := by
      rw [hp, List.getElem?_set_self hlt]
    rw [cells_eq hpage, hc]
    split
    · obtain rfl : a = id := by
        cases a; cases id
        simp_all [UInt32.toNat_inj, UInt16.toNat_inj]
      rw [Cells.set_self]
    · rw [Cells.set_of_ne (by rintro rfl; contradiction), cells_eq (hp ▸ hv)]
  · rw [Cells.set_of_ne (by rintro rfl; contradiction), cells, cells,
      List.getElem?_set_ne (Ne.symm hp)]

theorem getD_set {cs : List Cell} {n : Nat} {d : Cell} (hn : cs[n]? = some d) (m : Nat) :
    (cs.set n c)[m]?.getD .free = if m = n then c else cs[m]?.getD .free := by
  have hlt := SlottedPage.lt_of_getElem?_eq_some hn
  by_cases hm : m = n
  · subst hm
    rw [List.getElem?_set_self hlt, if_pos rfl, Option.getD_some]
  · rw [List.getElem?_set_ne (Ne.symm hm), if_neg hm]

theorem full_of_space_lt {n : PageNum} {length : Nat} (hv : sheets[n.toNat]? = some v)
    (h : v.space < length) : Full sheets n length := by
  intro w hw hcan
  rw [hv, Option.some.injEq] at hw
  subst hw
  have := Nat.le_trans (Nat.le_add_right _ _) hcan
  omega

/-! ## Edits of one cell -/

section
variable (h : f.Shows sheets)
include h

theorem does_edit {α : Type} {a : α} {change : PageM α} {c' : Cell}
    (hv : sheets[id.page.toNat]? = some v) (hs : v.cells[id.slot.toNat]? = some c)
    (hc : ∀ p : SlottedPage, p.Shows v → ∃ q, change p = .ok a q ∧ q.number = p.number ∧ q.Shows v')
    (hedit : v'.cells = v.cells.set id.slot.toNat c') :
    ∃ f' sheets', Does (editPage id.page change) f a f' ∧ f'.Shows sheets'
      ∧ sheets'.length = sheets.length ∧ cells sheets' = (cells sheets).set id c' := by
  obtain ⟨f', hdoes, hf'⟩ := does_editPage_of_shows h hv hc
  refine ⟨f', _, hdoes, hf', List.length_set .., cells_set id hv fun m => ?_⟩
  rw [hedit, getD_set hs]

theorem does_edit_full {change : PageM Bool} (hv : sheets[id.page.toNat]? = some v)
    (hc : ∀ p : SlottedPage, p.Shows v → change p = .ok false p) :
    Does (editPage id.page change) f false f := by
  obtain ⟨p, hopens, hp⟩ := exists_opens h hv
  exact does_editPage_self hopens (hc p hp)

theorem does_remove (hid : cells sheets id = c) (hne : c ≠ .free) :
    ∃ f' sheets', Does (editPage id.page (SlottedPage.remove id.slot)) f () f' ∧ f'.Shows sheets'
      ∧ sheets'.length = sheets.length ∧ cells sheets' = (cells sheets).set id .free := by
  obtain ⟨v, hv, hs⟩ := exists_of_cells hid hne
  exact does_edit h hv hs (fun _ hp => hp.run_remove hs hne) rfl

theorem does_forward (hid : cells sheets id = c) (hc : (∃ b, c = .record b) ∨ ∃ t, c = .pointer t)
    (target : RecordId) :
    ∃ f' sheets', Does (editPage id.page (SlottedPage.forward id.slot target)) f () f'
      ∧ f'.Shows sheets' ∧ sheets'.length = sheets.length
      ∧ cells sheets' = (cells sheets).set id (.pointer target) := by
  have hne : c ≠ .free := by rcases hc with ⟨_, rfl⟩ | ⟨_, rfl⟩ <;> simp
  obtain ⟨v, hv, hs⟩ := exists_of_cells hid hne
  exact does_edit h hv hs (fun _ hp => hp.run_forward hs hc target) rfl

theorem does_resize (isMoved : Bool) {old : Bytes} (hid : cells sheets id = bodyCell isMoved old)
    (b : Bytes) :
    (b.length ≤ spaceOn sheets id.page + old.length
      ∧ ∃ f' sheets', Does (editPage id.page (SlottedPage.resize id.slot b)) f true f'
        ∧ f'.Shows sheets' ∧ sheets'.length = sheets.length
        ∧ cells sheets' = (cells sheets).set id (bodyCell isMoved b))
    ∨ spaceOn sheets id.page + old.length < b.length
      ∧ Does (editPage id.page (SlottedPage.resize id.slot b)) f false f
      ∧ Full sheets id.page b.length := by
  obtain ⟨v, hv, hs⟩ := exists_of_cells hid (by cases isMoved <;> simp [bodyCell])
  rw [spaceOn_eq hv]
  by_cases hfit : b.length ≤ v.space + old.length
  · exact .inl ⟨hfit, does_edit h hv hs (fun _ hp => hp.run_resize hs hfit) rfl⟩
  · exact .inr ⟨Nat.lt_of_not_le hfit, does_edit_full h hv fun p hp => hp.run_resize_full hs (Nat.lt_of_not_le hfit),
      full_of_space_lt hv (by omega)⟩

theorem does_restore {target : RecordId} (hid : cells sheets id = .pointer target) (b : Bytes) :
    (b.length ≤ spaceOn sheets id.page
      ∧ ∃ f' sheets', Does (editPage id.page (SlottedPage.restore id.slot b)) f true f'
        ∧ f'.Shows sheets' ∧ sheets'.length = sheets.length
        ∧ cells sheets' = (cells sheets).set id (.record b))
    ∨ spaceOn sheets id.page < b.length
      ∧ Does (editPage id.page (SlottedPage.restore id.slot b)) f false f
      ∧ Full sheets id.page b.length := by
  obtain ⟨v, hv, hs⟩ := exists_of_cells hid (by simp)
  rw [spaceOn_eq hv]
  by_cases hfit : b.length ≤ v.space
  · exact .inl ⟨hfit, does_edit h hv hs (fun _ hp => hp.run_restore hs hfit) rfl⟩
  · exact .inr ⟨Nat.lt_of_not_le hfit, does_edit_full h hv fun p hp => hp.run_restore_full hs (Nat.lt_of_not_le hfit),
      full_of_space_lt hv (by omega)⟩

end

/-! ## Placing -/

theorem exists_shows (h : f.Shows sheets) {i : Nat} (hv : sheets[i]? = some v) :
    ∃ p : SlottedPage, p.Shows v := by
  have hlt := SlottedPage.lt_of_getElem?_eq_some hv
  obtain ⟨p, -, -, hp⟩ := h.page i _ v (List.getElem?_eq_getElem (h.length_eq ▸ hlt)) hv
  exact ⟨p, hp⟩

theorem cells_nextSlot {p : SlottedPage} {n : PageNum} (hp : p.Shows v) (hn : sheets[n.toNat]? = some v) :
    cells sheets ⟨n, v.nextSlot⟩ = .free := by
  rw [cells_eq hn]
  rcases Sheet.getElem?_nextSlot (fun _ hm => hp.free_cell hm) hp.length_lt with hs | hs <;>
    rw [hs] <;> rfl

theorem cells_insert {p : SlottedPage} {n : PageNum} (hp : p.Shows v)
    (hn : sheets[n.toNat]? = some v) :
    cells (sheets.set n.toNat (v.insert c)) = (cells sheets).set ⟨n, v.nextSlot⟩ c := by
  apply cells_set ⟨n, v.nextSlot⟩ hn
  intro m
  rw [Sheet.getElem?_insert (fun _ hm => hp.free_cell hm) hp.length_lt]
  split <;> rfl

theorem cells_append (hb : sheets.length < UInt32.size) :
    cells (sheets ++ [Sheet.blank.insert c]) = (cells sheets).set ⟨UInt32.ofNat sheets.length, 0⟩ c := by
  have hword : (UInt32.ofNat sheets.length).toNat = sheets.length := UInt32.toNat_ofNat_of_lt' hb
  funext a
  rcases Nat.lt_trichotomy a.page.toNat sheets.length with hp | hp | hp
  · rw [Cells.set_of_ne (by rintro rfl; exact Nat.ne_of_lt hp hword), cells, cells,
      List.getElem?_append_left hp]
  · have hpage : (sheets ++ [Sheet.blank.insert c])[a.page.toNat]? = some (Sheet.blank.insert c) := by
      rw [hp, List.getElem?_concat_length]
    rw [cells_eq hpage]
    by_cases hs : a.slot = 0
    · obtain rfl : a = ⟨UInt32.ofNat sheets.length, 0⟩ := by
        rw [← hp, UInt32.ofNat_toNat, ← hs]
      rw [Cells.set_self]
      rfl
    · have hpos : a.slot.toNat ≠ 0 := fun h0 => hs (UInt16.toNat_inj.mp h0)
      rw [Cells.set_of_ne (by rintro rfl; exact hs rfl), cells_past (by simp [hp])]
      simp only [Sheet.insert, Sheet.blank, List.nil_append]
      rw [List.getElem?_eq_none (by simp only [List.length_singleton]; omega)]
      rfl
  · rw [Cells.set_of_ne (by rintro rfl; exact Nat.ne_of_gt hp hword), cells_past, cells_past]
    · exact List.getElem?_eq_none (Nat.le_of_lt hp)
    · exact List.getElem?_eq_none (by simpa using Nat.succ_le_of_lt hp)

section
variable {f' : PagedFile} {sheets' : List Sheet} {isMoved : Bool} {packed : Bytes}
  (hplaced : Placed f sheets isMoved packed id f' sheets')
include hplaced

theorem Placed.length_le : sheets'.length ≤ sheets.length + 1 := by
  cases hplaced <;> simp

/-- A record is not placed where there is no room for it. -/
theorem Placed.page_ne (hb : sheets.length < UInt32.size) {n : PageNum} (hn : n.toNat < sheets.length)
    (hfull : Full sheets n packed.length) : id.page ≠ n := by
  rintro rfl
  cases hplaced with
  | onPage page _ _ hv hcan => exact hfull _ hv hcan
  | onNew page _ =>
    rw [UInt32.toNat_ofNat_of_lt' hb] at hn
    exact Nat.lt_irrefl _ hn

theorem Placed.cells_eq (h : f.Shows sheets) (hb : sheets.length < UInt32.size) :
    cells sheets id = .free ∧ cells sheets' = (cells sheets).set id (bodyCell isMoved packed) := by
  cases hplaced with
  | onPage page _ _ hv _ =>
    obtain ⟨p, hp⟩ := exists_shows h hv
    exact ⟨cells_nextSlot hp hv, cells_insert hp hv⟩
  | onNew page _ =>
    refine ⟨cells_past (List.getElem?_eq_none ?_), cells_append hb⟩
    exact Nat.le_of_eq (UInt32.toNat_ofNat_of_lt' hb).symm

end

/-! ## Looking -/

section
variable (h : f.Shows sheets) (hb : sheets.length < UInt32.size)
include h hb

theorem lt_pageCount {n : PageNum} :
    n < UInt32.ofNat f.pages.length ↔ n.toNat < sheets.length := by
  rw [UInt32.lt_iff_toNat_lt, toNat_pageCount h hb]

theorem homePage_cases (id : RecordId) :
    (∃ p v, sheets[id.page.toNat]? = some v ∧ Does (homePage id) f p f ∧ p.number = id.page ∧ p.Shows v)
    ∨ cells sheets id = .free ∧ Refuses (homePage id) f (.failed (.recordNotFound id)) := by
  rcases Nat.lt_or_ge id.page.toNat sheets.length with hlt | hge
  · left
    have hv := List.getElem?_eq_getElem hlt
    obtain ⟨p, hopens, hp⟩ := exists_opens h hv
    exact ⟨p, _, hv, does_homePage ((lt_pageCount h hb).mpr hlt) hopens, hopens.number_eq, hp⟩
  · exact .inr ⟨cells_past (List.getElem?_eq_none hge),
      refuses_homePage (mt (lt_pageCount h hb).mp (Nat.not_lt.mpr hge))⟩

theorem homeSlot_cases (id : RecordId) :
    (∃ s bytes, Does (homeSlot id) f s f ∧ s.cell bytes = cells sheets id)
    ∨ cells sheets id = .free ∧ Refuses (homeSlot id) f (.failed (.recordNotFound id)) := by
  rcases homePage_cases h hb id with ⟨p, v, hv, hdoes, hnum, hp⟩ | ⟨hfree, hno⟩
  · cases hs : v.cells[id.slot.toNat]? with
    | none =>
      refine .inr ⟨by rw [cells_eq hv, hs]; rfl, hdoes.bind_fails (refuses_lift ?_)⟩
      rw [hp.slot_missing hs, hnum]
    | some c =>
      obtain ⟨s, hslot, hc⟩ := hp.slot_of_cell hs
      exact .inl ⟨s, p.bytes, hdoes.bind (does_lift hslot), by rw [hc, cells_eq hv, hs]; rfl⟩
  · exact .inr ⟨hfree, hno.bind⟩

theorem does_follow_guest (home : RecordId) {target : RecordId} (ht : cells sheets target = .guest b) :
    ∃ p offset length, Does (follow home target) f (p, offset, length) f ∧ p.body offset length = .ok b := by
  obtain ⟨v, hv, hs⟩ := exists_of_cells ht (by simp)
  obtain ⟨p, hopens, hp⟩ := exists_opens h hv
  obtain ⟨s, hslot, hc⟩ := hp.slot_of_cell hs
  cases s with
  | moved offset length =>
    refine ⟨p, offset, length, does_follow home ?_ hopens hslot, ?_⟩
    · exact (lt_pageCount h hb).mpr (SlottedPage.lt_of_getElem?_eq_some hv)
    · rw [hp.body_eq hslot rfl, ← Cell.guest.inj hc]
  | occupied | deleted | forwarded => simp [Slot.cell] at hc

end

end Heap

end Tablespace
