import Tablespace.Proofs.Heap.Cells

/-!
# Operations on record files

Each operation on a file that keeps a map of packed records does to the map
what its name says, and fails on identifiers that the map does not know.
-/

namespace Tablespace

open Access
open SlottedPage (bodyCell)

/-- The file stores the packed records under their identifiers. -/
def PagedFile.Keeps (f : PagedFile) (records : RecordId → Option Bytes) : Prop :=
  ∃ sheets, f.Shows sheets ∧ (Heap.cells sheets).Keeps records

namespace Heap

variable {f : PagedFile} {sheets : List Sheet} {records : RecordId → Option Bytes} {id target : RecordId}
  {b packed : Bytes} {s : Slot}

theorem keeps_empty : PagedFile.empty.Keeps fun _ => none := by
  refine ⟨[], shows_empty, ?_⟩
  exact Cells.keeps_free

/-! ## Slots of the kinds of cells -/

theorem occupied_of_cell (h : s.cell b = .record packed) : ∃ o l, s = .occupied o l := by
  cases s <;> simp [Slot.cell] at h
  exact ⟨_, _, rfl⟩

theorem moved_of_cell (h : s.cell b = .guest packed) : ∃ o l, s = .moved o l := by
  cases s <;> simp [Slot.cell] at h
  exact ⟨_, _, rfl⟩

theorem deleted_of_cell (h : s.cell b = .free) : ∃ next, s = .deleted next := by
  cases s <;> simp [Slot.cell] at h
  exact ⟨_, rfl⟩

/-! ## Reading -/

section
variable (h : f.Shows sheets) (hb : sheets.length < UInt32.size)
include h hb

theorem does_readMoved (home : RecordId) (ht : cells sheets target = .guest b) :
    Does (readMoved home target) f b f := by
  obtain ⟨p, offset, length, hfollow, hbody⟩ := does_follow_guest h hb home ht
  exact hfollow.bind (does_lift hbody)

theorem does_liveRecord (hc : (cells sheets).Keeps records) {p : SlottedPage} {v : Sheet} {n : PageNum}
    {m : SlotNum} (hv : sheets[n.toNat]? = some v) (hp : p.Shows v) (hn : p.number = n) {c : Cell}
    (hm : v.cells[m.toNat]? = some c) : Does (liveRecord p m) f (records ⟨n, m⟩) f := by
  have hcell : cells sheets ⟨n, m⟩ = c := by rw [cells_eq hv, hm, Option.getD_some]
  obtain ⟨s, hslot, hs⟩ := hp.slot_of_cell hm
  rw [← hc.record]
  refine (does_lift hslot).bind ?_
  cases s with
  | occupied o l =>
    rw [Cells.record?_of_record (hcell.trans hs.symm)]
    exact (does_lift (hp.body_eq hslot rfl)).bind (Does.pure f _)
  | forwarded target =>
    have hptr : cells sheets ⟨n, m⟩ = .pointer target := hcell.trans hs.symm
    obtain ⟨-, g, hg⟩ := hc.hop _ _ hptr
    rw [Cells.record?_of_pointer hptr hg, hn]
    exact (does_readMoved h hb _ hg).bind (Does.pure f _)
  | deleted next =>
    have hnone : (cells sheets).record? ⟨n, m⟩ = none := by
      simp [Cells.record?, hcell, ← hs, Slot.cell]
    rw [hnone]
    exact Does.pure f none
  | moved o l =>
    have hnone : (cells sheets).record? ⟨n, m⟩ = none := by
      simp [Cells.record?, hcell, ← hs, Slot.cell]
    rw [hnone]
    exact Does.pure f none

end

theorem does_readPacked (h : f.Keeps records) (hb : f.pages.length < UInt32.size)
    (hid : records id = some b) : Does (readPacked id) f b f := by
  obtain ⟨sheets, hf, hc⟩ := h
  rw [hf.length_eq] at hb
  have hlive := (hc.home_of_some hid).1
  rcases homePage_cases hf hb id with ⟨p, v, hv, hdoes, hnum, hp⟩ | ⟨hfree, -⟩
  · obtain ⟨w, hw, hm⟩ := exists_of_cells rfl hlive
    rw [hv, Option.some.injEq] at hw
    subst hw
    refine hdoes.bind ((does_liveRecord hf hb hc hv hp hnum hm).bind ?_)
    rw [show records ⟨id.page, id.slot⟩ = some b from hid]
    exact Does.pure f b
  · exact absurd hfree hlive

theorem refuses_readPacked (h : f.Keeps records) (hb : f.pages.length < UInt32.size)
    (hid : records id = none) : Refuses (readPacked id) f (.failed (.recordNotFound id)) := by
  obtain ⟨sheets, hf, hc⟩ := h
  rw [hf.length_eq] at hb
  rcases homePage_cases hf hb id with ⟨p, v, hv, hdoes, hnum, hp⟩ | ⟨-, hno⟩
  · cases hm : v.cells[id.slot.toNat]? with
    | some c =>
      refine hdoes.bind_fails ((does_liveRecord hf hb hc hv hp hnum hm).bind_fails ?_)
      rw [show records ⟨id.page, id.slot⟩ = none from hid]
      exact Fails.throw f _
    | none =>
      refine hdoes.bind_fails (Fails.bind (Fails.bind (refuses_lift ?_)))
      rw [hp.slot_missing hm, hnum]
  · exact hno.bind

/-! ## Home slots -/

section
variable (h : f.Shows sheets) (hb : sheets.length < UInt32.size)
include h hb

theorem does_homeSlot_record (hid : cells sheets id = .record b) :
    ∃ o l, Does (homeSlot id) f (.occupied o l) f := by
  rcases homeSlot_cases h hb id with ⟨s, bytes, hdoes, hs⟩ | ⟨hfree, -⟩
  · obtain ⟨o, l, rfl⟩ := occupied_of_cell (hs.trans hid)
    exact ⟨o, l, hdoes⟩
  · rw [hid] at hfree
    cases hfree

theorem does_homeSlot_pointer (hid : cells sheets id = .pointer target) :
    Does (homeSlot id) f (.forwarded target) f := by
  rcases homeSlot_cases h hb id with ⟨s, bytes, hdoes, hs⟩ | ⟨hfree, -⟩
  · rw [SlottedPage.eq_forwarded (hs.trans hid)] at hdoes
    exact hdoes
  · rw [hid] at hfree
    cases hfree

/-- What continues from a home slot, and rejects those without a record, finds none here. -/
theorem refuses_of_homeSlot {α : Type} {k : Slot → RecordM α} (hc : (cells sheets).Keeps records)
    (hid : records id = none) (hdeleted : ∀ next, k (.deleted next) = throw (.failed (.recordNotFound id)))
    (hmoved : ∀ o l, k (.moved o l) = throw (.failed (.recordNotFound id))) :
    Refuses (homeSlot id >>= k) f (.failed (.recordNotFound id)) := by
  rcases homeSlot_cases h hb id with ⟨s, bytes, hdoes, hs⟩ | ⟨-, hno⟩
  · apply hdoes.bind_fails
    rcases hc.record_eq_none_iff.mp hid with hfree | ⟨g, hguest⟩
    · obtain ⟨next, rfl⟩ := deleted_of_cell (hs.trans hfree)
      rw [hdeleted]
      exact Fails.throw f _
    · obtain ⟨o, l, rfl⟩ := moved_of_cell (hs.trans hguest)
      rw [hmoved]
      exact Fails.throw f _
  · exact hno.bind

/-! ## Deleting -/

theorem does_releaseMoved (home : RecordId) (ht : cells sheets target = .guest b) :
    ∃ f' sheets', Does (releaseMoved home target) f () f' ∧ f'.Shows sheets'
      ∧ sheets'.length = sheets.length ∧ cells sheets' = (cells sheets).set target .free := by
  obtain ⟨p, offset, length, hfollow, -⟩ := does_follow_guest h hb home ht
  obtain ⟨f', sheets', hdoes, hrest⟩ := does_remove h ht (by simp)
  exact ⟨f', sheets', hfollow.bind hdoes, hrest⟩

end

theorem does_delete (h : f.Keeps records) (hb : f.pages.length < UInt32.size)
    (hid : records id = some b) :
    ∃ f', Does (delete id) f () f' ∧ f'.Keeps (Function.update records id none) := by
  obtain ⟨sheets, hf, hc⟩ := h
  rw [hf.length_eq] at hb
  rcases hc.cell_of_some hid with hrec | ⟨target, hptr, hguest⟩
  · obtain ⟨o, l, hslot⟩ := does_homeSlot_record hf hb hrec
    obtain ⟨f', sheets', hdoes, hf', -, hcells⟩ := does_remove hf hrec (by simp)
    refine ⟨f', hslot.bind hdoes, sheets', hf', ?_⟩
    rw [hcells]
    exact hc.put (Cells.own?_of_record hrec) (c := .free) rfl
  · have hslot := does_homeSlot_pointer hf hb hptr
    obtain ⟨f₁, sheets₁, hrel, hf₁, hlen, hcells₁⟩ := does_releaseMoved hf hb id hguest
    have hne : id ≠ target := by
      intro he
      rw [← he, hptr] at hguest
      cases hguest
    have hptr₁ : cells sheets₁ id = .pointer target := by
      rw [hcells₁, Cells.set_of_ne hne, hptr]
    obtain ⟨f', sheets', hdoes, hf', -, hcells⟩ := does_remove hf₁ hptr₁ (by simp)
    refine ⟨f', hslot.bind (hrel.bind hdoes), sheets', hf', ?_⟩
    rw [hcells, hcells₁]
    exact hc.unlink hptr

theorem refuses_delete (h : f.Keeps records) (hb : f.pages.length < UInt32.size)
    (hid : records id = none) : Refuses (delete id) f (.failed (.recordNotFound id)) := by
  obtain ⟨sheets, hf, hc⟩ := h
  rw [hf.length_eq] at hb
  exact refuses_of_homeSlot hf hb hc hid (fun _ => rfl) fun _ _ => rfl

/-! ## Storing -/

theorem does_place_record (h : f.Keeps records) (hb : f.pages.length < UInt32.size)
    (hsize : packed.length ≤ Packed.maxSize) :
    ∃ id f', Does (place packed false) f id f' ∧ records id = none
      ∧ f'.Keeps (Function.update records id (some packed)) := by
  obtain ⟨sheets, hf, hc⟩ := h
  rw [hf.length_eq] at hb
  obtain ⟨id, f', sheets', hdoes, hf', hplaced⟩ := does_place hf false hsize hb
  obtain ⟨hfree, hcells⟩ := hplaced.cells_eq hf hb
  refine ⟨id, f', hdoes, hc.record_eq_none_iff.mpr (.inl hfree), sheets', hf', ?_⟩
  rw [hcells]
  exact hc.put (Cells.own?_of_free hfree) (c := .record packed) rfl

theorem lt_of_cells_ne_free (hid : cells sheets id ≠ .free) : id.page.toNat < sheets.length := by
  obtain ⟨v, hv, -⟩ := exists_of_cells rfl hid
  exact SlottedPage.lt_of_getElem?_eq_some hv

/-- The work succeeds and leaves a file of so many pages with these cells. -/
def Leaves (work : RecordM Unit) (f : PagedFile) (count : Nat) (C : Cells) : Prop :=
  ∃ f' sheets', Does work f () f' ∧ f'.Shows sheets' ∧ sheets'.length = count ∧ cells sheets' = C

theorem Leaves.keeps {work : RecordM Unit} {count : Nat} {C : Cells} (h : Leaves work f count C)
    (hc : C.Keeps records) :
    ∃ f', Does work f () f' ∧ f'.Keeps records := by
  obtain ⟨f', sheets', hdoes, hf', -, rfl⟩ := h
  exact ⟨f', hdoes, sheets', hf', hc⟩

theorem Leaves.after {α : Type} {x : RecordM α} {a : α} {f₁ : PagedFile} {k : α → RecordM Unit} {count : Nat}
    {C : Cells} (hx : Does x f a f₁) (h : Leaves (k a) f₁ count C) : Leaves (x >>= k) f count C := by
  obtain ⟨f', sheets', hdoes, hrest⟩ := h
  exact ⟨f', sheets', hx.bind hdoes, hrest⟩

/-- A home slot is pointed to another place, once its old guest has been found. -/
theorem repoint_cases (hf : f.Shows sheets) (hb : sheets.length ≤ UInt32.size) (hpage : target.page ≠ id.page)
    (hid : cells sheets id = .pointer target) (hg : cells sheets target = .guest b) (third : RecordId) :
    Leaves (releaseMoved id target >>= fun _ => editPage id.page (SlottedPage.forward id.slot third)) f
        sheets.length (((cells sheets).set target .free).set id (.pointer third))
      ∨ f.pages.length = UInt32.size
        ∧ ∃ e, Refuses (releaseMoved id target >>= fun _ => editPage id.page (SlottedPage.forward id.slot third)) f
          (.failed e) := by
  have hne : id ≠ target := (ne_of_apply_ne RecordId.page hpage).symm
  rcases Nat.lt_or_eq_of_le hb with hlt | hlen
  · obtain ⟨f₁, sheets₁, hrelease, hf₁, hlen₁, hcells₁⟩ := does_releaseMoved hf hlt id hg
    have hid₁ : cells sheets₁ id = .pointer target := by rw [hcells₁, Cells.set_of_ne hne, hid]
    obtain ⟨f', sheets', hforward, hf', hlen', hcells'⟩ := does_forward hf₁ hid₁ (.inr ⟨target, rfl⟩) third
    exact .inl ⟨f', sheets', hrelease.bind hforward, hf', hlen'.trans hlen₁, by rw [hcells', hcells₁]⟩
  · -- The page count is a word that has wrapped, so no pointer can be followed any more.
    have hzero : ¬ target.page < UInt32.ofNat f.pages.length := by
      rw [hf.length_eq, hlen, UInt32.lt_iff_toNat_lt]
      exact Nat.not_lt_zero _
    exact .inr ⟨hf.length_eq.trans hlen, _, (refuses_follow id hzero).bind.bind⟩

section
variable (hf : f.Shows sheets) (hb : sheets.length < UInt32.size) (hsize : packed.length ≤ Packed.maxSize)
include hf hb hsize

/-- A record at home stays there if it fits, and else its bytes are placed on another page. -/
theorem updateAtHome_cases (hid : cells sheets id = .record b) :
    packed.length ≤ spaceOn sheets id.page + b.length
      ∧ Leaves (updateAtHome id packed) f sheets.length ((cells sheets).set id (.record packed))
    ∨ spaceOn sheets id.page + b.length < packed.length
      ∧ ∃ target f₁ sheets₁, Does (place packed true) f target f₁ ∧ f₁.Shows sheets₁
        ∧ Placed f sheets true packed target f₁ sheets₁ ∧ target.page ≠ id.page
        ∧ Leaves (updateAtHome id packed) f sheets₁.length
          (((cells sheets).set target (.guest packed)).set id (.pointer target)) := by
  rcases does_resize hf false hid packed with
    ⟨hfit, f', sheets', hdoes, hrest⟩ | ⟨hlt, hdoes, hfull⟩
  · exact .inl ⟨hfit, f', sheets', hdoes.bind (Does.pure f' ()), hrest⟩
  · obtain ⟨target, f₁, sheets₁, hplace, hf₁, hplaced⟩ := does_place hf true hsize hb
    obtain ⟨-, hcells₁⟩ := hplaced.cells_eq hf hb
    have hpage := hplaced.page_ne hb (lt_of_cells_ne_free (by rw [hid]; simp)) hfull
    have hid₁ : cells sheets₁ id = .record b := by
      rw [hcells₁, Cells.set_of_ne (ne_of_apply_ne RecordId.page hpage).symm, hid]
    obtain ⟨f', sheets', hforward, hf', hlen, hcells'⟩ := does_forward hf₁ hid₁ (.inl ⟨b, rfl⟩) target
    refine .inr ⟨hlt, target, f₁, sheets₁, hplace, hf₁, hplaced, hpage, f', sheets',
      hdoes.bind (hplace.bind hforward), hf', hlen, ?_⟩
    rw [hcells', hcells₁]
    rfl

/-- A relocated record stays where it is if it fits, or else goes home if it fits there, or else its
bytes are placed on a third page. The last needs a number for the page. -/
theorem updateMoved_cases (hid : cells sheets id = .pointer target) (hpage : target.page ≠ id.page)
    {g : Bytes} (hg : cells sheets target = .guest g) :
    packed.length ≤ spaceOn sheets target.page + g.length
      ∧ Leaves (updateMoved id target packed) f sheets.length ((cells sheets).set target (.guest packed))
    ∨ packed.length ≤ spaceOn sheets id.page
      ∧ Leaves (updateMoved id target packed) f sheets.length
        (((cells sheets).set id (.record packed)).set target .free)
    ∨ spaceOn sheets target.page + g.length < packed.length ∧ spaceOn sheets id.page < packed.length
      ∧ ∃ third f₁ sheets₁, Does (place packed true) f third f₁ ∧ f₁.Shows sheets₁
        ∧ Placed f sheets true packed third f₁ sheets₁ ∧ third.page ≠ id.page ∧ third.page ≠ target.page
        ∧ (Leaves (updateMoved id target packed) f sheets₁.length
            ((((cells sheets).set third (.guest packed)).set target .free).set id (.pointer third))
          ∨ f₁.pages.length = UInt32.size ∧ ∃ e, Fails (updateMoved id target packed) f (.failed e) f₁) := by
  obtain ⟨_, _, _, hfollow, -⟩ := does_follow_guest hf hb id hg
  rcases does_resize hf true hg packed with
    ⟨hfit, f', sheets', hresize, hrest⟩ | ⟨hlt, hresize, hfull⟩
  · exact .inl ⟨hfit, f', sheets', hfollow.bind (hresize.bind (Does.pure f' ())), hrest⟩
  rcases does_restore hf hid packed with
    ⟨hfit, f₁, sheets₁, hrestore, hf₁, hlen, hcells₁⟩ | ⟨hlt', hrestore, hfull'⟩
  · have hg₁ : cells sheets₁ target = .guest g := by
      rw [hcells₁, Cells.set_of_ne (ne_of_apply_ne RecordId.page hpage), hg]
    obtain ⟨f', sheets', hrelease, hf', hlen', hcells'⟩ := does_releaseMoved hf₁ (hlen ▸ hb) id hg₁
    refine .inr (.inl ⟨hfit, f', sheets', hfollow.bind (hresize.bind (hrestore.bind hrelease)), hf',
      hlen'.trans hlen, ?_⟩)
    rw [hcells', hcells₁]
  · obtain ⟨third, f₁, sheets₁, hplace, hf₁, hplaced⟩ := does_place hf true hsize hb
    obtain ⟨-, hcells₁⟩ := hplaced.cells_eq hf hb
    have hhome := hplaced.page_ne hb (lt_of_cells_ne_free (by rw [hid]; simp)) hfull'
    have hold := hplaced.page_ne hb (lt_of_cells_ne_free (by rw [hg]; simp)) hfull
    have hid₁ : cells sheets₁ id = .pointer target := by
      rw [hcells₁, Cells.set_of_ne (ne_of_apply_ne RecordId.page hhome).symm, hid]
    have hg₁ : cells sheets₁ target = .guest g := by
      rw [hcells₁, Cells.set_of_ne (ne_of_apply_ne RecordId.page hold).symm, hg]
    refine .inr (.inr ⟨hlt, hlt', third, f₁, sheets₁, hplace, hf₁, hplaced, hhome, hold, ?_⟩)
    rcases repoint_cases hf₁ (Nat.le_trans hplaced.length_le hb) hpage hid₁ hg₁ third with hleaves | ⟨hlen, e, hno⟩
    · rw [hcells₁] at hleaves
      exact .inl (.after hfollow (.after hresize (.after hrestore (.after hplace hleaves))))
    · exact .inr ⟨hlen, e,
        hfollow.bind_fails (hresize.bind_fails (hrestore.bind_fails (hplace.bind_fails hno)))⟩

variable (hc : (cells sheets).Keeps records)
include hc

theorem does_updateAtHome (hid : cells sheets id = .record b) :
    ∃ f', Does (updateAtHome id packed) f () f' ∧ f'.Keeps (Function.update records id (some packed)) := by
  rcases updateAtHome_cases hf hb hsize hid with
    ⟨-, hleaves⟩ | ⟨-, target, _, _, -, -, hplaced, hpage, hleaves⟩
  · exact hleaves.keeps (hc.put (Cells.own?_of_record hid) (c := .record packed) rfl)
  · exact hleaves.keeps (hc.relocate hid (hplaced.cells_eq hf hb).1 hpage packed)

/-- An update of a relocated record fails for want of a page number at most. -/
theorem does_or_fails_updateMoved (hid : cells sheets id = .pointer target) :
    (∃ f', Does (updateMoved id target packed) f () f'
      ∧ f'.Keeps (Function.update records id (some packed)))
    ∨ ∃ e f', Fails (updateMoved id target packed) f (.failed e) f' ∧ f'.pages.length = UInt32.size := by
  obtain ⟨hpage, g, hg⟩ := hc.hop _ _ hid
  rcases updateMoved_cases hf hb hsize hid hpage hg with
    ⟨-, hleaves⟩ | ⟨-, hleaves⟩ | ⟨-, -, third, f₁, _, -, -, hplaced, hhome, -, hleaves | ⟨hlen, e, hfails⟩⟩
  · exact .inl (hleaves.keeps (hc.put_guest hid packed))
  · exact .inl (hleaves.keeps (hc.restore hid packed))
  · exact .inl (hleaves.keeps (hc.relocate_again hid (hplaced.cells_eq hf hb).1 hhome packed))
  · exact .inr ⟨e, f₁, hfails, hlen⟩

end

end Heap

end Tablespace
