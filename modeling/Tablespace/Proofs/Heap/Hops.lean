import Mathlib.Algebra.BigOperators.Fin
import Tablespace.Proofs.Heap.Reachable
import Tablespace.Proofs.Record.Grammar

/-!
# Hops and bodies

In the file of a run every forwarded slot leads to a moved slot of another page
and no two of them to the same one, no moved slot is without a forwarded one,
and the bytes below the boundaries of the pages are the live records, each
stored once.
-/

namespace Tablespace

/-- The boundaries of the pages, in the order of the file. -/
def Heap.boundaries (f : PagedFile) : List Nat :=
  f.pages.map fun page => (Trailer.decode (page.bytes.drop Trailer.offset)).boundary.toNat

/-! ## Slots and cells -/

namespace Heap

open SlottedPage (bodySlot bodyCell)

variable {f : PagedFile} {sheets : List Sheet} {id target : RecordId} {v : Sheet}

theorem slotAt_cases (h : f.Shows sheets) (id : RecordId) :
    (∃ s bytes, slotAt f id = some s ∧ s.cell bytes = cells sheets id)
    ∨ slotAt f id = none ∧ cells sheets id = .free := by
  cases hv : sheets[id.page.toNat]? with
  | none =>
    have hpage : f.pages[id.page.toNat]? = none := by
      rw [List.getElem?_eq_none_iff] at hv ⊢
      rw [h.length_eq]
      exact hv
    exact .inr ⟨by simp [slotAt, hpage], cells_past hv⟩
  | some v =>
    obtain ⟨p, hopens, hp⟩ := exists_opens h hv
    cases hs : v.cells[id.slot.toNat]? with
    | none =>
      refine .inr ⟨Option.eq_none_iff_forall_ne_some.mpr fun s hslot => ?_, by rw [cells_eq hv, hs]; rfl⟩
      obtain ⟨q, hq, hok⟩ := slotAt_eq_some_iff.mp hslot
      rw [← hopens.inj hq, hp.slot_missing hs] at hok
      cases hok
    | some c =>
      obtain ⟨s, hok, hc⟩ := hp.slot_of_cell hs
      exact .inl ⟨s, p.bytes, slotAt_eq_some_iff.mpr ⟨p, hopens, hok⟩, by rw [hc, cells_eq hv, hs]; rfl⟩

theorem slotAt_forwarded_iff (h : f.Shows sheets) :
    slotAt f id = some (.forwarded target) ↔ cells sheets id = .pointer target := by
  rcases slotAt_cases h id with ⟨s, bytes, hs, hc⟩ | ⟨hs, hc⟩
  · rw [hs, ← hc, Option.some.injEq]
    constructor
    · intro he
      rw [he]
      rfl
    · exact SlottedPage.eq_forwarded
  · simp [hs, hc]

theorem slotAt_of_body {b : Bytes} (h : f.Shows sheets) (isMoved : Bool)
    (hid : cells sheets id = bodyCell isMoved b) :
    ∃ o l, slotAt f id = some (bodySlot isMoved o l) ∧ l.toNat = b.length := by
  obtain ⟨v, hv, hs⟩ := exists_of_cells hid (by cases isMoved <;> simp [bodyCell])
  obtain ⟨p, hopens, slots, hp, hc⟩ := exists_opens h hv
  obtain ⟨s, hs, hcell⟩ := SlottedPage.getElem?_eq_of_cell hc hs
  obtain ⟨o, l, rfl, hlen⟩ := SlottedPage.eq_bodySlot hcell fun o l hsb =>
    Nat.le_trans (hp.body_le hs hsb) hp.boundary_le
  exact ⟨o, l, slotAt_eq_some_iff.mpr ⟨p, hopens, hp.lists.slot_eq hs⟩, hlen.symm⟩

theorem slotAt_body_iff (h : f.Shows sheets) (isMoved : Bool) :
    (∃ o l, slotAt f id = some (bodySlot isMoved o l)) ↔ ∃ b, cells sheets id = bodyCell isMoved b := by
  constructor
  · intro hslot
    obtain ⟨o, l, hslot⟩ := hslot
    rcases slotAt_cases h id with ⟨s, bytes, hs, hc⟩ | ⟨hs, -⟩
    · rw [hs, Option.some.injEq] at hslot
      rw [← hc, hslot]
      cases isMoved <;> exact ⟨_, rfl⟩
    · rw [hs] at hslot
      cases hslot
  · intro hb
    obtain ⟨b, hb⟩ := hb
    obtain ⟨o, l, hslot, -⟩ := slotAt_of_body h isMoved hb
    exact ⟨o, l, hslot⟩

theorem slotAt_occupied_iff (h : f.Shows sheets) :
    (∃ o l, slotAt f id = some (.occupied o l)) ↔ ∃ b, cells sheets id = .record b := slotAt_body_iff h false

theorem slotAt_moved_iff (h : f.Shows sheets) :
    (∃ o l, slotAt f id = some (.moved o l)) ↔ ∃ b, cells sheets id = .guest b := slotAt_body_iff h true

theorem trailer_of_ofBytes {b : Bytes} {n : PageNum} {p : SlottedPage}
    (h : SlottedPage.ofBytes b n = .ok p) : Trailer.decode (b.drop Trailer.offset) = p.trailer := by
  unfold SlottedPage.ofBytes at h
  cases hc : SlottedPage.checkSize b with
  | error e =>
    rw [hc] at h
    cases h
  | ok u =>
    rw [hc] at h
    simp only [bind, Except.bind] at h
    split at h
    · cases h
    · cases h
      rfl

theorem boundaries_eq (h : f.Shows sheets) : boundaries f = sheets.map Sheet.used := by
  apply List.ext_getElem
  · simp [boundaries, h.length_eq]
  · intro i hi hi'
    simp only [boundaries, List.length_map] at hi hi'
    simp only [boundaries, List.getElem_map]
    obtain ⟨p, hbytes, -, hp⟩ := h.page i _ _ (List.getElem?_eq_getElem hi)
      (List.getElem?_eq_getElem hi')
    rw [← hp.boundary_eq, ← hbytes]
    rw [trailer_of_ofBytes hp.ofBytes_eq]

end Heap

/-! ## Sums over identifiers -/

def Cell.recordSize : Cell → Nat
  | .record b => b.length
  | _ => 0

def Cell.guestSize : Cell → Nat
  | .guest b => b.length
  | _ => 0

namespace Cells

variable {C : Cells} {records : RecordId → Option Bytes}

/-- Where a pointer leads. -/
def aim (id : RecordId) : Cell → RecordId
  | .pointer target => target
  | _ => id

/-- The size of the guest that a pointer leads to. -/
def hopSize (C : Cells) (id : RecordId) : Nat :=
  match C id with
  | .pointer target => (C target).guestSize
  | _ => 0

/-- Pointers and guests belong together one by one. -/
theorem Keeps.sum_hopSize (h : C.Keeps records) (ids : Finset RecordId)
    (hids : ∀ id, C id ≠ .free → id ∈ ids) :
    ∑ id ∈ ids, C.hopSize id = ∑ id ∈ ids, (C id).guestSize := by
  refine Finset.sum_bij_ne_zero (fun id _ _ => aim id (C id)) ?_ ?_ ?_ ?_
  · intro id _ hne
    cases hc : C id with
    | pointer target =>
      obtain ⟨-, b, hb⟩ := h.hop id target hc
      exact hids target (by rw [hb]; simp)
    | _ => simp [hopSize, hc] at hne
  · intro id _ hne id' _ hne' he
    cases hc : C id with
    | pointer target =>
      cases hc' : C id' with
      | pointer target' =>
        simp only [hc, hc', aim] at he
        exact h.unique id id' target hc (he ▸ hc')
      | _ => simp [hopSize, hc'] at hne'
    | _ => simp [hopSize, hc] at hne
  · intro target _ hne
    cases hc : C target with
    | guest b =>
      obtain ⟨id, hid⟩ := h.owned target b hc
      exact ⟨id, hids id (by rw [hid]; simp), by simpa [hopSize, hid] using hne, by simp [hid, aim]⟩
    | _ => simp [Cell.guestSize, hc] at hne
  · intro id _ hne
    cases hc : C id with
    | pointer target => simp [hopSize, hc, aim]
    | _ => simp [hopSize, hc] at hne

theorem Keeps.sum_size (h : C.Keeps records) (ids : Finset RecordId)
    (hids : ∀ id, C id ≠ .free → id ∈ ids) :
    ∑ id ∈ ids, (C id).size = ∑ id ∈ ids, ((records id).getD []).length := by
  have hcell : ∀ id, (C id).size = (C id).recordSize + (C id).guestSize := by
    intro id
    cases C id <;> simp [Cell.size, Cell.recordSize, Cell.guestSize]
  have hrecord : ∀ id, ((records id).getD []).length = (C id).recordSize + C.hopSize id := by
    intro id
    rw [← h.record]
    cases hc : C id with
    | pointer target =>
      obtain ⟨-, b, hb⟩ := h.hop id target hc
      simp [record?_of_pointer hc hb, hopSize, hc, hb, Cell.recordSize, Cell.guestSize]
    | _ => simp [record?, hopSize, hc, Cell.recordSize]
  simp only [hcell, hrecord, Finset.sum_add_distrib]
  rw [h.sum_hopSize ids hids]

end Cells

namespace Heap

variable {f : PagedFile} {sheets : List Sheet}

def allIds (sheets : List Sheet) : Finset RecordId :=
  (Finset.range sheets.length ×ˢ Finset.range UInt16.size).image
    fun i => ⟨UInt32.ofNat i.1, UInt16.ofNat i.2⟩

theorem mem_allIds {id : RecordId} (h : cells sheets id ≠ .free) : id ∈ allIds sheets := by
  refine Finset.mem_image.mpr ⟨(id.page.toNat, id.slot.toNat), ?_, ?_⟩
  · rw [Finset.mem_product, Finset.mem_range, Finset.mem_range]
    exact ⟨lt_of_cells_ne_free h, id.slot.toNat_lt_size⟩
  · simp

theorem sum_getElem?_getD {α : Type} (g : α → Nat) (l : List α) {n : Nat} (hn : l.length ≤ n) :
    ∑ i ∈ Finset.range n, (l[i]?.map g).getD 0 = (l.map g).sum := by
  induction l generalizing n with
  | nil => simp
  | cons x l ih =>
    cases n with
    | zero => simp at hn
    | succ n =>
      rw [Finset.sum_range_succ', List.map_cons, List.sum_cons, Nat.add_comm]
      congr 1
      exact ih (Nat.le_of_succ_le_succ hn)

theorem sum_allIds (h : f.Shows sheets) (hb : sheets.length < UInt32.size) :
    ∑ id ∈ allIds sheets, (cells sheets id).size = (sheets.map Sheet.used).sum := by
  have hinj : Set.InjOn (fun i : Nat × Nat => (⟨UInt32.ofNat i.1, UInt16.ofNat i.2⟩ : RecordId))
      (Finset.range sheets.length ×ˢ Finset.range UInt16.size : Finset (Nat × Nat)) := by
    intro i hi j hj he
    simp only [Finset.coe_product, Finset.coe_range, Set.mem_prod, Set.mem_Iio] at hi hj
    simp only [RecordId.mk.injEq] at he
    have hpage := congrArg UInt32.toNat he.1
    have hslot := congrArg UInt16.toNat he.2
    rw [UInt32.toNat_ofNat_of_lt' (Nat.lt_trans hi.1 hb), UInt32.toNat_ofNat_of_lt' (Nat.lt_trans hj.1 hb)]
      at hpage
    rw [UInt16.toNat_ofNat_of_lt' hi.2, UInt16.toNat_ofNat_of_lt' hj.2] at hslot
    exact Prod.ext hpage hslot
  rw [allIds, Finset.sum_image hinj, Finset.sum_product, ← sum_getElem?_getD Sheet.used sheets (Nat.le_refl _)]
  apply Finset.sum_congr rfl
  intro i hi
  rw [Finset.mem_range] at hi
  have hword : (UInt32.ofNat i).toNat = i := UInt32.toNat_ofNat_of_lt' (Nat.lt_trans hi hb)
  have hv := List.getElem?_eq_getElem hi
  obtain ⟨p, hp⟩ := exists_shows h hv
  rw [hv, Option.map_some, Option.getD_some, Sheet.used,
    ← sum_getElem?_getD Cell.size _ (Nat.le_of_lt hp.length_lt)]
  apply Finset.sum_congr rfl
  intro j hj
  rw [Finset.mem_range] at hj
  have hslot : (UInt16.ofNat j).toNat = j := UInt16.toNat_ofNat_of_lt' hj
  simp only [cells, hword, hslot, hv, Option.bind_some]
  cases sheets[i].cells[j]? <;> rfl

/-! ## Runs -/

theorem PagedFile.Stores.sum_boundaries {L : Ledger} (h : f.Stores L)
    (hb : f.pages.length < UInt32.size) :
    ∃ live : Finset RecordId, (∀ id, id ∈ live ↔ L id ≠ none)
      ∧ (boundaries f).sum = ∑ id ∈ live, ((L.packed id).getD []).length := by
  obtain ⟨sheets, hf, hc⟩ := h.keeps
  refine ⟨(allIds sheets).filter fun id => L id ≠ none, ?_, ?_⟩
  · intro id
    rw [Finset.mem_filter, and_iff_right_iff_imp]
    intro hid
    obtain ⟨b, hpacked⟩ := exists_packed h hid
    apply mem_allIds
    intro hfree
    rw [hc.record_eq_none_iff.mpr (.inl hfree)] at hpacked
    cases hpacked
  · rw [boundaries_eq hf, ← sum_allIds hf (hf.length_eq ▸ hb),
      hc.sum_size (allIds sheets) fun id => mem_allIds, Finset.sum_filter]
    apply Finset.sum_congr rfl
    intro id _
    by_cases hid : L id = none
    · simp [hid, Ledger.packed_of_none hid]
    · rw [if_pos hid]

/-- In the file of a run forwarding is a single hop, moved slots and forwarded slots belong together
one by one, and the bodies are the packed live records. -/
theorem single_hops {k : Nat} {v : Volume} {L : Ledger} (h : Reaches k v L)
    (hf : v.files[k]? = some f) :
    (∀ id target, slotAt f id = some (.forwarded target) →
      target.page ≠ id.page ∧ target.page.toNat < f.pages.length
        ∧ ∃ o l, slotAt f target = some (.moved o l))
    ∧ (∀ target o l, slotAt f target = some (.moved o l) →
      ∃! id, slotAt f id = some (.forwarded target))
    ∧ ∃ live : Finset RecordId, (∀ id, id ∈ live ↔ L id ≠ none) ∧ (∀ id ∈ live, L.packed id ≠ none)
      ∧ (boundaries f).sum = ∑ id ∈ live, ((L.packed id).getD []).length := by
  obtain ⟨g, hg, hb, hs⟩ := h.stores
  rw [hf, Option.some.injEq] at hg
  subst hg
  obtain ⟨live, hlive, hsum⟩ := PagedFile.Stores.sum_boundaries hs hb
  obtain ⟨sheets, hf, hc⟩ := hs.keeps
  refine ⟨?_, ?_, live, hlive, ?_, hsum⟩
  · intro id target hid
    obtain ⟨hpage, b, hb⟩ := hc.hop id target ((slotAt_forwarded_iff hf).mp hid)
    refine ⟨hpage, ?_, (slotAt_moved_iff hf).mpr ⟨b, hb⟩⟩
    rw [hf.length_eq]
    exact lt_of_cells_ne_free (by rw [hb]; simp)
  · intro target o l htarget
    obtain ⟨b, hb⟩ := (slotAt_moved_iff hf).mp ⟨o, l, htarget⟩
    obtain ⟨id, hid⟩ := hc.owned target b hb
    refine ⟨id, (slotAt_forwarded_iff hf).mpr hid, ?_⟩
    intro other hother
    exact hc.unique other id target ((slotAt_forwarded_iff hf).mp hother) hid
  · intro id hid
    obtain ⟨b, hpacked⟩ := exists_packed hs ((hlive id).mp hid)
    rw [hpacked]
    simp

/-- The packed tuple of a text of one byte over and over. -/
def packedText (x : UInt8) (n : Nat) : Bytes := 0 :: LittleEndian.ofNat 2 n ++ List.replicate n x

theorem length_packedText (x : UInt8) (n : Nat) : (packedText x n).length = n + 3 := by
  rw [packedText, List.length_append, List.length_cons, LittleEndian.length_ofNat, List.length_replicate,
    Nat.add_comm]

theorem encode_packedText {n : Nat} (x : UInt8) (hn : n ≤ 4000) :
    Packed.encode [.varchar "a" 4000] (0 :: counted (List.replicate n x)) = .ok (packedText x n) :=
  Tuple.encode_text List.length_replicate hn (by simp only [Packed.maxSize, pageSize]; omega)

/-- A short text grows until it has no room beside a long one. Its slot forwards to another page then,
and below the boundaries are the two texts with their headers. -/
theorem single_hops_relocated : ∃ v L f target o l, Reaches 0 v L ∧ v.files[0]? = some f
    ∧ slotAt f ⟨0, 0⟩ = some (.forwarded target) ∧ target.page ≠ 0 ∧ slotAt f target = some (.moved o l)
    ∧ (∃! id, slotAt f id = some (.forwarded target))
    ∧ (boundaries f).sum = 203 + 3903 := by
  have hshort := encode_packedText 97 (show 4 ≤ 4000 by decide)
  have hlong := encode_packedText 98 (show 3900 ≤ 4000 by decide)
  have hgrown := encode_packedText 99 (show 200 ≤ 4000 by decide)
  obtain ⟨v, hreaches, -, f, sheets, target, hf, hsheets, hid⟩ :=
    exists_reaches_relocated hshort hlong hgrown (by simp only [length_packedText]; decide)
      (by simp only [length_packedText]; decide)
  have hslot := (slotAt_forwarded_iff hsheets).mpr hid
  obtain ⟨hhops, howned, live, hlive, -, hsum⟩ := single_hops hreaches hf
  obtain ⟨hpage, -, o, l, htarget⟩ := hhops _ _ hslot
  refine ⟨v, _, f, target, o, l, hreaches, hf, hslot, hpage, htarget, howned _ _ _ htarget, ?_⟩
  have hpair : live = {⟨0, 0⟩, ⟨0, 1⟩} := by
    ext id
    rw [hlive, Finset.mem_insert, Finset.mem_singleton]
    simp only [Function.update_apply]
    split_ifs with hfirst hsecond
    · exact iff_of_true (Option.some_ne_none _) (.inl hfirst)
    · exact iff_of_true (Option.some_ne_none _) (.inr hsecond)
    · exact iff_of_false (fun hne => hne rfl) (not_or.mpr ⟨hfirst, hsecond⟩)
  rw [hsum, hpair, Finset.sum_pair (by decide), Ledger.packed_eq (Function.update_self ..) hgrown,
    Ledger.packed_eq ((Function.update_of_ne (by decide) _ _).trans (Function.update_self ..)) hlong,
    Option.getD_some, Option.getD_some, length_packedText, length_packedText]

end Heap

end Tablespace
