import Tablespace.Proofs.Page.Stretch

/-!
# Storing a body on a page

A page that shows a sheet takes a body where the sheet has room for it, under
the slot that the sheet names next, and then shows the sheet with that body.
-/

namespace Tablespace

open Bytes (AgreeOff)

namespace SlottedPage

variable {p q : SlottedPage} {slots slots' : List Slot} {free : List SlotNum} {v : Sheet} {n : SlotNum}
  {c : Cell} {s t : Slot} {o l : UInt16}

/-! ## Looking at a cell -/

theorem Shows.slot_of_cell (h : p.Shows v) (hn : v.cells[n.toNat]? = some c) :
    ∃ s, p.slot n = .ok s ∧ s.cell p.bytes = c := by
  obtain ⟨slots, hh, hc⟩ := h
  rw [hc, List.getElem?_map] at hn
  obtain ⟨s, hs, rfl⟩ := Option.map_eq_some_iff.mp hn
  exact ⟨s, hh.lists.slot_eq hs, rfl⟩

theorem Shows.slot_missing (h : p.Shows v) (hn : v.cells[n.toNat]? = none) :
    p.slot n = .error (.recordNotFound ⟨p.number, n⟩) := by
  obtain ⟨slots, hh, hc⟩ := h
  rw [hc, List.getElem?_map, Option.map_eq_none_iff] at hn
  exact hh.lists.slot_missing hn

theorem Shows.body_eq (h : p.Shows v) (hn : p.slot n = .ok s) (hs : s.body? = some (o, l)) :
    p.body o l = .ok ((p.bytes.drop o.toNat).take l.toNat) := by
  obtain ⟨slots, hh, -⟩ := h
  cases hm : slots[n.toNat]? with
  | none => rw [hh.lists.slot_missing hm] at hn; cases hn
  | some s' =>
    rw [hh.lists.slot_eq hm] at hn
    cases hn
    have hle := hh.body_le hm hs
    have hb := hh.boundary_le
    rw [body, if_neg (by omega)]
    simp [Bytes.slice_of_le (show o.toNat + l.toNat ≤ p.bytes.length by omega), inFile, mapError_ok]

/-! ## The last steps of an edit -/

theorem finish (hl : q.Lists slots') (ht : Tiled q.trailer.boundary.toNat slots')
    (hlow : q.trailer.boundary.toNat ≤ directoryStart slots'.length)
    (hf : FreeList slots' q.trailer.freeHead free) :
    ∃ r, storeTrailer q = .ok () r ∧ r.number = q.number
      ∧ r.Shows ⟨slots'.map (Slot.cell q.bytes), free⟩ := by
  obtain ⟨b, hrun, hb, hst, hag⟩ := hl.run_storeTrailer
  refine ⟨_, hrun, rfl, slots', ⟨hb, hst, ht, hlow, hf⟩, ?_⟩
  apply List.map_congr_left
  intro s hs
  obtain ⟨m, hm⟩ := List.mem_iff_getElem?.mp hs
  refine (Slot.cell_of_agree hag fun o l hsb => ?_).symm
  have hin := ht.inside m o l (by rw [bodyAt, hm]; exact hsb)
  have := hl.low_le
  have := hl.size
  have : Trailer.offset + Trailer.size = pageSize := rfl
  omega

theorem map_cell_eq_set {b c : Bytes} {n : Nat} (hlen : slots'.length = slots.length)
    (hn : slots'[n]? = some t)
    (h : ∀ m s, m ≠ n → slots[m]? = some s → ∃ s', slots'[m]? = some s' ∧ s'.cell c = s.cell b) :
    slots'.map (Slot.cell c) = (slots.map (Slot.cell b)).set n (t.cell c) := by
  have hlt := lt_of_getElem?_eq_some hn
  apply List.ext_getElem?
  intro m
  rw [List.getElem?_map]
  by_cases hm : m = n
  · subst hm
    rw [List.getElem?_set_self (by rw [List.length_map]; omega), hn]
    rfl
  · rw [List.getElem?_set_ne (Ne.symm hm), List.getElem?_map]
    cases hs : slots[m]? with
    | none =>
      rw [List.getElem?_eq_none (hlen ▸ List.getElem?_eq_none_iff.mp hs)]
      rfl
    | some s =>
      obtain ⟨s', hs', he⟩ := h m s hm hs
      rw [hs', Option.map_some, Option.map_some, he]

/-! ## Adding a body -/

theorem run_claimSlot_free {next : SlotNum} (hne : n ≠ Trailer.noSlot) (hf : p.trailer.freeHead = n)
    (hn : readSlot n p = .ok (.deleted next) p) :
    claimSlot p = .ok n { p with trailer := { p.trailer with freeHead := next } } := by
  have : p.hasFreeSlot = true := by simp [hasFreeSlot, hf, hne]
  rw [claimSlot, run_get_bind]
  simp only [this, if_true, hf]
  rw [run_bind hn]
  rfl

theorem run_claimSlot_new (hf : p.hasFreeSlot = false)
    (hcount : (p.trailer.slotCount + 1).toNat = p.trailer.slotCount.toNat + 1) :
    claimSlot p = .ok p.trailer.slotCount
      { p with trailer := { p.trailer with slotCount := p.trailer.slotCount + 1 } } := by
  rw [claimSlot, run_get_bind]
  simp only [hf]
  exact run_bind (run_sum hcount p)

theorem toNat_add_of_fit {a b : UInt16} (h : a.toNat + b.toNat ≤ pageSize) :
    (a + b).toNat = a.toNat + b.toNat :=
  toNat_add_of_lt (Nat.lt_of_le_of_lt h (by decide))

theorem Holds.cell_eq (h : p.Holds slots free) {m : Nat} (hm : slots[m]? = some s) {lo hi : Nat} {b c : Bytes}
    (hag : Bytes.AgreeOff lo hi b c) (hlo : p.trailer.boundary.toNat ≤ lo)
    (hb : p.trailer.boundary.toNat ≤ b.length) : s.cell c = s.cell b := by
  apply Slot.cell_of_agree hag
  intro o l hs
  have := h.body_le hm hs
  omega

theorem Holds.run_put_gap (h : p.Holds slots free) {b : Bytes}
    (hfit : p.trailer.boundary.toNat + b.length ≤ directoryStart slots.length) :
    ∃ c, put p.trailer.boundary.toNat b p = .ok () (p.withBytes c) ∧ (p.withBytes c).Lists slots
      ∧ c.slice p.trailer.boundary.toNat b.length = .ok b
      ∧ ∀ (m : Nat) (s : Slot), slots[m]? = some s → s.cell c = s.cell p.bytes := by
  have hlow := h.lists.low_le
  have hsize := h.lists.size
  have hin : p.trailer.boundary.toNat + b.length ≤ p.bytes.length := by omega
  have hag := Bytes.agreeOff_overwrite hin
  refine ⟨_, run_put hin, h.lists.of_agree rfl (Bytes.length_overwrite hin) hag (.inl hfit),
    Bytes.slice_overwrite hin, ?_⟩
  intro m s hm
  exact h.cell_eq hm hag (Nat.le_refl _) h.boundary_le

theorem toNat_ofNat_length {b : Bytes} (h : b.length ≤ pageSize) :
    (UInt16.ofNat b.length).toNat = b.length :=
  toNat_ofNat_of_lt (Nat.lt_of_le_of_lt h (by decide))

def bodySlot (isMoved : Bool) (offset length : UInt16) : Slot :=
  if isMoved then .moved offset length else .occupied offset length

def bodyCell (isMoved : Bool) (b : Bytes) : Cell := if isMoved then .guest b else .record b

@[simp] theorem body?_bodySlot (isMoved : Bool) (o l : UInt16) :
    (bodySlot isMoved o l).body? = some (o, l) := by cases isMoved <;> rfl

theorem cell_bodySlot {b c : Bytes} (isMoved : Bool) (h : c.slice o.toNat l.toNat = .ok b) :
    (bodySlot isMoved o l).cell c = bodyCell isMoved b := by
  obtain ⟨-, hw⟩ := Bytes.slice_eq_ok_iff.mp h
  cases isMoved <;> simp [bodySlot, bodyCell, Slot.cell, hw]

theorem bodyAt_eq_none {m : Nat} (hn : slots[m]? = some s) (hs : s.body? = none) :
    bodyAt slots m = none := by rw [bodyAt, hn]; exact hs

theorem Holds.tiled_set (h : p.Holds slots free) {m : Nat} (hn : slots[m]? = some s)
    (hs : s.body? = none) (ht : t.body? = some (p.trailer.boundary, l)) :
    Tiled (p.trailer.boundary.toNat + l.toNat) (slots.set m t) := by
  have hlt := lt_of_getElem?_eq_some hn
  apply h.tiled.add rfl (fun k => by rw [bodyAt_set hlt, ht])
  have := sum_map_set Slot.bodySize slots m s t hn
  rw [Slot.bodySize_of_none hs, Slot.bodySize_of_body ht, h.tiled.total] at this
  exact this

section
variable {b b₁ : Bytes} (isMoved : Bool)

theorem run_insert_of_claim {t₂ : Trailer} {b₃ : Bytes} {rest : List SlotNum}
    (hcan : p.canHold b.length = true) (hlen : (UInt16.ofNat b.length).toNat = b.length)
    (hsum : (p.trailer.boundary + UInt16.ofNat b.length).toNat = p.trailer.boundary.toNat + b.length)
    (hput : put p.trailer.boundary.toNat b p = .ok () (p.withBytes b₁))
    (hclaim : claimSlot (p.withBytes b₁) = .ok n { p.withBytes b₁ with trailer := t₂ })
    (hset : setSlot n (bodySlot isMoved p.trailer.boundary (UInt16.ofNat b.length))
      { p.withBytes b₁ with trailer := t₂ } = .ok () ⟨b₃, p.number, t₂⟩)
    (hl : SlottedPage.Lists ⟨b₃, p.number, t₂⟩ slots')
    (ht : Tiled (p.trailer.boundary.toNat + b.length) slots')
    (hle : p.trailer.boundary.toNat + b.length ≤ directoryStart slots'.length)
    (hf : FreeList slots' t₂.freeHead rest) :
    ∃ q, insert b isMoved p = .ok n q ∧ q.number = p.number
      ∧ q.Shows ⟨slots'.map (Slot.cell b₃), rest⟩ := by
  have hl' := hl.withTrailer
    (t := { t₂ with boundary := p.trailer.boundary + UInt16.ofNat b.length }) rfl
  obtain ⟨q, hq, hnum, hshow⟩ := finish hl' (hsum ▸ ht) (by rw [hsum]; exact hle) hf
  refine ⟨q, ?_, hnum, hshow⟩
  rw [SlottedPage.insert, run_get_bind]
  simp only [hcan, if_true]
  rw [run_bind hput, run_bind hclaim]
  change ((setSlot n (bodySlot isMoved _ _)) >>= _) _ = _
  rw [run_bind hset, run_bind (run_sum (by rw [hsum, hlen]) _),
    run_bind (show setBoundary _ _ = .ok () _ from rfl), run_bind hq]
  rfl

variable (hh : p.Holds slots free) (hcan : p.canHold b.length = true)
include hh hcan

theorem Holds.run_insert_push (hfree : free = [])
    (hfit : p.trailer.boundary.toNat + b.length + Slot.size ≤ directoryStart slots.length) :
    ∃ q, insert b isMoved p = .ok (UInt16.ofNat slots.length) q ∧ q.number = p.number
      ∧ q.Shows ⟨slots.map (Slot.cell p.bytes) ++ [bodyCell isMoved b], []⟩ := by
  subst hfree
  have hlow := hh.lists.low_le
  have hps : pageSize = 4096 := rfl
  obtain ⟨b₁, hput, hb₁, hread, hcell⟩ := hh.run_put_gap (b := b) (by omega)
  have hlen := toNat_ofNat_length (b := b) (by omega)
  have hsum := toNat_add_of_fit (a := p.trailer.boundary) (b := UInt16.ofNat b.length) (by omega)
  have hbody := body?_bodySlot isMoved p.trailer.boundary (UInt16.ofNat b.length)
  rw [hlen] at hsum
  have hnofree : (p.withBytes b₁).hasFreeSlot = false := by
    have := hh.hasFreeSlot_iff
    change p.hasFreeSlot = false
    simpa using this
  have hcount := hh.lists.count
  have hroom : Trailer.size + Slot.size * (slots.length + 1) ≤ pageSize := by
    simp only [directoryStart, Trailer.offset, Trailer.size, Slot.size, pageSize] at hfit ⊢
    omega
  have hlow' : p.trailer.boundary.toNat + b.length ≤ directoryStart (slots.length + 1) := by
    simp only [directoryStart, Trailer.offset, Trailer.size, Slot.size, pageSize] at hfit ⊢
    omega
  have hsucc : (p.trailer.slotCount + 1).toNat = slots.length + 1 := by
    have := hh.lists.length_le
    rw [UInt16.toNat_add, hcount]
    have : (1 : UInt16).toNat = 1 := rfl
    omega
  obtain ⟨b₃, hset, hb₃, hag⟩ := hb₁.run_setSlot_push
    (q := { p.withBytes b₁ with trailer := { p.trailer with slotCount := p.trailer.slotCount + 1 } })
    rfl hsucc hroom hcount (bodySlot isMoved p.trailer.boundary (UInt16.ofNat b.length))
  have htiled : Tiled (p.trailer.boundary.toNat + (UInt16.ofNat b.length).toNat)
      (slots ++ [bodySlot isMoved p.trailer.boundary (UInt16.ofNat b.length)]) :=
    hh.tiled.add rfl (fun k => by rw [bodyAt_push, hbody])
      (by simp [hh.tiled.total, Slot.bodySize_of_body hbody])
  have hlist : FreeList (slots ++ [bodySlot isMoved p.trailer.boundary (UInt16.ofNat b.length)])
      p.trailer.freeHead [] := by
    refine ⟨hh.freeList.chain, List.nodup_nil, fun n next hn => ?_⟩
    rcases Nat.lt_or_ge n.toNat slots.length with hlt | hge
    · rw [List.getElem?_append_left hlt] at hn
      exact hh.freeList.complete n next hn
    · rw [List.getElem?_append_right hge] at hn
      have := List.mem_singleton.mp (List.mem_of_getElem? hn)
      rw [← this] at hbody
      cases hbody
  have hcells : slots.map (Slot.cell b₃) = slots.map (Slot.cell p.bytes) := by
    apply List.map_congr_left
    intro s hs
    obtain ⟨m, hm⟩ := List.mem_iff_getElem?.mp hs
    have hsize : b₁.length = pageSize := hb₁.size
    rw [← hcell m s hm]
    exact hh.cell_eq (b := b₁) hm hag (by omega) (by omega)
  rw [hlen] at htiled
  obtain ⟨q, hq, hnum, hshow⟩ := run_insert_of_claim isMoved hcan hlen hsum hput
    (run_claimSlot_new hnofree (hcount ▸ hsucc)) hset hb₃ htiled (by simpa using hlow') hlist
  refine ⟨q, ?_, hnum, ?_⟩
  · rw [← hcount, UInt16.ofNat_toNat]
    exact hq
  · have hnew := cell_bodySlot (b := b) isMoved (show b₃.slice p.trailer.boundary.toNat
        (UInt16.ofNat b.length).toNat = .ok b by
      rw [hag _ _ (.inl (by omega)), hlen]
      exact hread)
    rwa [List.map_append, List.map_singleton, hcells, hnew] at hshow

theorem Holds.run_insert_reuse {rest : List SlotNum} (hfree : free = n :: rest)
    (hfit : p.trailer.boundary.toNat + b.length ≤ directoryStart slots.length) :
    ∃ q, insert b isMoved p = .ok n q ∧ q.number = p.number
      ∧ q.Shows ⟨(slots.map (Slot.cell p.bytes)).set n.toNat (bodyCell isMoved b), rest⟩ := by
  subst hfree
  have hlow := hh.lists.low_le
  have hps : pageSize = 4096 := rfl
  obtain ⟨b₁, hput, hb₁, hread, hcell⟩ := hh.run_put_gap (b := b) (by omega)
  have hlen := toNat_ofNat_length (b := b) (by omega)
  have hsum := toNat_add_of_fit (a := p.trailer.boundary) (b := UInt16.ofNat b.length) (by omega)
  have hbody := body?_bodySlot isMoved p.trailer.boundary (UInt16.ofNat b.length)
  rw [hlen] at hsum
  obtain ⟨next, hnext⟩ := hh.freeList.chain.deleted n (List.mem_cons_self ..)
  have hlt := lt_of_getElem?_eq_some hnext
  obtain ⟨next', hnext', hlist⟩ := hh.freeList.claim
    (sameDeleted_set n.toNat (bodySlot isMoved p.trailer.boundary (UInt16.ofNat b.length)))
    (by
      intro next he
      rw [List.getElem?_set_self hlt, Option.some.injEq] at he
      rw [he] at hbody
      cases hbody)
  rw [hnext] at hnext'
  cases hnext'
  have hclaim := run_claimSlot_free (p := p.withBytes b₁) (hh.ne_noSlot (List.mem_cons_self ..))
    hh.freeList.chain.1 (hb₁.run_readSlot hnext)
  have hl₂ := hb₁.withTrailer (t := { p.trailer with freeHead := next }) rfl
  obtain ⟨b₃, hset, hb₃, hag⟩ := hl₂.run_setSlot hlt
    (bodySlot isMoved p.trailer.boundary (UInt16.ofNat b.length))
  have htiled := hh.tiled_set hnext rfl hbody
  rw [hlen] at htiled
  obtain ⟨q, hq, hnum, hshow⟩ := run_insert_of_claim isMoved hcan hlen hsum hput hclaim hset hb₃ htiled
    (by simpa using hfit) hlist
  refine ⟨q, hq, hnum, ?_⟩
  have hnew := cell_bodySlot (b := b) isMoved (show b₃.slice p.trailer.boundary.toNat
      (UInt16.ofNat b.length).toNat = .ok b by
    rw [hag _ _ (.inl (by omega)), hlen]
    exact hread)
  rw [← hnew, ← map_cell_eq_set (List.length_set ..) (List.getElem?_set_self hlt)]
  · exact hshow
  · intro m s hm hs
    refine ⟨s, by rw [List.getElem?_set_ne (Ne.symm hm)]; exact hs, ?_⟩
    have hsize : b₁.length = pageSize := hb₁.size
    rw [← hcell m s hs]
    exact hh.cell_eq (b := b₁) hs hag (by omega) (by omega)

end

theorem Shows.run_insert (h : p.Shows v) {b : Bytes} (hfit : v.CanHold b.length) (isMoved : Bool) :
    ∃ q, insert b isMoved p = .ok v.nextSlot q ∧ q.number = p.number
      ∧ q.Shows (v.insert (bodyCell isMoved b)) := by
  obtain ⟨slots, hh, hc⟩ := h
  have hspace := hh.space_eq hc
  have hlow := hh.lists.low_le
  have hcan : p.canHold b.length = true := by
    refine (hh.canHold_iff hc ?_).mpr hfit
    have := Nat.le_trans (Nat.le_add_right _ _) hfit
    have : Slot.size + pageSize < UInt64.size := by decide
    omega
  have hfit : b.length + (if v.free = [] then Slot.size else 0) ≤ v.space := hfit
  cases hfree : v.free with
  | nil =>
    rw [hfree, if_pos rfl] at hfit
    obtain ⟨q, hq⟩ := hh.run_insert_push isMoved hcan hfree (by omega)
    refine ⟨q, ?_⟩
    rw [Sheet.nextSlot, Sheet.insert, hfree, hc, List.length_map]
    exact hq
  | cons n rest =>
    rw [hfree, if_neg (List.cons_ne_nil _ _)] at hfit
    obtain ⟨q, hq⟩ := hh.run_insert_reuse isMoved hcan hfree (by omega)
    refine ⟨q, ?_⟩
    rw [Sheet.nextSlot, Sheet.insert, hfree, hc]
    exact hq

end SlottedPage

end Tablespace
