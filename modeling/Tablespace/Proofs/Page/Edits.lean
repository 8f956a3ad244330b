import Tablespace.Proofs.Page.Insert

/-!
# Edits of a page

Removing, resizing, forwarding and restoring a cell of a page that shows a
sheet. Each edit changes the one cell; an edit that finds no room says so and
leaves the page as it was.
-/

namespace Tablespace

open Bytes (AgreeOff)

namespace SlottedPage

variable {p q : SlottedPage} {slots slots' : List Slot} {free : List SlotNum} {v : Sheet} {n : SlotNum}
  {c : Cell} {s t : Slot} {o l : UInt16}

theorem bodyAt_of_slot {m : Nat} (hn : slots[m]? = some s) (hs : s.body? = some (o, l)) :
    bodyAt slots m = some (o, l) := by rw [bodyAt, hn]; exact hs

theorem getElem?_shiftOthers_set {m k : Nat} (limit length newLength : UInt16) (hm : m ≠ k)
    (hs : slots[m]? = some s) :
    ((shiftOthers k limit length newLength slots).set k t)[m]?
      = some (s.shift limit length newLength) := by
  rw [List.getElem?_set_ne (Ne.symm hm), shiftOthers, List.getElem?_mapIdx, hs]
  simp [hm]

/-! ## Giving up a body -/

/-- What `compact` leaves: the boundary without the body, and the bytes behind it moved down. -/
theorem Lists.run_compact (h : p.Lists slots)
    (hlow : p.trailer.boundary.toNat ≤ directoryStart slots.length) (n : SlotNum)
    (hin : o.toNat + l.toNat ≤ p.trailer.boundary.toNat) :
    ∃ b, compact n o l p
        = .ok () ⟨b, p.number, { p.trailer with boundary := p.trailer.boundary - l }⟩
      ∧ SlottedPage.Lists ⟨b, p.number, { p.trailer with boundary := p.trailer.boundary - l }⟩
        (shiftOthers n.toNat (o + l) l 0 slots)
      ∧ (p.trailer.boundary - l).toNat = p.trailer.boundary.toNat - l.toNat
      ∧ (∀ i k, i + k ≤ o.toNat → b.slice i k = p.bytes.slice i k)
      ∧ ∀ i k, o.toNat + l.toNat ≤ i → i + k ≤ p.trailer.boundary.toNat →
        b.slice (i - l.toNat) k = p.bytes.slice i k := by
  have hzero : (0 : UInt16).toNat = 0 := rfl
  obtain ⟨b, hrun, hb, hfront, hbehind⟩ := h.run_stretch hlow 0 n hin (by omega)
  have hle : l ≤ p.trailer.boundary := UInt16.le_iff_toNat_le.mpr (by omega)
  refine ⟨b, ?_, hb.withTrailer rfl, UInt16.toNat_sub_of_le _ _ hle, hfront, hbehind⟩
  rw [compact, run_bind hrun, run_get_bind]
  exact run_bind (run_difference hle (p.withBytes b))

theorem Holds.run_compact (h : p.Holds slots free) (hn : bodyAt slots n.toNat = some (o, l)) :
    ∃ b, compact n o l p
        = .ok () ⟨b, p.number, { p.trailer with boundary := p.trailer.boundary - l }⟩
      ∧ SlottedPage.Lists ⟨b, p.number, { p.trailer with boundary := p.trailer.boundary - l }⟩
        (shiftOthers n.toNat (o + l) l 0 slots)
      ∧ (p.trailer.boundary - l).toNat = p.trailer.boundary.toNat - l.toNat
      ∧ ∀ m s, m ≠ n.toNat → slots[m]? = some s → (s.shift (o + l) l 0).cell b = s.cell p.bytes := by
  have hlow := h.low
  have hzero : (0 : UInt16).toNat = 0 := rfl
  obtain ⟨b, hrun, hb, hsub, hfront, hbehind⟩ :=
    h.lists.run_compact h.low n (h.tiled.inside _ o l hn)
  exact ⟨b, hrun, hb, hsub, fun m s hm hs => h.cell_shift 0 hn (by omega) hfront hbehind hm hs⟩

theorem Holds.run_vacate (h : p.Holds slots free) (hn : slots[n.toNat]? = some s)
    (hs : s.body? = some (o, l)) (ht : t.body? = none) :
    ∃ b b', compact n o l p
        = .ok () ⟨b, p.number, { p.trailer with boundary := p.trailer.boundary - l }⟩
      ∧ setSlot n t ⟨b, p.number, { p.trailer with boundary := p.trailer.boundary - l }⟩
        = .ok () ⟨b', p.number, { p.trailer with boundary := p.trailer.boundary - l }⟩
      ∧ SlottedPage.Lists ⟨b', p.number, { p.trailer with boundary := p.trailer.boundary - l }⟩
        ((shiftOthers n.toNat (o + l) l 0 slots).set n.toNat t)
      ∧ Tiled (p.trailer.boundary - l).toNat ((shiftOthers n.toNat (o + l) l 0 slots).set n.toNat t)
      ∧ (p.trailer.boundary - l).toNat ≤ directoryStart slots.length
      ∧ ((shiftOthers n.toNat (o + l) l 0 slots).set n.toNat t).map (Slot.cell b')
        = (slots.map (Slot.cell p.bytes)).set n.toNat (t.cell b') := by
  have hbody := bodyAt_of_slot hn hs
  have hlt := lt_of_getElem?_eq_some hn
  have hlen : n.toNat < (shiftOthers n.toNat (o + l) l 0 slots).length := by
    rw [length_shiftOthers]; exact hlt
  obtain ⟨b, hrun, hb, hsub, hcell⟩ := h.run_compact hbody
  obtain ⟨b', hset, hb', hag⟩ := hb.run_setSlot hlen t
  have hbound := h.boundary_lt
  have hsize : t.bodySize = 0 := Slot.bodySize_of_none ht
  have htiled := h.tiled.stretch hbody 0 (t := t)
    (by rw [hsize]; exact Nat.lt_of_le_of_lt hbound (by decide)) (by rw [hsize]; rfl)
    (by intro a k hak; rw [ht] at hak; cases hak)
  have hlow := h.low
  rw [hsize, Nat.add_zero, ← hsub] at htiled
  refine ⟨b, b', hrun, hset, hb', htiled, by omega, ?_⟩
  refine map_cell_eq_set (by rw [List.length_set, length_shiftOthers]) (List.getElem?_set_self hlen) ?_
  intro m u hm hu
  have hset' := getElem?_shiftOthers_set (t := t) (o + l) l 0 hm hu
  refine ⟨_, hset', ?_⟩
  rw [← hcell m u hm hu]
  apply Slot.cell_of_agree hag
  intro a k hak
  have hle := htiled.inside m a k (bodyAt_of_slot hset' hak)
  have hall := h.lists.low_le
  have hbs : b.length = pageSize := hb.size
  rw [length_shiftOthers]
  change (_ ∨ _) ∧ _ ≤ b.length
  omega

theorem Holds.run_exchange (h : p.Holds slots free) (hn : slots[n.toNat]? = some s)
    (hs : s.body? = none) (ht : t.body? = none) :
    ∃ b, setSlot n t p = .ok () (p.withBytes b)
      ∧ (p.withBytes b).Lists (slots.set n.toNat t)
      ∧ Tiled p.trailer.boundary.toNat (slots.set n.toNat t)
      ∧ (slots.set n.toNat t).map (Slot.cell b)
        = (slots.map (Slot.cell p.bytes)).set n.toNat (t.cell b) := by
  have hlt := lt_of_getElem?_eq_some hn
  obtain ⟨b, hset, hb, hag⟩ := h.lists.run_setSlot hlt t
  have htiled : Tiled p.trailer.boundary.toNat (slots.set n.toNat t) := by
    refine h.tiled.congr (fun m => ?_) ?_
    · rw [bodyAt_set hlt, ht]
      split
      · rw [‹m = n.toNat›, bodyAt_eq_none hn hs]
      · rfl
    · have := sum_map_set Slot.bodySize slots n.toNat s t hn
      rw [Slot.bodySize_of_none hs, Slot.bodySize_of_none ht] at this
      exact this
  refine ⟨b, hset, hb, htiled, ?_⟩
  refine map_cell_eq_set (List.length_set ..) (List.getElem?_set_self hlt) ?_
  intro m u hm hu
  refine ⟨u, by rw [List.getElem?_set_ne (Ne.symm hm)]; exact hu, ?_⟩
  exact h.cell_eq hu hag (by have := h.low; omega) h.boundary_le

theorem getElem?_eq_of_cell (hc : v.cells = slots.map (Slot.cell p.bytes))
    (hn : v.cells[n.toNat]? = some c) : ∃ s, slots[n.toNat]? = some s ∧ s.cell p.bytes = c := by
  rw [hc, List.getElem?_map] at hn
  exact Option.map_eq_some_iff.mp hn

/-- The steps of a removal that gives up a body. -/
theorem run_remove_of_compact {p₁ p₂ : SlottedPage} (hn : p.slot n = .ok s) (hs : s.body? = some (o, l))
    (hcompact : compact n o l p = .ok () p₁)
    (hset : setSlot n (.deleted p₁.trailer.freeHead) p₁ = .ok () p₂)
    (hstore : storeTrailer { p₂ with trailer.freeHead := n } = .ok () q) : remove n p = .ok () q := by
  have htail : (do
      compact n o l
      setSlot n (.deleted (← get).trailer.freeHead)
      modify fun p => { p with trailer.freeHead := n }
      storeTrailer : PageM Unit) p = .ok () q := by
    rw [run_bind hcompact, run_get_bind, run_bind hset]
    exact (run_bind rfl).trans hstore
  rw [remove, run_bind (run_readSlot hn)]
  cases s with
  | occupied a k => cases hs; exact htail
  | moved a k => cases hs; exact htail
  | forwarded | deleted => cases hs

theorem Shows.run_remove (h : p.Shows v) (hn : v.cells[n.toNat]? = some c) (hne : c ≠ .free) :
    ∃ q, remove n p = .ok () q ∧ q.number = p.number ∧ q.Shows (v.release n) := by
  obtain ⟨slots, hh, hc⟩ := h
  obtain ⟨s, hs, rfl⟩ := getElem?_eq_of_cell hc hn
  have hlt := lt_of_getElem?_eq_some hs
  have hread := hh.lists.run_readSlot hs
  have hold : ∀ next, slots[n.toNat]? ≠ some (.deleted next) := by
    intro next hd
    rw [hs, Option.some.injEq] at hd
    exact hne (by rw [hd]; rfl)
  have hbodied : ∀ o l, s.body? = some (o, l) →
      ∃ q, remove n p = .ok () q ∧ q.number = p.number ∧ q.Shows (v.release n) := by
    intro o l hsb
    obtain ⟨b, b', hrun, hset, hb', htiled, hlow, hcells⟩ :=
      hh.run_vacate hs hsb (t := .deleted p.trailer.freeHead) rfl
    have hl := hb'.withTrailer
      (t := { p.trailer with freeHead := n, boundary := p.trailer.boundary - l }) rfl
    obtain ⟨q, hq, hnum, hshow⟩ := finish hl htiled (by simpa [length_shiftOthers] using hlow)
      (hh.freeList.release (sameDeleted_shiftOthers_set _ _ _ _ _) hold
        (List.getElem?_set_self (by rw [length_shiftOthers]; exact hlt)))
    refine ⟨q, run_remove_of_compact (hh.lists.slot_eq hs) hsb hrun hset hq, hnum, ?_⟩
    rw [hcells, ← hc] at hshow
    exact hshow
  cases s with
  | occupied o l => exact hbodied o l rfl
  | moved o l => exact hbodied o l rfl
  | forwarded target =>
    obtain ⟨b, hset, hb, htiled, hcells⟩ :=
      hh.run_exchange hs rfl (t := .deleted p.trailer.freeHead) rfl
    have hl := hb.withTrailer (t := { p.trailer with freeHead := n }) rfl
    obtain ⟨q, hq, hnum, hshow⟩ := finish hl htiled (by simpa using hh.low)
      (hh.freeList.release (sameDeleted_set _ _) hold (List.getElem?_set_self hlt))
    refine ⟨q, ?_, hnum, ?_⟩
    · rw [remove, run_bind hread]
      simp only [run_get_bind]
      rw [run_bind hset]
      exact (run_bind rfl).trans hq
    · change q.Shows ⟨(slots.set n.toNat (.deleted p.trailer.freeHead)).map (Slot.cell b), n :: v.free⟩
        at hshow
      rw [hcells, ← hc] at hshow
      exact hshow
  | deleted next => exact absurd hs (hold next)

theorem Shows.run_forward (h : p.Shows v) (hn : v.cells[n.toNat]? = some c)
    (hc' : (∃ b, c = .record b) ∨ ∃ t, c = .pointer t) (target : RecordId) :
    ∃ q, forward n target p = .ok () q ∧ q.number = p.number ∧ q.Shows (v.put n (.pointer target)) := by
  obtain ⟨slots, hh, hc⟩ := h
  obtain ⟨s, hs, rfl⟩ := getElem?_eq_of_cell hc hn
  have hlt := lt_of_getElem?_eq_some hs
  have hread := hh.lists.run_readSlot hs
  cases s with
  | occupied o l =>
    obtain ⟨b, b', hrun, hset, hb', htiled, hlow, hcells⟩ :=
      hh.run_vacate hs rfl (t := .forwarded target) rfl
    have hlen : n.toNat < (shiftOthers n.toNat (o + l) l 0 slots).length := by
      rw [length_shiftOthers]; exact hlt
    obtain ⟨q, hq, hnum, hshow⟩ := finish hb' htiled (by simpa [length_shiftOthers] using hlow)
      (hh.freeList.congr (sameDeleted_shiftOthers_set n.toNat (o + l) l 0 (.forwarded target))
        (by simp [hs]) (by simp [List.getElem?_set_self hlen]))
    refine ⟨q, ?_, hnum, ?_⟩
    · rw [forward, run_bind hread]
      exact (run_bind hrun).trans ((run_bind hset).trans hq)
    · rw [hcells, ← hc] at hshow
      exact hshow
  | forwarded old =>
    obtain ⟨b, hset, hb, htiled, hcells⟩ := hh.run_exchange hs rfl (t := .forwarded target) rfl
    obtain ⟨q, hq, hnum, hshow⟩ := finish hb htiled (by simpa using hh.low)
      (hh.freeList.congr (sameDeleted_set n.toNat (.forwarded target)) (by simp [hs])
        (by simp [List.getElem?_set_self hlt]))
    refine ⟨q, ?_, hnum, ?_⟩
    · rw [forward, run_bind hread]
      exact (run_bind hset).trans hq
    · change q.Shows ⟨(slots.set n.toNat (.forwarded target)).map (Slot.cell b), v.free⟩ at hshow
      rw [hcells, ← hc] at hshow
      exact hshow
  | moved o l => rcases hc' with ⟨_, he⟩ | ⟨_, he⟩ <;> cases he
  | deleted next => rcases hc' with ⟨_, he⟩ | ⟨_, he⟩ <;> cases he

/-! ## Another body -/

theorem eq_bodySlot {b old : Bytes} {isMoved : Bool} (h : s.cell b = bodyCell isMoved old)
    (hle : ∀ o l, s.body? = some (o, l) → o.toNat + l.toNat ≤ b.length) :
    ∃ o l, s = bodySlot isMoved o l ∧ old.length = l.toNat := by
  have window : ∀ o l, s.body? = some (o, l) → (b.drop o.toNat).take l.toNat = old →
      old.length = l.toNat := fun o l hs he => by rw [← he]; exact length_window (hle o l hs)
  cases isMoved <;> cases s <;> simp only [Slot.cell, bodyCell, Bool.false_eq_true, if_true, if_false,
    Cell.record.injEq, Cell.guest.injEq, reduceCtorEq] at h
  · exact ⟨_, _, rfl, window _ _ rfl h⟩
  · exact ⟨_, _, rfl, window _ _ rfl h⟩

theorem withBody_bodySlot (isMoved : Bool) (a k : UInt16) :
    (bodySlot isMoved o l).withBody a k = bodySlot isMoved a k := by cases isMoved <;> rfl

theorem Holds.toNat_space_add (h : p.Holds slots free) (hc : v.cells = slots.map (Slot.cell p.bytes))
    (l : UInt16) : (p.freeSpace + l.toUInt64).toNat = v.space + l.toNat := by
  have hs := h.freeSpace_eq hc
  have := h.space_eq hc
  have := h.lists.low_le
  have := l.toNat_lt
  have hps : pageSize = 4096 := rfl
  rw [UInt64.toNat_add, hs, UInt16.toNat_toUInt64]
  omega

theorem run_resize_full (hn : p.slot n = .ok s) (hs : s.body? = some (o, l)) {b : Bytes}
    (hfull : (p.freeSpace + l.toUInt64).toNat < b.length) : resize n b p = .ok false p := by
  rw [resize, run_bind (run_readSlot hn)]
  simp only [hs]
  rw [run_get_bind, if_pos hfull]
  rfl

theorem Shows.run_resize_full (h : p.Shows v) {b old : Bytes} {isMoved : Bool}
    (hn : v.cells[n.toNat]? = some (bodyCell isMoved old)) (hfull : v.space + old.length < b.length) :
    resize n b p = .ok false p := by
  obtain ⟨slots, hh, hc⟩ := h
  obtain ⟨s, hs, hcell⟩ := getElem?_eq_of_cell hc hn
  obtain ⟨o, l, rfl, hl⟩ := eq_bodySlot hcell fun o l hsb =>
    Nat.le_trans (hh.body_le hs hsb) hh.boundary_le
  exact SlottedPage.run_resize_full (hh.lists.slot_eq hs) (body?_bodySlot ..)
    (by rw [hh.toNat_space_add hc]; omega)

/-- A body gets other bytes where it lies, and the bodies behind it make room. -/
theorem Holds.run_overwrite (h : p.Holds slots free) {b : Bytes} {isMoved : Bool}
    (hn : slots[n.toNat]? = some (bodySlot isMoved o l))
    (hfit : p.trailer.boundary.toNat + b.length ≤ directoryStart slots.length + l.toNat) :
    ∃ b₁ b₂ b₃, stretch n o l (UInt16.ofNat b.length) p = .ok () (p.withBytes b₁)
      ∧ put o.toNat b (p.withBytes b₁) = .ok () (p.withBytes b₂)
      ∧ setSlot n (bodySlot isMoved o (UInt16.ofNat b.length)) (p.withBytes b₂) = .ok () (p.withBytes b₃)
      ∧ ∃ slots', (p.withBytes b₃).Lists slots' ∧ slots'.length = slots.length
        ∧ Tiled (p.trailer.boundary.toNat + b.length - l.toNat) slots'
        ∧ FreeList slots' p.trailer.freeHead free
        ∧ slots'.map (Slot.cell b₃)
          = (slots.map (Slot.cell p.bytes)).set n.toNat (bodyCell isMoved b) := by
  have hbody := bodyAt_of_slot hn (body?_bodySlot isMoved o l)
  have hlt := lt_of_getElem?_eq_some hn
  have hin := h.tiled.inside n.toNat o l hbody
  have hlow := h.low
  have hall := h.lists.low_le
  have hps : pageSize = 4096 := rfl
  have hsz : UInt16.size = 65536 := rfl
  have hlenb := toNat_ofNat_length (b := b) (by omega)
  obtain ⟨b₁, hstretch, hb₁, hcell⟩ := h.run_stretch (UInt16.ofNat b.length) hbody (by omega)
  have hlen : n.toNat < (shiftOthers n.toNat (o + l) l (UInt16.ofNat b.length) slots).length := by
    rw [length_shiftOthers]; exact hlt
  have hput : o.toNat + b.length ≤ (p.withBytes b₁).bytes.length := by
    rw [hb₁.size]; omega
  have hag := Bytes.agreeOff_overwrite hput
  have hb₂ := hb₁.of_agree (q := p.withBytes (b₁.overwrite o.toNat b)) rfl
    (Bytes.length_overwrite hput) hag (.inl (by rw [length_shiftOthers]; omega))
  obtain ⟨b₃, hset, hb₃, hag₃⟩ := hb₂.run_setSlot hlen (bodySlot isMoved o (UInt16.ofNat b.length))
  have htsize : (bodySlot isMoved o (UInt16.ofNat b.length)).bodySize = b.length := by
    rw [Slot.bodySize_of_body (body?_bodySlot ..), hlenb]
  have htiled := h.tiled.stretch hbody (UInt16.ofNat b.length)
    (t := bodySlot isMoved o (UInt16.ofNat b.length)) (by rw [htsize]; omega) (by rw [hlenb, htsize])
    (by intro a k hak; rw [body?_bodySlot, Option.some.injEq, Prod.mk.injEq] at hak; exact hak.1.symm)
  rw [htsize] at htiled
  have hown := List.getElem?_set_self (a := bodySlot isMoved o (UInt16.ofNat b.length)) hlen
  rw [length_shiftOthers] at hag₃
  refine ⟨b₁, _, b₃, hstretch, run_put hput, hset, _, hb₃, by rw [List.length_set, length_shiftOthers],
    htiled, h.freeList.congr (sameDeleted_shiftOthers_set _ _ _ _ _) ?_ ?_, ?_⟩
  · intro next hd
    rw [hn] at hd
    cases isMoved <;> cases hd
  · intro next hd
    rw [hown] at hd
    cases isMoved <;> cases hd
  · rw [← cell_bodySlot (c := b₃) (o := o) (l := UInt16.ofNat b.length) (b := b) isMoved (by
      rw [hlenb, hag₃ _ _ (.inl (by omega))]
      exact Bytes.slice_overwrite hput)]
    apply map_cell_eq_set (by rw [List.length_set, length_shiftOthers]) hown
    intro m u hm hu
    have hset' := getElem?_shiftOthers_set (t := bodySlot isMoved o (UInt16.ofNat b.length))
      (o + l) l (UInt16.ofNat b.length) hm hu
    refine ⟨_, hset', ?_⟩
    rw [← hcell m u hm hu]
    have hb₂size : (b₁.overwrite o.toNat b).length = pageSize := hb₂.size
    have hb₁size : b₁.length = pageSize := hb₁.size
    have hplace : ∀ a k, (u.shift (o + l) l (UInt16.ofNat b.length)).body? = some (a, k) →
        a.toNat + k.toNat ≤ directoryStart slots.length
          ∧ (a.toNat + k.toNat ≤ o.toNat ∨ o.toNat + b.length ≤ a.toNat) := by
      intro a k hak
      have hat := bodyAt_of_slot hset' hak
      have hap := htiled.apart m n.toNat a k o _ hm hat (bodyAt_of_slot hown (body?_bodySlot ..))
      have := htiled.inside m a k hat
      omega
    have h₃ : (u.shift (o + l) l (UInt16.ofNat b.length)).cell b₃
        = (u.shift (o + l) l (UInt16.ofNat b.length)).cell (b₁.overwrite o.toNat b) :=
      Slot.cell_of_agree hag₃ fun a k hak => by
        have := hplace a k hak
        change (_ ∨ _) ∧ _ ≤ (b₁.overwrite o.toNat b).length
        omega
    rw [h₃]
    apply Slot.cell_of_agree hag
    intro a k hak
    have := hplace a k hak
    change (_ ∨ _) ∧ _ ≤ b₁.length
    omega

theorem Shows.run_resize (h : p.Shows v) {b old : Bytes} {isMoved : Bool}
    (hn : v.cells[n.toNat]? = some (bodyCell isMoved old)) (hfit : b.length ≤ v.space + old.length) :
    ∃ q, resize n b p = .ok true q ∧ q.number = p.number ∧ q.Shows (v.put n (bodyCell isMoved b)) := by
  obtain ⟨slots, hh, hc⟩ := h
  obtain ⟨s, hs, hcell⟩ := getElem?_eq_of_cell hc hn
  obtain ⟨o, l, rfl, hl⟩ := eq_bodySlot hcell fun o l hsb =>
    Nat.le_trans (hh.body_le hs hsb) hh.boundary_le
  have hspace := hh.space_eq hc
  have hin := hh.body_le hs (body?_bodySlot isMoved o l)
  have hall := hh.lists.low_le
  have hps : pageSize = 4096 := rfl
  have hlenb := toNat_ofNat_length (b := b) (by omega)
  obtain ⟨b₁, b₂, b₃, hstretch, hput, hset, slots', hb₃, hlen, htiled, hfree, hcells⟩ :=
    hh.run_overwrite (b := b) hs (by omega)
  have hnew : (p.trailer.boundary + UInt16.ofNat b.length - l).toNat
      = p.trailer.boundary.toNat + b.length - l.toNat := by
    rw [Tiled.toNat_shifted (by omega), hlenb]
    · rw [hlenb]
      exact Nat.lt_of_lt_of_le (show _ < 16384 by omega) (by decide)
  have hl' := hb₃.withTrailer
    (t := { p.trailer with boundary := p.trailer.boundary + UInt16.ofNat b.length - l }) rfl
  obtain ⟨q, hq, hnum, hshow⟩ := finish hl' (hnew ▸ htiled) (by rw [hnew, hlen]; omega) hfree
  refine ⟨q, ?_, hnum, ?_⟩
  · rw [resize, run_bind (hh.lists.run_readSlot hs)]
    simp only [body?_bodySlot, withBody_bodySlot]
    rw [run_get_bind, if_neg (by rw [hh.toNat_space_add hc]; omega), run_bind hstretch, run_bind hput,
      run_bind hset, run_get_bind]
    exact (run_bind rfl).trans ((run_bind hq).trans rfl)
  · change q.Shows ⟨slots'.map (Slot.cell b₃), v.free⟩ at hshow
    rw [hcells, ← hc] at hshow
    exact hshow

/-! ## Coming back -/

theorem eq_forwarded {b : Bytes} {target : RecordId} (h : s.cell b = .pointer target) :
    s = .forwarded target := by
  cases s <;> simp [Slot.cell] at h
  rw [h]

theorem run_restore_full {target : RecordId} (hn : p.slot n = .ok (.forwarded target)) {b : Bytes}
    (hfull : p.freeSpace.toNat < b.length) : restore n b p = .ok false p := by
  rw [restore, run_bind (run_readSlot hn)]
  simp only [run_get_bind]
  rw [if_pos hfull]
  rfl

theorem Shows.run_restore_full (h : p.Shows v) {b : Bytes} {target : RecordId}
    (hn : v.cells[n.toNat]? = some (.pointer target)) (hfull : v.space < b.length) :
    restore n b p = .ok false p := by
  obtain ⟨slots, hh, hc⟩ := h
  obtain ⟨s, hs, hcell⟩ := getElem?_eq_of_cell hc hn
  obtain rfl := eq_forwarded hcell
  exact SlottedPage.run_restore_full (hh.lists.slot_eq hs) (by rw [hh.freeSpace_eq hc]; exact hfull)

theorem Shows.run_restore (h : p.Shows v) {b : Bytes} {target : RecordId}
    (hn : v.cells[n.toNat]? = some (.pointer target)) (hfit : b.length ≤ v.space) :
    ∃ q, restore n b p = .ok true q ∧ q.number = p.number ∧ q.Shows (v.put n (.record b)) := by
  obtain ⟨slots, hh, hc⟩ := h
  obtain ⟨s, hs, hcell⟩ := getElem?_eq_of_cell hc hn
  obtain rfl := eq_forwarded hcell
  have hlt := lt_of_getElem?_eq_some hs
  have hspace := hh.space_eq hc
  have hall := hh.lists.low_le
  have hps : pageSize = 4096 := rfl
  obtain ⟨b₁, hput, hb₁, hread, hcell₁⟩ := hh.run_put_gap (b := b) (by omega)
  have hlen := toNat_ofNat_length (b := b) (by omega)
  have hsum := toNat_add_of_fit (a := p.trailer.boundary) (b := UInt16.ofNat b.length) (by omega)
  obtain ⟨b₃, hset, hb₃, hag⟩ := hb₁.run_setSlot hlt
    (.occupied p.trailer.boundary (UInt16.ofNat b.length))
  have htiled := hh.tiled_set hs rfl
    (show (Slot.occupied p.trailer.boundary (UInt16.ofNat b.length)).body? = _ from rfl)
  have hl := hb₃.withTrailer
    (t := { p.trailer with boundary := p.trailer.boundary + UInt16.ofNat b.length }) rfl
  obtain ⟨q, hq, hnum, hshow⟩ := finish hl (hsum ▸ htiled) (by rw [hsum, List.length_set]; omega)
    (hh.freeList.congr
      (sameDeleted_set n.toNat (.occupied p.trailer.boundary (UInt16.ofNat b.length)))
      (by simp [hs]) (by simp [List.getElem?_set_self hlt]))
  refine ⟨q, ?_, hnum, ?_⟩
  · rw [restore, run_bind (hh.lists.run_readSlot hs)]
    simp only [run_get_bind]
    rw [if_neg (by rw [hh.freeSpace_eq hc]; omega), run_bind hput, run_bind hset, run_bind (run_sum hsum _)]
    exact (run_bind rfl).trans ((run_bind hq).trans rfl)
  · change q.Shows ⟨(slots.set n.toNat _).map (Slot.cell b₃), v.free⟩ at hshow
    have hnew := cell_bodySlot (b := b) false (show b₃.slice p.trailer.boundary.toNat
        (UInt16.ofNat b.length).toNat = .ok b by
      rw [hag _ _ (.inl (by omega)), hlen]
      exact hread)
    rw [map_cell_eq_set (List.length_set ..) (List.getElem?_set_self hlt), ← hc] at hshow
    · rw [show Slot.occupied p.trailer.boundary (UInt16.ofNat b.length)
        = bodySlot false p.trailer.boundary (UInt16.ofNat b.length) from rfl, hnew] at hshow
      exact hshow
    · intro m u hm hu
      refine ⟨u, by rw [List.getElem?_set_ne (Ne.symm hm)]; exact hu, ?_⟩
      have hsize : b₁.length = pageSize := hb₁.size
      rw [← hcell₁ m u hu]
      exact hh.cell_eq (b := b₁) hu hag (by omega) (by omega)

end SlottedPage

end Tablespace
