import Tablespace.Proofs.Page.Checked

/-!
# The layout of a page

How the slots, the bodies, the free list and the trailer fit together on every page
that a run leads to, in terms of what is read from the page.
-/

namespace Tablespace

namespace SlottedPage

/-- The deleted slots from `head` on, each naming the next, up to the mark for none. -/
def FreeFrom (p : SlottedPage) : SlotNum → List SlotNum → Prop
  | head, [] => head = Trailer.noSlot
  | head, n :: rest => head = n ∧ ∃ next, p.slot n = .ok (.deleted next) ∧ p.FreeFrom next rest

structure LaidOut (p : SlottedPage) : Prop where
  room : p.trailer.boundary.toNat + Trailer.size + p.trailer.slotCount.toNat * Slot.size ≤ pageSize
  legible : ∀ n < p.trailer.slotCount, ∃ s, p.slot n = .ok s
  inside : ∀ n s o l, p.slot n = .ok s → s.body? = some (o, l) →
    o.toNat + l.toNat ≤ p.trailer.boundary.toNat
  apart : ∀ m n s t o l o' l', m ≠ n → p.slot m = .ok s → p.slot n = .ok t →
    s.body? = some (o, l) → t.body? = some (o', l') →
    o.toNat + l.toNat ≤ o'.toNat ∨ o'.toNat + l'.toNat ≤ o.toNat
  dense : ∃ slots, p.slotNums.mapM p.slot = .ok slots
    ∧ (slots.map Slot.bodySize).sum = p.trailer.boundary.toNat
  freeList : ∃ free, p.FreeFrom p.trailer.freeHead free ∧ free.Nodup
    ∧ ∀ n, n ∈ free ↔ ∃ next, p.slot n = .ok (.deleted next)
  reopens : ofBytes p.bytes p.number = .ok p
  steady : ∀ (e : Edit) q, e.perform p ≠ .error .overflow q
  unwrapped : ∀ e : Edit, e.performChecked p = EStateM.adaptExcept Overrun.halted e.perform p

variable {p : SlottedPage} {slots : List Slot} {free : List SlotNum} {head : SlotNum} {v : Sheet}

theorem Lists.mapM_slot (h : p.Lists slots) : p.slotNums.mapM p.slot = .ok slots := by
  have hcount := h.count
  have hsize := p.trailer.slotCount.toNat_lt
  refine mapM_eq_ok (List.ext_getElem (by simp [slotNums, hcount]) fun i hi hi' => ?_)
  rw [List.length_map] at hi'
  have hi'' : i < UInt16.size := by
    simp only [UInt16.size]
    omega
  simp only [List.getElem_map, slotNums, List.getElem_range]
  exact h.slot_eq (by rw [toNat_ofNat_of_lt hi'', List.getElem?_eq_getElem hi'])

theorem Lists.freeFrom (h : p.Lists slots) :
    ∀ {free : List SlotNum} {head : SlotNum}, FreeChain slots head free → p.FreeFrom head free
  | [], _, hend => hend
  | _ :: _, _, ⟨he, next, hn, hrest⟩ => ⟨he, next, h.slot_eq hn, h.freeFrom hrest⟩

theorem Lists.bodyAt_eq (h : p.Lists slots) {n : SlotNum} {s : Slot} {o l : UInt16}
    (hn : p.slot n = .ok s) (hb : s.body? = some (o, l)) : bodyAt slots n.toNat = some (o, l) :=
  bodyAt_of_slot (h.slot_eq_ok_iff.mp hn) hb

theorem Shows.laidOut (h : p.Shows v) : p.LaidOut := by
  have hfollows := h.follows
  have hchecked := h.agrees
  obtain ⟨slots, hh, -⟩ := h
  have hlists := hh.lists
  constructor
  case room =>
    have := hh.low
    have := hlists.low_le
    rw [hlists.count, Nat.mul_comm slots.length]
    omega
  case legible =>
    intro n hn
    exact ⟨_, hlists.slot_eq (List.getElem?_eq_getElem (hlists.lt_slotCount.mp hn))⟩
  case inside => exact fun n s o l hn hb => hh.tiled.inside _ o l (hlists.bodyAt_eq hn hb)
  case apart =>
    intro m n s t o l o' l' hne hm hn hs ht
    exact hh.tiled.apart _ _ o l o' l' (fun he => hne (UInt16.toNat_inj.mp he))
      (hlists.bodyAt_eq hm hs) (hlists.bodyAt_eq hn ht)
  case dense => exact ⟨slots, hlists.mapM_slot, hh.tiled.total⟩
  case freeList =>
    refine ⟨v.free, hlists.freeFrom hh.freeList.chain, hh.freeList.nodup, fun n => ⟨fun hn => ?_, ?_⟩⟩
    · obtain ⟨next, hd⟩ := hh.freeList.chain.deleted n hn
      exact ⟨next, hlists.slot_eq hd⟩
    · rintro ⟨next, hd⟩
      exact hh.freeList.complete n next (hlists.slot_eq_ok_iff.mp hd)
  case reopens => exact hh.ofBytes_eq
  case steady => exact fun e => (hfollows e).ne_overflow
  case unwrapped => exact hchecked

theorem laidOut_of_runs (h : Runs p v) : p.LaidOut := h.shows.laidOut

/-- Of four slots two are free, one is forwarded, and one owns the three bytes that are left. -/
theorem laidOut_of_runs_holed : ∃ p v, Runs p v ∧ v.free = [3, 0] ∧ p.trailer.slotCount = 4
    ∧ p.trailer.boundary = 3 ∧ p.LaidOut := by
  obtain ⟨p₁, -, h₁⟩ := (Runs.start (format_zeros 0)).edit (e := .insert [1, 2] false) rfl
  obtain ⟨p₂, -, h₂⟩ := h₁.edit (e := .insert [3] true) rfl
  obtain ⟨p₃, -, h₃⟩ := h₂.edit (e := .insert [4] false) rfl
  obtain ⟨p₄, -, h₄⟩ := h₃.edit (e := .insert [] false) rfl
  obtain ⟨p₅, -, h₅⟩ := h₄.edit (e := .remove 0) rfl
  obtain ⟨p₆, -, h₆⟩ := h₅.edit (e := .resize 1 [5, 6, 7]) rfl
  obtain ⟨p₇, -, h₇⟩ := h₆.edit (e := .forward 2 ⟨1, 0⟩) rfl
  obtain ⟨p₈, -, h₈⟩ := h₇.edit (e := .remove 3) rfl
  refine ⟨p₈, _, h₈, rfl, UInt16.toNat_inj.mp ?_, UInt16.toNat_inj.mp ?_, laidOut_of_runs h₈⟩
  · exact (h₈.shows.refines).count
  · exact h₈.shows.boundary_eq

end SlottedPage

end Tablespace
