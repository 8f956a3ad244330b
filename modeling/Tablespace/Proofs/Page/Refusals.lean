import Tablespace.Proofs.Page.Edits

/-!
# Refused edits

An edit that a page cannot do ends before its first write: the page is as it
was, in its bytes and in the trailer that is held beside them.
-/

namespace Tablespace

namespace SlottedPage

variable {p q : SlottedPage} {slots : List Slot} {v : Sheet} {n : SlotNum} {c : Cell} {s : Slot}

/-- The edit reports an error and leaves the page as it was. -/
def Refuses {α : Type} (change : PageM α) (p : SlottedPage) : Prop :=
  ∃ e, change p = .error (.failed e) p

theorem Refuses.bind {α β : Type} {x : PageM α} (h : Refuses x p) (k : α → PageM β) :
    Refuses (x >>= k) p := by
  obtain ⟨e, he⟩ := h
  exact ⟨e, run_bind_error he⟩

theorem Refuses.of_ok {α β : Type} {x : PageM α} {a : α} {k : α → PageM β} (h : x p = .ok a p)
    (hk : Refuses (k a) p) : Refuses (x >>= k) p := by
  obtain ⟨e, he⟩ := hk
  exact ⟨e, by rw [run_bind h, he]⟩

theorem refuses_throw {α : Type} (e : RecordError) : Refuses (throw (.failed e) : PageM α) p := ⟨e, rfl⟩

theorem refuses_fail {α : Type} (fault : PageFault) : Refuses (fail fault : PageM α) p :=
  ⟨.corruption p.number fault, rfl⟩

theorem refuses_put {offset : Nat} {src : Bytes} (h : p.bytes.length < offset + src.length) :
    Refuses (put offset src) p := by
  refine ⟨.file (.outOfBounds ⟨offset, src.length, p.bytes.length⟩), ?_⟩
  rw [put, run_get_bind, Bytes.write, if_neg (Nat.not_le.mpr h)]
  rfl

theorem put_ok {offset : Nat} {src : Bytes} {u : Unit} (h : put offset src p = .ok u q) :
    offset + src.length ≤ p.bytes.length ∧ q = p.withBytes (p.bytes.overwrite offset src) := by
  rcases Nat.lt_or_ge p.bytes.length (offset + src.length) with hlt | hle
  · obtain ⟨e, he⟩ := refuses_put hlt
    rw [h] at he
    cases he
  · rw [run_put hle] at h
    cases h
    exact ⟨hle, rfl⟩

theorem refuses_move_of_error {start stop dest : Nat} {e : OutOfBounds}
    (h : p.bytes.move start stop dest = .error e) : Refuses (move start stop dest) p := by
  refine ⟨.file (.outOfBounds e), ?_⟩
  rw [move, run_get_bind, h]
  rfl

theorem refuses_move {start stop dest : Nat} (h : stop < start) : Refuses (move start stop dest) p := by
  cases hm : p.bytes.move start stop dest with
  | ok c => exact absurd (Bytes.exists_move_iff.mp ⟨c, hm⟩).1 (Nat.not_le.mpr h)
  | error e => exact refuses_move_of_error hm

theorem refuses_readSlot {e : RecordError} (h : p.slot n = .error e) : Refuses (readSlot n) p := by
  refine ⟨e, ?_⟩
  rw [readSlot, run_get_bind, h]
  rfl

theorem Shows.refuses_readSlot (h : p.Shows v) (hn : v.cells[n.toNat]? = none) :
    Refuses (readSlot n) p := SlottedPage.refuses_readSlot (h.slot_missing hn)

theorem Shows.run_readSlot (h : p.Shows v) (hn : v.cells[n.toNat]? = some c) :
    ∃ s, readSlot n p = .ok s p ∧ s.cell p.bytes = c := by
  obtain ⟨s, hs, hc⟩ := h.slot_of_cell hn
  exact ⟨s, SlottedPage.run_readSlot hs, hc⟩

/-- A body without room is refused, also one whose length is more than a word of 64 bits counts. -/
theorem Shows.refuses_insert (h : p.Shows v) {b : Bytes} (hfull : ¬ v.CanHold b.length)
    (isMoved : Bool) : Refuses (insert b isMoved) p := by
  rw [insert]
  refine Refuses.of_ok (run_get p) ?_
  by_cases hcan : p.canHold b.length = true
  · have hbig : pageSize < b.length := by
      rcases Nat.lt_or_ge pageSize b.length with hlt | hle
      · exact hlt
      · exact absurd ((h.canHold_iff hle).mp hcan) hfull
    simp only [hcan, if_true]
    refine (refuses_put ?_).bind _
    rw [h.size_eq]
    omega
  · simp only [if_neg hcan]
    exact (refuses_throw _).bind _

theorem Shows.refuses_remove (h : p.Shows v)
    (hn : v.cells[n.toNat]? = none ∨ v.cells[n.toNat]? = some .free) : Refuses (remove n) p := by
  rcases hn with hn | hn
  · exact (h.refuses_readSlot hn).bind _
  · obtain ⟨s, hread, hs⟩ := h.run_readSlot hn
    refine Refuses.of_ok hread ?_
    cases s with
    | deleted next => exact Refuses.of_ok (run_get p) ((refuses_throw _).bind _)
    | occupied | moved | forwarded => simp [Slot.cell] at hs

theorem Shows.refuses_resize (h : p.Shows v) (b : Bytes)
    (hn : ∀ isMoved old, v.cells[n.toNat]? ≠ some (bodyCell isMoved old)) : Refuses (resize n b) p := by
  cases hc : v.cells[n.toNat]? with
  | none => exact (h.refuses_readSlot hc).bind _
  | some c =>
    obtain ⟨s, hread, rfl⟩ := h.run_readSlot hc
    refine Refuses.of_ok hread ?_
    cases s with
    | occupied o l => exact absurd hc (hn false _)
    | moved o l => exact absurd hc (hn true _)
    | forwarded | deleted => exact refuses_fail _

theorem Shows.refuses_forward (h : p.Shows v) (target : RecordId)
    (hn : ∀ c, v.cells[n.toNat]? = some c → (∀ b, c ≠ .record b) ∧ ∀ t, c ≠ .pointer t) :
    Refuses (forward n target) p := by
  cases hc : v.cells[n.toNat]? with
  | none => exact (h.refuses_readSlot hc).bind _
  | some c =>
    obtain ⟨s, hread, rfl⟩ := h.run_readSlot hc
    refine Refuses.of_ok hread ?_
    cases s with
    | occupied o l => exact absurd rfl ((hn _ hc).1 _)
    | forwarded t => exact absurd rfl ((hn _ hc).2 t)
    | moved | deleted => exact (refuses_fail _).bind _

theorem Shows.refuses_restore (h : p.Shows v) (b : Bytes)
    (hn : ∀ t, v.cells[n.toNat]? ≠ some (.pointer t)) : Refuses (restore n b) p := by
  cases hc : v.cells[n.toNat]? with
  | none => exact (h.refuses_readSlot hc).bind _
  | some c =>
    obtain ⟨s, hread, rfl⟩ := h.run_readSlot hc
    refine Refuses.of_ok hread ?_
    cases s with
    | forwarded t => exact absurd hc (hn t)
    | occupied | moved | deleted => exact (refuses_fail _).bind _

end SlottedPage

end Tablespace
