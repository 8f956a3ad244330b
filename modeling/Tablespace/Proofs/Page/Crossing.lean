import Tablespace.Proofs.Page.Checked
import Tablespace.Proofs.Page.Opened

/-!
# Bodies that cross the boundary

A page that opens may have a slot whose body reaches past the boundary. Such a
body cannot be read, and the edits that would move what lies behind it change
nothing. They report an error where they find nothing to move; but they name the
ends of the body by words, and where such a sum is no word the program stops.
-/

namespace Tablespace

namespace SlottedPage

/-- The edit gives no result and leaves the page as it was: where a sum overflows the program stops,
and elsewhere the edit reports an error. -/
def Halts {α : Type} (overflows : Prop) (change : PageM α) (p : SlottedPage) : Prop :=
  overflows ∧ change p = .error .overflow p ∨ ¬ overflows ∧ Refuses change p

section
variable {α β : Type} {p q : SlottedPage} {a b c : UInt16} {overflows : Prop} {x : PageM α}

theorem Refuses.halts (h : Refuses x p) : Halts False x p := .inr ⟨id, h⟩

theorem Halts.bind (h : Halts overflows x p) (k : α → PageM β) : Halts overflows (x >>= k) p :=
  h.imp (And.imp_right run_bind_error) (And.imp_right fun hno => hno.bind k)

theorem Halts.of_ok {v : α} {k : α → PageM β} (hx : x p = .ok v p) (hk : Halts overflows (k v) p) :
    Halts overflows (x >>= k) p :=
  hk.imp (And.imp_right (run_bind hx).trans) (And.imp_right (Refuses.of_ok hx))

theorem Halts.congr {overflows' : Prop} (h : Halts overflows x p) (hiff : overflows ↔ overflows') :
    Halts overflows' x p := by
  rwa [Halts, ← hiff]

theorem Halts.ne_ok (h : Halts overflows x p) (v : α) : x p ≠ .ok v q := by
  intro hrun
  rcases h with ⟨-, he⟩ | ⟨-, e, he⟩
  · rw [hrun] at he
    cases he
  · rw [hrun] at he
    cases he

theorem Agrees.of_halts {y : CheckedM α} {k : α → CheckedM β} {m : α → PageM β} (hy : Agrees y x p)
    (hx : Halts overflows x p) : Agrees (y >>= k) (x >>= m) p :=
  hy.bind fun v _ hrun => absurd hrun (hx.ne_ok v)

end

variable {p : SlottedPage} {n : SlotNum} {s : Slot} {o l newLength : UInt16}

theorem body_eq_error (h : p.trailer.boundary.toNat < o.toNat + l.toNat) :
    p.body o l = .error (.corruption p.number (.bodyCrossesBoundary o l p.trailer.boundary)) := by
  rw [body, if_pos h]
  rfl

/-! ## Edits without a move -/

section
variable (hcross : p.trailer.boundary.toNat < o.toNat + l.toNat)
include hcross

/-- Behind a body that crosses the boundary there is nothing to move. -/
theorem refuses_move_rear (hsum : o.toNat + l.toNat < UInt16.size) (dest : Nat) :
    Refuses (move (o + l).toNat p.trailer.boundary.toNat dest) p :=
  refuses_move (by rwa [toNat_add_of_lt hsum])

theorem halts_stretch (n : SlotNum) (newLength : UInt16) :
    Halts (UInt16.size ≤ o.toNat + l.toNat ∨ UInt16.size ≤ o.toNat + newLength.toNat)
      (stretch n o l newLength) p := by
  unfold stretch
  rcases sum_cases o l p with ⟨hge, hstop⟩ | ⟨hlt, hstop⟩
  · exact .inl ⟨.inl hge, run_bind_error hstop⟩
  · refine Halts.of_ok hstop ?_
    rcases sum_cases o newLength p with ⟨hge, hdest⟩ | ⟨hlt', hdest⟩
    · exact .inl ⟨.inr hge, run_bind_error hdest⟩
    · refine Halts.of_ok hdest (.inr ⟨by omega, ?_⟩)
      exact Refuses.of_ok (run_get p) ((refuses_move_rear hcross hlt _).bind _)

theorem halts_compact (n : SlotNum) : Halts (UInt16.size ≤ o.toNat + l.toNat) (compact n o l) p := by
  have hzero : ¬ UInt16.size ≤ o.toNat + (0 : UInt16).toNat := Nat.not_le.mpr o.toNat_lt
  exact ((halts_stretch hcross n 0).congr (or_iff_left hzero)).bind _

theorem halts_remove (hn : p.slot n = .ok s) (hs : s.body? = some (o, l)) :
    Halts (UInt16.size ≤ o.toNat + l.toNat) (remove n) p := by
  have hcompact := halts_compact hcross n
  refine Halts.of_ok (run_readSlot hn) ?_
  cases s with
  | occupied a k => cases hs; exact hcompact.bind _
  | moved a k => cases hs; exact hcompact.bind _
  | forwarded | deleted => cases hs

/-- Bytes held for another page are never forwarded, crossing or not. -/
theorem halts_forward (hn : p.slot n = .ok s) (hs : s.body? = some (o, l)) (target : RecordId) :
    Halts (s = .occupied o l ∧ UInt16.size ≤ o.toNat + l.toNat) (forward n target) p := by
  refine Halts.of_ok (run_readSlot hn) ?_
  cases s with
  | occupied a k =>
    cases hs
    exact ((halts_compact hcross n).congr (by simp)).bind _
  | moved a k => exact .inr ⟨by simp, (refuses_fail _).bind _⟩
  | forwarded | deleted => cases hs

theorem halts_resize (hn : p.slot n = .ok s) (hs : s.body? = some (o, l)) {record : Bytes}
    (hfit : record.length ≤ (p.freeSpace + l.toUInt64).toNat) :
    Halts (UInt16.size ≤ o.toNat + l.toNat ∨ UInt16.size ≤ o.toNat + (UInt16.ofNat record.length).toNat)
      (resize n record) p := by
  refine Halts.of_ok (run_readSlot hn) ?_
  simp only [hs]
  refine Halts.of_ok (run_get p) ?_
  simp only [if_neg (Nat.not_lt.mpr hfit)]
  exact (halts_stretch hcross n _).bind _

/-! ## Numbers that are narrowed -/

/-- Nothing is shifted, for the edit ends in front of the first shift. -/
theorem agrees_stretch_crossing (n : SlotNum) (newLength : UInt16) :
    Agrees (Checked.stretch n o l newLength) (stretch n o l newLength) p := by
  refine (Agrees.lift _ _).bind fun stop q hstop => ?_
  obtain ⟨rfl, rfl, hsum⟩ := sum_eq_ok hstop
  refine (Agrees.lift _ _).bind fun dest q' hdest => ?_
  obtain ⟨rfl, rfl, -⟩ := sum_eq_ok hdest
  exact Agrees.get ((Agrees.lift _ _).of_halts (refuses_move_rear hcross hsum _).halts)

theorem agrees_compact_crossing (n : SlotNum) : Agrees (Checked.compact n o l) (compact n o l) p :=
  (agrees_stretch_crossing hcross n 0).of_halts (halts_stretch hcross n 0)

theorem agrees_remove_crossing (hn : p.slot n = .ok s) (hs : s.body? = some (o, l)) :
    Agrees (Checked.remove n) (remove n) p := by
  have hcompact := agrees_compact_crossing hcross n
  have hhalts := halts_compact hcross n
  refine (Agrees.lift _ _).of_ok (run_readSlot hn) ?_
  cases s with
  | occupied a k => cases hs; exact hcompact.of_halts hhalts
  | moved a k => cases hs; exact hcompact.of_halts hhalts
  | forwarded | deleted => cases hs

theorem agrees_forward_crossing (hn : p.slot n = .ok s) (hs : s.body? = some (o, l))
    (target : RecordId) : Agrees (Checked.forward n target) (forward n target) p := by
  refine (Agrees.lift _ _).of_ok (run_readSlot hn) ?_
  cases s with
  | occupied a k =>
    cases hs
    exact (agrees_compact_crossing hcross n).of_halts (halts_compact hcross n)
  | moved a k => exact (Agrees.lift _ _).of_halts (refuses_fail _).halts
  | forwarded | deleted => cases hs

theorem agrees_resize_crossing (hn : p.slot n = .ok s) (hs : s.body? = some (o, l)) {record : Bytes}
    (hlen : record.length < UInt16.size) : Agrees (Checked.resize n record) (resize n record) p := by
  refine (Agrees.lift _ _).of_ok (run_readSlot hn) ?_
  simp only [hs]
  refine Agrees.get ?_
  by_cases hfull : (p.freeSpace + l.toUInt64).toNat < record.length
  · simp only [if_pos hfull]
    exact Agrees.pure false p
  · simp only [if_neg hfull]
    refine Agrees.narrow (w := UInt16.ofNat record.length) (by rw [toNat_ofNat_of_lt hlen]) ?_
    exact (agrees_stretch_crossing hcross n _).of_halts (halts_stretch hcross n _)

end

/-! ## Crossing bodies -/

/-- On a page that opens, removing, forwarding or resizing a slot whose body crosses the boundary
never succeeds and leaves the page as it was. A record that is too long even with the bytes that the
body claims gets the usual answer. Else the edit reports an error, unless the end of the body, or in
resizing its new end, is no word: there the program stops. No number is narrowed to another one. -/
theorem refuses_crossing {b : Bytes} {number : PageNum} (hp : ofBytes b number = .ok p)
    (hn : p.slot n = .ok s) (hs : s.body? = some (o, l))
    (hcross : p.trailer.boundary.toNat < o.toNat + l.toNat) :
    p.body o l = .error (.corruption number (.bodyCrossesBoundary o l p.trailer.boundary))
    ∧ Halts (UInt16.size ≤ o.toNat + l.toNat) (remove n) p
    ∧ (∀ target, Halts (s = .occupied o l ∧ UInt16.size ≤ o.toNat + l.toNat) (forward n target) p)
    ∧ (∀ record : Bytes, (p.freeSpace + l.toUInt64).toNat < record.length → resize n record p = .ok false p)
    ∧ (∀ record : Bytes, record.length ≤ (p.freeSpace + l.toUInt64).toNat →
      Halts (UInt16.size ≤ o.toNat + l.toNat
        ∨ UInt16.size ≤ o.toNat + (UInt16.ofNat record.length).toNat) (resize n record) p)
    ∧ Agrees (Checked.remove n) (remove n) p
    ∧ (∀ target, Agrees (Checked.forward n target) (forward n target) p)
    ∧ ∀ record, record.length < UInt16.size → Agrees (Checked.resize n record) (resize n record) p := by
  obtain ⟨-, -, hnum⟩ := ofBytes_eq_ok hp
  refine ⟨by rw [body_eq_error hcross, hnum], halts_remove hcross hn hs, halts_forward hcross hn hs,
    fun record hfull => run_resize_full hn hs hfull, fun record hfit => halts_resize hcross hn hs hfit,
    agrees_remove_crossing hcross hn hs, agrees_forward_crossing hcross hn hs,
    fun record hlen => agrees_resize_crossing hcross hn hs hlen⟩

/-- A page with one slot that owns `l` bytes from 100 on, in front of which the boundary lies. -/
def crossingPage (l : UInt16) : SlottedPage :=
  .ofDirectory (Slot.occupied 100 l).encode ⟨Trailer.noSlot, 1, 100⟩ 0

theorem ofBytes_crossingPage (l : UInt16) : ofBytes (crossingPage l).bytes 0 = .ok (crossingPage l) :=
  ofBytes_ofDirectory (Slot.length_encode _) (by decide)

theorem slot_crossingPage (l : UInt16) : (crossingPage l).slot 0 = .ok (.occupied 100 l) := by
  have hslice : (Slot.occupied 100 l).encode.slice 0 Slot.size = .ok (Slot.occupied 100 l).encode := by
    rw [Bytes.slice_of_le (by simp), List.drop_zero, List.take_of_length_le (by simp)]
  refine (slot_ofDirectory (Slot.length_encode _) (by decide) (by decide)).trans ?_
  change (inFile ((Slot.occupied 100 l).encode.slice 0 Slot.size) >>= _) = _
  rw [hslice]
  simp [inFile, mapError_ok, bind, Except.bind]

theorem refuses_crossing_short : ofBytes (crossingPage 1).bytes 0 = .ok (crossingPage 1)
    ∧ (crossingPage 1).slot 0 = .ok (.occupied 100 1)
    ∧ Refuses (remove 0) (crossingPage 1) ∧ Refuses (forward 0 ⟨1, 0⟩) (crossingPage 1)
    ∧ Refuses (resize 0 [7]) (crossingPage 1) := by
  obtain ⟨-, hremove, hforward, -, hresize, -⟩ :=
    refuses_crossing (ofBytes_crossingPage 1) (slot_crossingPage 1) rfl (by decide)
  have refuses {α : Type} {overflows : Prop} {change : PageM α}
      (h : Halts overflows change (crossingPage 1)) (hno : ¬ overflows) : Refuses change (crossingPage 1) :=
    (h.resolve_left fun hyes => hno hyes.1).2
  exact ⟨ofBytes_crossingPage 1, slot_crossingPage 1, refuses hremove (by decide),
    refuses (hforward ⟨1, 0⟩) (by decide), refuses (hresize [7] (by decide)) (by decide)⟩

/-- The sum of 100 and 65436 is no word: the page refuses to read the body, but the program stops
where it would remove, forward or resize it. -/
theorem stops_crossing : ofBytes (crossingPage 65436).bytes 0 = .ok (crossingPage 65436)
    ∧ (crossingPage 65436).slot 0 = .ok (.occupied 100 65436)
    ∧ (crossingPage 65436).body 100 65436 = .error (.corruption 0 (.bodyCrossesBoundary 100 65436 100))
    ∧ remove 0 (crossingPage 65436) = .error .overflow (crossingPage 65436)
    ∧ forward 0 ⟨1, 0⟩ (crossingPage 65436) = .error .overflow (crossingPage 65436)
    ∧ resize 0 [7] (crossingPage 65436) = .error .overflow (crossingPage 65436) := by
  have hcross : (crossingPage 65436).trailer.boundary.toNat < (100 : UInt16).toNat + (65436 : UInt16).toNat := by
    decide
  have hremove := halts_remove hcross (slot_crossingPage 65436) rfl
  have hforward := halts_forward hcross (slot_crossingPage 65436) rfl ⟨1, 0⟩
  have hfit : ([7] : Bytes).length ≤ ((crossingPage 65436).freeSpace + (65436 : UInt16).toUInt64).toNat := by
    decide
  have hresize := halts_resize hcross (slot_crossingPage 65436) rfl hfit
  refine ⟨ofBytes_crossingPage _, slot_crossingPage _, body_eq_error hcross, ?_, ?_, ?_⟩
  · exact (hremove.resolve_right fun hno => hno.1 (by decide)).2
  · exact (hforward.resolve_right fun hno => hno.1 (by decide)).2
  · exact (hresize.resolve_right fun hno => hno.1 (by decide)).2

end SlottedPage

end Tablespace
