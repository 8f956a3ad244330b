import Tablespace.Proofs.Page.Sheet

/-!
# Stretching a body

Moving the bytes behind a body and shifting the slots that own them leaves
every other cell as it was.
-/

namespace Tablespace

open Bytes (AgreeOff)

namespace Slot

theorem cell_congr {b c : Bytes} {s : Slot}
    (h : ∀ o l, s.body? = some (o, l) → c.slice o.toNat l.toNat = b.slice o.toNat l.toNat
      ∧ o.toNat + l.toNat ≤ b.length) : s.cell c = s.cell b := by
  have window : ∀ o l, s.body? = some (o, l) →
      (c.drop o.toNat).take l.toNat = (b.drop o.toNat).take l.toNat := by
    intro o l hs
    obtain ⟨heq, hle⟩ := h o l hs
    rw [Bytes.slice_of_le hle] at heq
    exact (Bytes.slice_eq_ok_iff.mp heq).2
  cases s with
  | occupied o l => simp only [cell, window o l rfl]
  | moved o l => simp only [cell, window o l rfl]
  | forwarded t => rfl
  | deleted next => rfl

theorem cell_of_agree {b c : Bytes} {s : Slot} {lo hi : Nat} (h : AgreeOff lo hi b c)
    (hs : ∀ o l, s.body? = some (o, l) →
      (o.toNat + l.toNat ≤ lo ∨ hi ≤ o.toNat) ∧ o.toNat + l.toNat ≤ b.length) :
    s.cell c = s.cell b :=
  cell_congr fun o l hb => ⟨h _ _ (hs o l hb).1, (hs o l hb).2⟩

theorem withBody_self {s : Slot} {o l : UInt16} (h : s.body? = some (o, l)) : s.withBody o l = s := by
  cases s <;> simp [body?] at h <;> simp [withBody, h]

theorem shift_of_body {s : Slot} {a k : UInt16} (h : s.body? = some (a, k))
    (limit length newLength : UInt16) :
    s.shift limit length newLength
      = s.withBody (if limit ≤ a then a + newLength - length else a) k := by
  simp only [shift, h]
  split
  · rfl
  · exact (withBody_self h).symm

theorem cell_withBody {b c : Bytes} {s : Slot} {a k a' : UInt16} (h : s.body? = some (a, k))
    (hle : a.toNat + k.toNat ≤ b.length)
    (hw : c.slice a'.toNat k.toNat = b.slice a.toNat k.toNat) : (s.withBody a' k).cell c = s.cell b := by
  rw [Bytes.slice_of_le hle] at hw
  have hw := (Bytes.slice_eq_ok_iff.mp hw).2
  cases s <;> simp [body?] at h <;> obtain ⟨rfl, rfl⟩ := h <;> simp only [withBody, cell, hw]

end Slot

namespace SlottedPage

variable {p : SlottedPage} {slots : List Slot} {free : List SlotNum} {n : SlotNum}
  {o l : UInt16}

theorem Holds.boundary_lt (h : p.Holds slots free) : p.trailer.boundary.toNat ≤ pageSize := by
  have := h.low
  have := h.lists.low_le
  omega

theorem length_shiftOthers (skip : Nat) (limit length newLength : UInt16) (slots : List Slot) :
    (shiftOthers skip limit length newLength slots).length = slots.length := by
  simp [shiftOthers]

/-- The bytes behind a body move to where its new end is, in front of `limit`. -/
theorem run_move (hsize : p.bytes.length = pageSize) {limit : Nat} (hlimit : limit ≤ pageSize)
    (hlow : p.trailer.boundary.toNat ≤ limit) (newLength : UInt16)
    (hin : o.toNat + l.toNat ≤ p.trailer.boundary.toNat)
    (hfit : p.trailer.boundary.toNat + newLength.toNat ≤ limit + l.toNat) :
    (o + l).toNat = o.toNat + l.toNat ∧ (o + newLength).toNat = o.toNat + newLength.toNat
      ∧ ∃ b, move (o + l).toNat p.trailer.boundary.toNat (o + newLength).toNat p
          = .ok () (p.withBytes b)
        ∧ b.length = pageSize ∧ AgreeOff o.toNat limit p.bytes b
        ∧ ∀ i k, o.toNat + l.toNat ≤ i → i + k ≤ p.trailer.boundary.toNat →
          b.slice (i + newLength.toNat - l.toNat) k = p.bytes.slice i k := by
  have hps : pageSize = 4096 := rfl
  have hsz : UInt16.size = 65536 := rfl
  have hlim : (o + l).toNat = o.toNat + l.toNat := by
    rw [UInt16.toNat_add]
    omega
  have hdest : (o + newLength).toNat = o.toNat + newLength.toNat := by
    rw [UInt16.toNat_add]
    omega
  obtain ⟨b, hmove, hblen, hbag, hbread⟩ := Bytes.move_spec (b := p.bytes)
    (show (o + l).toNat ≤ p.trailer.boundary.toNat by omega) (by omega)
    (show (o + newLength).toNat + (p.trailer.boundary.toNat - (o + l).toNat) ≤ p.bytes.length by omega)
  refine ⟨hlim, hdest, b, by rw [move, run_get_bind, hmove]; rfl, hblen.trans hsize,
    hbag.mono (by omega) (by omega), ?_⟩
  intro i k hi hik
  have := hbread (i - (o + l).toNat) k (by omega)
  rwa [show (o + newLength).toNat + (i - (o + l).toNat) = i + newLength.toNat - l.toNat by omega,
    show (o + l).toNat + (i - (o + l).toNat) = i by omega] at this

theorem Lists.run_move (h : p.Lists slots)
    (hlow : p.trailer.boundary.toNat ≤ directoryStart slots.length) (newLength : UInt16)
    (hin : o.toNat + l.toNat ≤ p.trailer.boundary.toNat)
    (hfit : p.trailer.boundary.toNat + newLength.toNat ≤ directoryStart slots.length + l.toNat) :
    (o + l).toNat = o.toNat + l.toNat ∧ (o + newLength).toNat = o.toNat + newLength.toNat
      ∧ ∃ b, move (o + l).toNat p.trailer.boundary.toNat (o + newLength).toNat p
          = .ok () (p.withBytes b)
        ∧ (p.withBytes b).Lists slots
        ∧ (∀ i k, i + k ≤ o.toNat → b.slice i k = p.bytes.slice i k)
        ∧ ∀ i k, o.toNat + l.toNat ≤ i → i + k ≤ p.trailer.boundary.toNat →
          b.slice (i + newLength.toNat - l.toNat) k = p.bytes.slice i k := by
  have hall := h.low_le
  obtain ⟨hlim, hdest, b, hmove, hsize, hag, hbehind⟩ :=
    SlottedPage.run_move h.size (by omega) hlow newLength hin hfit
  exact ⟨hlim, hdest, b, hmove, h.of_agree rfl (hsize.trans h.size.symm) hag (.inl (Nat.le_refl _)),
    fun i k hik => hag _ _ (.inl hik), hbehind⟩

theorem run_stretch_of_move {b c : Bytes} {newLength : UInt16}
    (hstop : (o + l).toNat = o.toNat + l.toNat) (hdest : (o + newLength).toNat = o.toNat + newLength.toNat)
    (hmove : move (o + l).toNat p.trailer.boundary.toNat (o + newLength).toNat p = .ok () (p.withBytes b))
    (hshift : shiftBodies n (o + l) l newLength (p.withBytes b) = .ok () (p.withBytes c)) :
    stretch n o l newLength p = .ok () (p.withBytes c) := by
  rw [stretch, run_bind (run_sum hstop p), run_bind (run_sum hdest p), run_get_bind, run_bind hmove]
  exact hshift

theorem Lists.run_stretch (h : p.Lists slots)
    (hlow : p.trailer.boundary.toNat ≤ directoryStart slots.length) (newLength : UInt16) (n : SlotNum)
    (hin : o.toNat + l.toNat ≤ p.trailer.boundary.toNat)
    (hfit : p.trailer.boundary.toNat + newLength.toNat ≤ directoryStart slots.length + l.toNat) :
    ∃ b, stretch n o l newLength p = .ok () (p.withBytes b)
      ∧ (p.withBytes b).Lists (shiftOthers n.toNat (o + l) l newLength slots)
      ∧ (∀ i k, i + k ≤ o.toNat → b.slice i k = p.bytes.slice i k)
      ∧ ∀ i k, o.toNat + l.toNat ≤ i → i + k ≤ p.trailer.boundary.toNat →
        b.slice (i + newLength.toNat - l.toNat) k = p.bytes.slice i k := by
  obtain ⟨hstop, hdest, b, hmove, hlists, hfront, hbehind⟩ := h.run_move hlow newLength hin hfit
  obtain ⟨c, hshift, hc, hcag⟩ := run_shiftBodies hlists n (o + l) l newLength
  refine ⟨c, run_stretch_of_move hstop hdest hmove hshift, hc, fun i k hik => ?_, fun i k hi hik => ?_⟩
  · rw [hcag _ _ (.inl (by omega)), bytes_withBytes, hfront i k hik]
  · rw [hcag _ _ (.inl (by omega)), bytes_withBytes, hbehind i k hi hik]

/-- The other slots, shifted, stand for what they stood for, where their bytes moved along. -/
theorem Holds.cell_shift (h : p.Holds slots free) (newLength : UInt16)
    (hn : bodyAt slots n.toNat = some (o, l))
    (hfit : p.trailer.boundary.toNat + newLength.toNat ≤ directoryStart slots.length + l.toNat)
    {b : Bytes} (hfront : ∀ i k, i + k ≤ o.toNat → b.slice i k = p.bytes.slice i k)
    (hbehind : ∀ i k, o.toNat + l.toNat ≤ i → i + k ≤ p.trailer.boundary.toNat →
      b.slice (i + newLength.toNat - l.toNat) k = p.bytes.slice i k)
    {m : Nat} {s : Slot} (hm : m ≠ n.toNat) (hs : slots[m]? = some s) :
    (s.shift (o + l) l newLength).cell b = s.cell p.bytes := by
  have hbound := h.boundary_lt
  have hall := h.lists.low_le
  have hps : pageSize = 4096 := rfl
  have hsz : UInt16.size = 65536 := rfl
  have hin := h.tiled.inside n.toNat o l hn
  cases hb : s.body? with
  | none =>
    rw [Slot.shift, hb]
    exact Slot.cell_congr fun _ _ hb' => by rw [hb] at hb'; cases hb'
  | some body =>
    obtain ⟨a, k⟩ := body
    have ha : bodyAt slots m = some (a, k) := by rw [bodyAt, hs]; exact hb
    have hle := h.tiled.inside m a k ha
    have hble := h.boundary_le
    rw [Slot.shift_of_body hb]
    apply Slot.cell_withBody hb (by omega)
    rcases h.tiled.shifted_cases hn newLength (by omega) hm ha rfl with ⟨he, hbefore⟩ | ⟨hafter, he⟩
    · rw [he, hfront _ _ hbefore]
    · rw [he, hbehind _ _ hafter hle]

theorem Holds.run_stretch (h : p.Holds slots free) (newLength : UInt16)
    (hn : bodyAt slots n.toNat = some (o, l))
    (hfit : p.trailer.boundary.toNat + newLength.toNat ≤ directoryStart slots.length + l.toNat) :
    ∃ b, stretch n o l newLength p = .ok () (p.withBytes b)
      ∧ (p.withBytes b).Lists (shiftOthers n.toNat (o + l) l newLength slots)
      ∧ ∀ m s, m ≠ n.toNat → slots[m]? = some s →
        (s.shift (o + l) l newLength).cell b = s.cell p.bytes := by
  obtain ⟨b, hrun, hb, hfront, hbehind⟩ :=
    h.lists.run_stretch h.low newLength n (h.tiled.inside _ o l hn) hfit
  exact ⟨b, hrun, hb, fun m s hm hs => h.cell_shift newLength hn hfit hfront hbehind hm hs⟩

end SlottedPage

end Tablespace
