import Tablespace.Proofs.Page.Directory

/-!
# Shifting bodies

When a body gets another length all that lies behind it moves: first the bytes,
then slot by slot the offsets. Afterwards every other slot finds the bytes that
it had.
-/

namespace Tablespace

open Bytes (AgreeOff)

/-- The slot of a body that moves from behind `length` bytes to behind `newLength` bytes, if it
starts at or past `limit`. -/
def Slot.shift (limit length newLength : UInt16) (s : Slot) : Slot :=
  match s.body? with
  | some (offset, size) =>
    if limit ≤ offset then s.withBody (offset + newLength - length) size else s
  | none => s

namespace SlottedPage

variable {p : SlottedPage} {slots : List Slot} {n skip : SlotNum} {s : Slot}
  {limit length newLength : UInt16}

theorem run_shiftBody (h : p.Lists slots) (hn : slots[n.toNat]? = some s)
    (limit length newLength : UInt16) :
    ∃ b, shiftBody limit length newLength n p = .ok () (p.withBytes b)
      ∧ (p.withBytes b).Lists (slots.set n.toNat (s.shift limit length newLength))
      ∧ AgreeOff (directoryStart slots.length) Trailer.offset p.bytes b := by
  have hlt := lt_of_getElem?_eq_some hn
  have stay : s.shift limit length newLength = s → slots.set n.toNat (s.shift limit length newLength)
      = slots := by
    intro hs
    rw [hs]
    obtain ⟨_, rfl⟩ := List.getElem?_eq_some_iff.mp hn
    exact List.set_getElem_self hlt
  rw [shiftBody, run_bind (h.run_readSlot hn)]
  unfold Slot.shift at stay ⊢
  cases hb : s.body? with
  | none =>
    simp only [hb] at stay ⊢
    exact ⟨p.bytes, rfl, by rw [stay trivial]; exact h, AgreeOff.refl _ _ _⟩
  | some body =>
    obtain ⟨offset, size⟩ := body
    simp only [hb] at stay ⊢
    by_cases hl : limit ≤ offset
    · simp only [hl, if_true]
      exact h.run_setSlot hlt _
    · simp only [hl, if_false] at stay ⊢
      exact ⟨p.bytes, rfl, by rw [stay trivial]; exact h, AgreeOff.refl _ _ _⟩

/-- The slots with those of some numbers shifted. -/
def shiftAmong (limit length newLength : UInt16) (ns : List SlotNum) (slots : List Slot) : List Slot :=
  slots.mapIdx fun m s => if UInt16.ofNat m ∈ ns then s.shift limit length newLength else s

theorem shiftAmong_cons {ns : List SlotNum} (hsize : slots.length ≤ UInt16.size)
    (hn : slots[n.toNat]? = some s) (hnot : n ∉ ns) :
    shiftAmong limit length newLength ns (slots.set n.toNat (s.shift limit length newLength))
      = shiftAmong limit length newLength (n :: ns) slots := by
  apply List.ext_getElem?
  intro m
  simp only [shiftAmong, List.getElem?_mapIdx]
  by_cases hm : m = n.toNat
  · subst hm
    rw [List.getElem?_set_self (lt_of_getElem?_eq_some hn), hn]
    simp [hnot]
  · rw [List.getElem?_set_ne (Ne.symm hm)]
    rcases Nat.lt_or_ge m slots.length with hlt | hge
    · have hne : UInt16.ofNat m ≠ n := by
        intro he
        apply hm
        rw [← he, toNat_ofNat_of_lt (by omega)]
      simp [hne]
    · rw [List.getElem?_eq_none hge, Option.map_none, Option.map_none]

theorem run_forM_shiftBody (limit length newLength : UInt16) :
    ∀ (ns : List SlotNum) {p : SlottedPage} {slots : List Slot}, p.Lists slots → ns.Nodup →
      (∀ n ∈ ns, n.toNat < slots.length) →
      ∃ b, ns.forM (shiftBody limit length newLength) p = .ok () (p.withBytes b)
        ∧ (p.withBytes b).Lists (shiftAmong limit length newLength ns slots)
        ∧ AgreeOff (directoryStart slots.length) Trailer.offset p.bytes b
  | [], p, slots, h, _, _ => by
    refine ⟨p.bytes, rfl, ?_, AgreeOff.refl _ _ _⟩
    have : shiftAmong limit length newLength [] slots = slots := by
      apply List.ext_getElem?
      intro m
      cases hm : slots[m]? <;> simp [shiftAmong, hm]
    rw [this]
    exact h
  | n :: ns, p, slots, h, hnd, hlt => by
    obtain ⟨hnot, hnd⟩ := List.nodup_cons.mp hnd
    have hn := List.getElem?_eq_getElem (hlt n (List.mem_cons_self ..))
    obtain ⟨b, hrun, hb, hag⟩ := run_shiftBody h hn limit length newLength
    obtain ⟨c, hruns, hc, hags⟩ := run_forM_shiftBody limit length newLength ns hb hnd
      (by simpa using fun m hm => hlt m (List.mem_cons_of_mem _ hm))
    have hsize : slots.length ≤ UInt16.size := by
      rw [← h.count]
      exact Nat.le_of_lt p.trailer.slotCount.toNat_lt
    rw [shiftAmong_cons hsize hn hnot] at hc
    rw [List.length_set] at hags
    exact ⟨c, (run_bind hrun).trans hruns, hc, hag.trans hags⟩

theorem nodup_slotNums (p : SlottedPage) : p.slotNums.Nodup := by
  refine List.pairwise_map.mpr (List.nodup_range.imp_of_mem ?_)
  intro a b ha hb hab he
  have hsize := p.trailer.slotCount.toNat_lt
  rw [List.mem_range] at ha hb
  apply hab
  rw [← toNat_ofNat_of_lt (Nat.lt_trans ha hsize), he, toNat_ofNat_of_lt (Nat.lt_trans hb hsize)]

theorem mem_slotNums : n ∈ p.slotNums ↔ n < p.trailer.slotCount := by
  have hsize := p.trailer.slotCount.toNat_lt
  simp only [slotNums, List.mem_map, List.mem_range, UInt16.lt_iff_toNat_lt]
  constructor
  · rintro ⟨i, hi, rfl⟩
    rwa [toNat_ofNat_of_lt (Nat.lt_trans hi hsize)]
  · exact fun hn => ⟨n.toNat, hn, UInt16.ofNat_toNat⟩

theorem Lists.lt_slotCount (h : p.Lists slots) : n < p.trailer.slotCount ↔ n.toNat < slots.length := by
  rw [UInt16.lt_iff_toNat_lt, h.count]

theorem mem_others : n ∈ p.slotNums.filter (· ≠ skip) ↔ n < p.trailer.slotCount ∧ n ≠ skip := by
  rw [List.mem_filter, mem_slotNums, decide_eq_true_eq]

theorem nodup_others (p : SlottedPage) (skip : SlotNum) : (p.slotNums.filter (· ≠ skip)).Nodup :=
  (nodup_slotNums p).filter _

/-- The slots with all but one shifted. -/
def shiftOthers (skip : Nat) (limit length newLength : UInt16) (slots : List Slot) : List Slot :=
  slots.mapIdx fun m s => if m = skip then s else s.shift limit length newLength

theorem run_shiftBodies (h : p.Lists slots) (skip : SlotNum) (limit length newLength : UInt16) :
    ∃ b, shiftBodies skip limit length newLength p = .ok () (p.withBytes b)
      ∧ (p.withBytes b).Lists (shiftOthers skip.toNat limit length newLength slots)
      ∧ AgreeOff (directoryStart slots.length) Trailer.offset p.bytes b := by
  have hsize : slots.length ≤ UInt16.size := by
    rw [← h.count]
    exact Nat.le_of_lt p.trailer.slotCount.toNat_lt
  have hmem : ∀ m, m ∈ p.slotNums.filter (· ≠ skip) ↔ m.toNat < slots.length ∧ m ≠ skip :=
    fun m => by rw [mem_others, h.lt_slotCount]
  obtain ⟨b, hrun, hb, hag⟩ := run_forM_shiftBody limit length newLength _ h (nodup_others p skip)
    fun m hm => ((hmem m).mp hm).1
  refine ⟨b, ?_, ?_, hag⟩
  · rw [shiftBodies, run_get_bind]
    exact hrun
  · have : shiftAmong limit length newLength (p.slotNums.filter (· ≠ skip)) slots
        = shiftOthers skip.toNat limit length newLength slots := by
      apply List.ext_getElem?
      intro m
      simp only [shiftAmong, shiftOthers, List.getElem?_mapIdx, hmem]
      rcases Nat.lt_or_ge m slots.length with hlt | hge
      · have hm := toNat_ofNat_of_lt (Nat.lt_of_lt_of_le hlt hsize)
        have : UInt16.ofNat m = skip ↔ m = skip.toNat := by
          rw [← UInt16.toNat_inj, hm]
        by_cases hs : m = skip.toNat <;> simp [hm, hlt, this, hs]
      · rw [List.getElem?_eq_none hge, Option.map_none, Option.map_none]
    rw [← this]
    exact hb

end SlottedPage

end Tablespace
