import Tablespace.Bytes

/-!
# Windows of a buffer

What a write or a move leaves in the other windows of a buffer, and where the
bytes that were moved are read again.
-/

namespace Tablespace

namespace Bytes

variable {b c d out src : Bytes} {offset length lo hi start stop dest : Nat}

theorem slice_of_le (h : offset + length ≤ b.length) :
    b.slice offset length = .ok ((b.drop offset).take length) := if_pos h

theorem slice_eq_ok_iff :
    b.slice offset length = .ok out
      ↔ offset + length ≤ b.length ∧ (b.drop offset).take length = out := by
  unfold slice
  split
  · simp [*]
  · simp only [reduceCtorEq, false_iff, not_and]
    intro h
    exact absurd h ‹_›

theorem slice_middle (x y z : Bytes) : (x ++ y ++ z).slice x.length y.length = .ok y := by
  refine slice_eq_ok_iff.mpr ⟨?_, ?_⟩
  · rw [List.length_append, List.length_append]
    omega
  · simp

theorem overwrite_middle (x y z : Bytes) (h : src.length = y.length) :
    (x ++ y ++ z).overwrite x.length src = x ++ src ++ z := by
  rw [overwrite_eq, h, List.append_assoc x y, List.take_left, ← List.length_append, ← List.append_assoc, List.drop_left]

theorem slice_slice (h : b.slice offset length = .ok out) {i k : Nat} (hk : i + k ≤ length) :
    out.slice i k = b.slice (offset + i) k := by
  obtain ⟨hle, rfl⟩ := slice_eq_ok_iff.mp h
  have hlen : ((b.drop offset).take length).length = length := by
    rw [List.length_take, List.length_drop]
    omega
  rw [slice_of_le (by omega), slice_of_le (by omega), List.drop_take, List.take_take, List.drop_drop,
    Nat.min_eq_left (by omega)]

theorem slice_overwrite_inside (h : offset + src.length ≤ b.length) {i k : Nat}
    (hk : i + k ≤ src.length) :
    (b.overwrite offset src).slice (offset + i) k = src.slice i k :=
  (slice_slice (slice_overwrite h) hk).symm

theorem write_of_le (h : offset + src.length ≤ b.length) :
    b.write offset src = .ok (b.overwrite offset src) := if_pos h

/-! ## Agreement -/

/-- The buffers have the same windows in front of `lo` and behind `hi`. -/
def AgreeOff (lo hi : Nat) (b c : Bytes) : Prop :=
  ∀ offset length, offset + length ≤ lo ∨ hi ≤ offset → c.slice offset length = b.slice offset length

theorem AgreeOff.refl (lo hi : Nat) (b : Bytes) : AgreeOff lo hi b b := fun _ _ _ => rfl

theorem AgreeOff.trans (hb : AgreeOff lo hi b c) (hc : AgreeOff lo hi c d) : AgreeOff lo hi b d :=
  fun o l h => (hc o l h).trans (hb o l h)

theorem AgreeOff.mono {lo' hi' : Nat} (h : AgreeOff lo hi b c) (hlo : lo' ≤ lo) (hhi : hi ≤ hi') :
    AgreeOff lo' hi' b c := fun o l ho => h o l (by omega)

theorem agreeOff_overwrite (h : offset + src.length ≤ b.length) :
    AgreeOff offset (offset + src.length) b (b.overwrite offset src) :=
  fun _ _ ho => slice_overwrite_of_disjoint h ho

/-! ## Moves -/

/-- A move within the buffer keeps what lies in front of its destination and behind its end, and
its bytes are read again at the destination. -/
theorem move_spec (hs : start ≤ stop) (hstop : stop ≤ b.length)
    (hd : dest + (stop - start) ≤ b.length) :
    ∃ c, b.move start stop dest = .ok c ∧ c.length = b.length
      ∧ AgreeOff dest (dest + (stop - start)) b c
      ∧ ∀ i k, start + i + k ≤ stop → c.slice (dest + i) k = b.slice (start + i) k := by
  have hsrc := slice_of_le (show start + (stop - start) ≤ b.length by omega)
  have hlen := length_of_slice hsrc
  have hw : dest + ((b.drop start).take (stop - start)).length ≤ b.length := by omega
  refine ⟨b.overwrite dest ((b.drop start).take (stop - start)), ?_, length_overwrite hw, ?_, ?_⟩
  · rw [move, if_pos hs, hsrc]
    exact write_of_le hw
  · simpa only [hlen] using agreeOff_overwrite hw
  · intro i k hik
    rw [slice_overwrite_inside hw (by omega), slice_slice hsrc (by omega)]

theorem exists_move_iff : (∃ c, b.move start stop dest = .ok c)
    ↔ start ≤ stop ∧ stop ≤ b.length ∧ dest + (stop - start) ≤ b.length := by
  constructor
  · rintro ⟨c, hc⟩
    unfold move at hc
    split at hc
    · rename_i hs
      cases hsrc : b.slice start (stop - start) with
      | error e =>
        rw [hsrc] at hc
        cases hc
      | ok src =>
        rw [hsrc] at hc
        have hlen := length_of_slice hsrc
        have hle := (slice_eq_ok_iff.mp hsrc).1
        change b.write dest src = .ok c at hc
        unfold write at hc
        split at hc
        · omega
        · cases hc
    · cases hc
  · rintro ⟨hs, hstop, hd⟩
    obtain ⟨c, hc, -⟩ := move_spec hs hstop hd
    exact ⟨c, hc⟩

end Bytes

end Tablespace
