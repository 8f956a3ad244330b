/-!
# Byte buffers

A buffer is a list of bytes. Every access names an offset and a length and
fails as a whole when any byte of it lies past the end; a write or a move
replaces bytes and keeps the size.
-/

namespace Tablespace

abbrev Bytes := List UInt8

/-- An access of `length` bytes at `offset` that leaves a buffer of `size` bytes. -/
structure OutOfBounds where
  offset : Nat
  length : Nat
  size : Nat
deriving DecidableEq, Repr

namespace Bytes

def slice (b : Bytes) (offset length : Nat) : Except OutOfBounds Bytes :=
  if offset + length ≤ b.length then .ok ((b.drop offset).take length)
  else .error ⟨offset, length, b.length⟩

/-- The buffer with `src` in place of the bytes from `offset` on. -/
def overwrite : Bytes → Nat → Bytes → Bytes
  | b, 0, src => src ++ b.drop src.length
  | [], _ + 1, src => src
  | x :: b, offset + 1, src => x :: overwrite b offset src

def write (b : Bytes) (offset : Nat) (src : Bytes) : Except OutOfBounds Bytes :=
  if offset + src.length ≤ b.length then .ok (b.overwrite offset src)
  else .error ⟨offset, src.length, b.length⟩

/-- Copies the bytes from `start` up to `stop` to `dest`; source and destination may overlap.
A reversed source range is reported as an empty access at its start. -/
def move (b : Bytes) (start stop dest : Nat) : Except OutOfBounds Bytes :=
  if start ≤ stop then do
    let src ← b.slice start (stop - start)
    b.write dest src
  else .error ⟨start, 0, b.length⟩

def zeros (n : Nat) : Bytes := List.replicate n 0

def cut? (n : Nat) (b : Bytes) : Option (Bytes × Bytes) :=
  let front := b.take n
  if front.length = n then some (front, b.drop n) else none

/-! ## Laws -/

@[simp] theorem length_zeros (n : Nat) : (zeros n).length = n := List.length_replicate

theorem length_of_slice {b : Bytes} {offset length : Nat} {out : Bytes}
    (h : b.slice offset length = .ok out) : out.length = length := by
  unfold slice at h
  split at h
  · cases h
    simp only [List.length_take, List.length_drop]
    omega
  · cases h

theorem overwrite_eq (b : Bytes) (offset : Nat) (src : Bytes) :
    b.overwrite offset src = b.take offset ++ src ++ b.drop (offset + src.length) := by
  fun_induction overwrite b offset src with
  | case1 => simp
  | case2 => simp
  | case3 x b offset src ih => simp [ih, Nat.add_right_comm]

theorem length_overwrite {b : Bytes} {offset : Nat} {src : Bytes}
    (h : offset + src.length ≤ b.length) : (b.overwrite offset src).length = b.length := by
  simp only [overwrite_eq, List.length_append, List.length_take, List.length_drop]
  omega

theorem slice_overwrite {b : Bytes} {offset : Nat} {src : Bytes}
    (h : offset + src.length ≤ b.length) :
    (b.overwrite offset src).slice offset src.length = .ok src := by
  rw [slice, if_pos (by rw [length_overwrite h]; exact h), overwrite_eq, List.append_assoc,
    List.drop_append, List.length_take, Nat.min_eq_left (by omega)]
  simp

/-- Bytes in front of a write stay, and so do those behind it. -/
theorem slice_overwrite_of_disjoint {b : Bytes} {offset : Nat} {src : Bytes}
    (h : offset + src.length ≤ b.length) {start length : Nat}
    (hd : start + length ≤ offset ∨ offset + src.length ≤ start) :
    (b.overwrite offset src).slice start length = b.slice start length := by
  have htake : (b.take offset).length = offset := by rw [List.length_take]; omega
  simp only [slice, length_overwrite h]
  split
  · rename_i hin
    congr 1
    rcases hd with hd | hd
    · rw [overwrite_eq, List.append_assoc, List.drop_append_of_le_length (by omega),
        List.take_append_of_le_length (by rw [List.length_drop]; omega), List.drop_take,
        List.take_take, Nat.min_eq_left (by omega)]
    · have hlen : (b.take offset ++ src).length = offset + src.length := by
        rw [List.length_append, htake]
      rw [overwrite_eq, List.drop_append, List.drop_eq_nil_of_le (by omega), List.nil_append, hlen,
        List.drop_drop]
      congr 2
      omega
  · rfl

theorem cut?_eq_some_iff {n : Nat} {b front rest : Bytes} :
    cut? n b = some (front, rest) ↔ b = front ++ rest ∧ front.length = n := by
  unfold cut?
  constructor
  · intro h
    dsimp only at h
    split at h
    · cases h
      exact ⟨(List.take_append_drop n b).symm, ‹_›⟩
    · cases h
  · rintro ⟨rfl, rfl⟩
    simp

end Bytes

end Tablespace
