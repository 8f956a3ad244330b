import Tablespace.Bytes

/-!
# Little-endian words

A number is stored low byte first, in a fixed count of bytes. Writing keeps
the number modulo the range of that count, and reading undoes it.
-/

namespace Tablespace

namespace LittleEndian

/-- The low `width` bytes of `n`, lowest first. -/
def ofNat : Nat → Nat → Bytes
  | 0, _ => []
  | width + 1, n => UInt8.ofNat n :: ofNat width (n / 256)

def toNat : Bytes → Nat
  | [] => 0
  | x :: b => x.toNat + 256 * toNat b

def range : Nat → Nat
  | 0 => 1
  | width + 1 => 256 * range width

def ofUInt16 (w : UInt16) : Bytes := ofNat 2 w.toNat
def ofUInt32 (w : UInt32) : Bytes := ofNat 4 w.toNat
def toUInt16 (b : Bytes) : UInt16 := UInt16.ofNat (toNat b)
def toUInt32 (b : Bytes) : UInt32 := UInt32.ofNat (toNat b)

@[simp] theorem length_ofNat (width n : Nat) : (ofNat width n).length = width := by
  induction width generalizing n with
  | zero => rfl
  | succ width ih => simp [ofNat, ih]

@[simp] theorem length_ofUInt16 (w : UInt16) : (ofUInt16 w).length = 2 := length_ofNat 2 _
@[simp] theorem length_ofUInt32 (w : UInt32) : (ofUInt32 w).length = 4 := length_ofNat 4 _

theorem toNat_ofNat (width n : Nat) : toNat (ofNat width n) = n % range width := by
  induction width generalizing n with
  | zero => simp [ofNat, toNat, range, Nat.mod_one]
  | succ width ih => rw [ofNat, toNat, range, ih, UInt8.toNat_ofNat', Nat.mod_mul]

theorem toNat_lt (b : Bytes) : toNat b < range b.length := by
  induction b with
  | nil => simp [toNat, range]
  | cons x b ih =>
    have := x.toNat_lt
    rw [toNat, List.length_cons, range]
    omega

theorem ofNat_toNat (b : Bytes) : ofNat b.length (toNat b) = b := by
  induction b with
  | nil => rfl
  | cons x b ih =>
    have hx := x.toNat_lt
    rw [List.length_cons, ofNat, toNat]
    congr 1
    · apply UInt8.toNat_inj.mp
      rw [UInt8.toNat_ofNat']
      omega
    · rw [Nat.add_mul_div_left _ _ (by decide), Nat.div_eq_of_lt hx, Nat.zero_add, ih]

theorem range_two : range 2 = UInt16.size := rfl

theorem range_four : range 4 = UInt32.size := rfl

@[simp] theorem toUInt16_ofUInt16 (w : UInt16) : toUInt16 (ofUInt16 w) = w := by
  rw [toUInt16, ofUInt16, toNat_ofNat, range_two, Nat.mod_eq_of_lt w.toNat_lt_size,
    UInt16.ofNat_toNat]

@[simp] theorem toUInt32_ofUInt32 (w : UInt32) : toUInt32 (ofUInt32 w) = w := by
  rw [toUInt32, ofUInt32, toNat_ofNat, range_four, Nat.mod_eq_of_lt w.toNat_lt_size,
    UInt32.ofNat_toNat]

theorem ofUInt32_toUInt32 {b : Bytes} (h : b.length = 4) : ofUInt32 (toUInt32 b) = b := by
  have hb : toNat b < UInt32.size := range_four ▸ h ▸ toNat_lt b
  rw [ofUInt32, toUInt32, UInt32.toNat_ofNat_of_lt' hb, ← h, ofNat_toNat]

end LittleEndian

/-! ## Words in a buffer -/

namespace Bytes

def uint8At (b : Bytes) (offset : Nat) : Except OutOfBounds UInt8 :=
  (b.slice offset 1).map fun s => s.headD 0

def uint16At (b : Bytes) (offset : Nat) : Except OutOfBounds UInt16 :=
  (b.slice offset 2).map LittleEndian.toUInt16

def uint32At (b : Bytes) (offset : Nat) : Except OutOfBounds UInt32 :=
  (b.slice offset 4).map LittleEndian.toUInt32

end Bytes

end Tablespace
