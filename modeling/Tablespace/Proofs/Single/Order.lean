import Tablespace.Single.Decimal

/-!
# The order of reals

Numbers are ordered by their values, so that the two zeros tie. A NaN has no
value: where it meets another real the patterns decide, by a total order that
goes from the negative NaNs over the numbers to the positive NaNs and has the
negative zero before the positive. The order by signed magnitude is the one
order among numbers and the other with a NaN.
-/

namespace Tablespace

namespace Single

/-- The absolute value in units of the least positive real. An infinity has the value that would
come after the largest finite one. -/
def units (x : Single) : Nat := x.significand <<< (x.exponent - 1)

def value (x : Single) : Int := if x.isNegative then -x.units else x.units

/-- The order of the values, none where a NaN has no value. -/
def compareValues? (x y : Single) : Option Ordering :=
  if x.isNaN || y.isNaN then none else some (compare x.value y.value)

/-- The place of a pattern among all, with the places below the positive zero for those with a sign. -/
def place (x : Single) : Int := if x.isNegative then -1 - x.magnitude else x.magnitude

def comparePatterns (x y : Single) : Ordering := compare x.place y.place

variable {x y : Single}

/-! ## Values -/

theorem units_of_small (h : x.magnitude < hiddenBit) : x.units = x.magnitude := by
  have hexponent : x.exponent = 1 := by
    rw [exponent, Nat.div_eq_of_lt h]
    rfl
  rw [units, significand, if_pos h, hexponent, Nat.sub_self, Nat.shiftLeft_zero]

theorem units_of_large (h : hiddenBit ≤ x.magnitude) :
    x.units = (hiddenBit + x.magnitude % hiddenBit) <<< (x.magnitude / hiddenBit - 1) := by
  have hexponent : x.exponent = x.magnitude / hiddenBit := by
    have := Nat.div_pos h (by decide)
    rw [exponent]
    omega
  rw [units, significand, if_neg (Nat.not_lt.mpr h), hexponent]

/-- A larger exponent makes a larger value, whatever the fractions are. -/
theorem units_lt_of_exponent {m n e e' : Nat} (hm : m < hiddenBit) (he : e < e') :
    (hiddenBit + m) <<< e < (hiddenBit + n) <<< e' := by
  rw [Nat.shiftLeft_eq, Nat.shiftLeft_eq]
  calc (hiddenBit + m) * 2 ^ e < (2 * hiddenBit) * 2 ^ e :=
        Nat.mul_lt_mul_of_pos_right (by omega) (Nat.two_pow_pos e)
    _ = hiddenBit * 2 ^ (e + 1) := by rw [Nat.pow_succ, Nat.mul_comm 2, Nat.mul_assoc, Nat.mul_comm 2]
    _ ≤ hiddenBit * 2 ^ e' := Nat.mul_le_mul_left _ (Nat.pow_le_pow_right Nat.two_pos he)
    _ ≤ (hiddenBit + n) * 2 ^ e' := Nat.mul_le_mul_right _ (Nat.le_add_right _ _)

theorem units_lt_of_magnitude_lt (h : x.magnitude < y.magnitude) : x.units < y.units := by
  have hfraction : x.magnitude % hiddenBit < hiddenBit := Nat.mod_lt _ (by decide)
  rcases Nat.lt_or_ge y.magnitude hiddenBit with hy | hy
  · rwa [units_of_small (Nat.lt_trans h hy), units_of_small hy]
  · rw [units_of_large hy]
    rcases Nat.lt_or_ge x.magnitude hiddenBit with hx | hx
    · rw [units_of_small hx, Nat.shiftLeft_eq]
      calc x.magnitude < hiddenBit * 1 := by omega
        _ ≤ (hiddenBit + y.magnitude % hiddenBit) * 2 ^ (y.magnitude / hiddenBit - 1) :=
          Nat.mul_le_mul (Nat.le_add_right _ _) (Nat.two_pow_pos _)
    · rw [units_of_large hx]
      have hexponent := Nat.div_le_div_right (c := hiddenBit) (Nat.le_of_lt h)
      have hpos := Nat.div_pos hx (by decide)
      rcases Nat.lt_or_eq_of_le hexponent with hlt | heq
      · exact units_lt_of_exponent hfraction (by omega)
      · have hx := Nat.div_add_mod x.magnitude hiddenBit
        have hy := Nat.div_add_mod y.magnitude hiddenBit
        rw [← heq] at hy ⊢
        rw [Nat.shiftLeft_eq, Nat.shiftLeft_eq]
        exact Nat.mul_lt_mul_of_pos_right (by omega) (Nat.two_pow_pos _)

theorem units_lt_iff : x.units < y.units ↔ x.magnitude < y.magnitude := by
  refine ⟨?_, units_lt_of_magnitude_lt⟩
  intro h
  rcases Nat.lt_trichotomy x.magnitude y.magnitude with hlt | heq | hgt
  · exact hlt
  · have : x.units = y.units := by simp only [units, significand, exponent, heq]
    omega
  · have := units_lt_of_magnitude_lt hgt
    omega

theorem units_pos_iff : 0 < x.units ↔ 0 < x.magnitude := @units_lt_iff ⟨0⟩ x

theorem value_lt_iff : x.value < y.value ↔ x.rank < y.rank := by
  have hxy := @units_lt_iff x y
  have hyx := @units_lt_iff y x
  have hx := @units_pos_iff x
  have hy := @units_pos_iff y
  unfold value rank
  split <;> split <;> omega

/-! ## Patterns -/

/-- The two zeros are the only patterns that tie by magnitude and not by place. -/
theorem place_lt_iff (h : 0 < x.magnitude ∨ 0 < y.magnitude) : x.place < y.place ↔ x.rank < y.rank := by
  unfold place rank
  split <;> split <;> omega

theorem magnitude_pos_of_isNaN (h : x.isNaN = true) : 0 < x.magnitude :=
  Nat.zero_lt_of_lt (of_decide_eq_true h)

/-! ## The order -/

theorem compare_of_lt_iff {i j k l : Int} (hlt : i < j ↔ k < l) (hgt : j < i ↔ l < k) :
    compare i j = compare k l := by
  simp only [Int.compare_eq_ite_lt, hlt, hgt]

/-- Reals compare by value, and by pattern where one of them has none. -/
theorem compare_eq (x y : Single) : compare x y = (x.compareValues? y).getD (x.comparePatterns y) := by
  unfold compareValues? comparePatterns
  by_cases hnan : (x.isNaN || y.isNaN) = true
  · have hpos : 0 < x.magnitude ∨ 0 < y.magnitude :=
      (Bool.or_eq_true_iff.mp hnan).imp magnitude_pos_of_isNaN magnitude_pos_of_isNaN
    rw [if_pos hnan]
    exact compare_of_lt_iff (place_lt_iff hpos).symm (place_lt_iff hpos.symm).symm
  · rw [if_neg hnan]
    exact compare_of_lt_iff value_lt_iff.symm value_lt_iff.symm

end Single

end Tablespace
