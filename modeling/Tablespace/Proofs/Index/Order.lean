import Mathlib.Order.Defs.PartialOrder
import Mathlib.Tactic.Tauto
import Tablespace.Index.Key

/-!
# The order of keys

Keys are preordered and any two can be compared. Keys that tie need not be
equal: the zeros of either sign tie, and nothing else of different bits does.
-/

namespace Tablespace

open Std

instance : TransOrd Single where
  eq_swap {x _} := (OrientedCmp.eq_swap : compare x.rank _ = _)
  isLE_trans {x _ z} hxy hyz :=
    (TransCmp.isLE_trans hxy hyz : (compare x.rank z.rank).isLE = true)

namespace Key

variable {k l m : Key}

theorem rank_le_of_isLE (h : (compare k l).isLE = true) : k.rank ≤ l.rank := by
  cases k <;> cases l
  case real.int => cases h
  case varchar.int => cases h
  case varchar.real => cases h
  all_goals simp [rank]

theorem isLE_of_rank_lt (h : k.rank < l.rank) : (compare k l).isLE = true := by
  cases k <;> cases l <;> simp [rank] at h
  all_goals rfl

instance : TransOrd Key where
  eq_swap {k l} := by
    cases k <;> cases l
    case int.int i j => exact (OrientedCmp.eq_swap : compare i.toInt j.toInt = _)
    case real.real x y => exact (OrientedCmp.eq_swap : compare x y = _)
    case varchar.varchar b c => exact (OrientedCmp.eq_swap : compare b c = _)
    all_goals rfl
  isLE_trans {k l m} hkl hlm := by
    rcases Nat.lt_or_eq_of_le (Nat.le_trans (rank_le_of_isLE hkl) (rank_le_of_isLE hlm)) with hlt | heq
    · exact isLE_of_rank_lt hlt
    · have hl : l.rank = k.rank := by
        have := rank_le_of_isLE hkl
        have := rank_le_of_isLE hlm
        omega
      -- Keys of one type are left.
      cases k <;> cases l <;> simp [rank] at hl <;> cases m <;> simp [rank] at heq
      case int.int.int i j n => exact (TransCmp.isLE_trans hkl hlm : (compare i.toInt n.toInt).isLE = true)
      case real.real.real x y z => exact (TransCmp.isLE_trans hkl hlm : (compare x z).isLE = true)
      case varchar.varchar.varchar b c d =>
        exact (TransCmp.isLE_trans hkl hlm : (compare b d).isLE = true)

theorem compare_swap (k l : Key) : compare k l = (compare l k).swap := OrientedCmp.eq_swap

instance : Preorder Key where
  le k l := (compare k l).isLE = true
  lt k l := k.precedes l = true
  le_refl k := ReflCmp.isLE_rfl
  le_trans k l m hkl hlm := TransCmp.isLE_trans hkl hlm
  lt_iff_le_not_ge k l := by
    unfold precedes
    rw [compare_swap l k]
    cases compare k l <;> simp

instance : DecidableLE Key := fun k l => inferInstanceAs (Decidable ((compare k l).isLE = true))

instance : DecidableLT Key := fun k l => inferInstanceAs (Decidable (k.precedes l = true))

theorem le_total (k l : Key) : k ≤ l ∨ l ≤ k := by
  change (compare k l).isLE = true ∨ (compare l k).isLE = true
  rw [compare_swap l k]
  cases compare k l <;> simp

theorem precedes_iff : k.precedes l = true ↔ k < l := Iff.rfl

theorem ties_iff : k.ties l = true ↔ k ≤ l ∧ l ≤ k := by
  change (compare k l).isEq = true ↔ (compare k l).isLE = true ∧ (compare l k).isLE = true
  rw [compare_swap l k]
  cases compare k l <;> simp

theorem not_lt : ¬ k < l ↔ l ≤ k := by
  rw [lt_iff_le_not_ge]
  have := le_total k l
  tauto

theorem precedes_eq_false_iff : k.precedes l = false ↔ l ≤ k := by
  rw [← Bool.not_eq_true, precedes_iff, not_lt]

end Key

end Tablespace
