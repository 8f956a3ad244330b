import Tablespace.Proofs.Index.NodePage
import Tablespace.Proofs.Index.Order
import Tablespace.Proofs.Record.Fields
import Tablespace.Proofs.Single.Order

/-!
# One order for records and indexes

A scan of records compares contents of fields, an index compares keys. The key
that is read from a buffer and the content that the buffer stands for are
ordered alike, so a condition and a range agree on what lies below a bound.
-/

namespace Tablespace

open Std

/-- A comparison that orders everything, up to ties that nothing else tells apart. -/
structure IsTotalPreorder {α : Type} (cmp : α → α → Ordering) : Prop where
  self : ∀ x, cmp x x = .eq
  swap : ∀ x y, cmp x y = (cmp y x).swap
  trans : ∀ x y z, (cmp x y).isLE = true → (cmp y z).isLE = true → (cmp x z).isLE = true
  lt_trans : ∀ x y z, cmp x y = .lt → cmp y z = .lt → cmp x z = .lt
  ties : ∀ x y z, cmp x y = .eq → cmp x z = cmp y z

theorem isTotalPreorder_of_transCmp {α : Type} (cmp : α → α → Ordering) [TransCmp cmp] : IsTotalPreorder cmp where
  self _ := ReflCmp.compare_self
  swap _ _ := OrientedCmp.eq_swap
  trans _ _ _ := TransCmp.isLE_trans
  lt_trans _ _ _ := TransCmp.lt_trans
  ties _ _ _ := TransCmp.congr_left

namespace Key

variable {a : Attribute} {b : Bytes} {k : Key} {type : AttributeType}

theorem content_of_ofBytes (h : ofBytes a b = .ok k) :
    ∃ x, keyContent a.type b = .ok x ∧ k = ofContent a.type x := by
  unfold ofBytes at h
  cases hcontent : keyContent a.type b with
  | error fault =>
    rw [hcontent] at h
    cases h
  | ok x =>
    rw [hcontent] at h
    simp only at h
    split at h
    · cases h
    · cases h
      exact ⟨x, rfl, rfl⟩

theorem length_keyContent {x : Bytes} (h : keyContent type b = .ok x) (htype : type ≠ .varchar) : x.length = 4 := by
  cases type with
  | varchar => exact absurd rfl htype
  | int | real =>
    unfold keyContent at h
    simp only at h
    split at h
    · cases h
      assumption
    · cases h

theorem uint32At_of_length {x : Bytes} (h : x.length = 4) : x.uint32At 0 = .ok (LittleEndian.toUInt32 x) := by
  rw [Bytes.uint32At, Bytes.slice_of_le (by omega), List.drop_zero, List.take_of_length_le (by omega)]
  rfl

/-- Contents and the keys of them are in the same order. -/
theorem compareContents_eq {c x y : Bytes} (hx : keyContent type b = .ok x) (hy : keyContent type c = .ok y) :
    compareContents type x y = compare (ofContent type x) (ofContent type y) := by
  unfold compareContents
  cases type with
  | varchar => rfl
  | int | real =>
    rw [uint32At_of_length (length_keyContent hx (by decide)),
      uint32At_of_length (length_keyContent hy (by decide))]
    rfl

/-- Keys of all types are in one order, which goes by the values of reals and by the patterns of
those that have none, and contents of fields are in the same order as the keys of their buffers. -/
theorem one_order :
    IsTotalPreorder (compare : Key → Key → Ordering)
    ∧ (∀ k l : Key, (k.ties l = true ↔ compare k l = .eq) ∧ (k.precedes l = true ↔ compare k l = .lt))
    ∧ (∀ x y : Single, compare (Key.real x) (Key.real y) = (x.compareValues? y).getD (x.comparePatterns y))
    ∧ ∀ a b c k l, ofBytes a b = .ok k → ofBytes a c = .ok l → ∃ x y, keyContent a.type b = .ok x
      ∧ keyContent a.type c = .ok y ∧ compareContents a.type x y = compare k l := by
  refine ⟨isTotalPreorder_of_transCmp compare, ?_, Single.compare_eq, ?_⟩
  · intro k l
    exact ⟨Ordering.isEq_iff_eq_eq, Ordering.isLT_iff_eq_lt⟩
  · intro a b c k l hk hl
    obtain ⟨x, hx, rfl⟩ := content_of_ofBytes hk
    obtain ⟨y, hy, rfl⟩ := content_of_ofBytes hl
    exact ⟨x, y, hx, hy, compareContents_eq hx hy⟩

/-- A NaN with a sign lies below all numbers, and the zeros tie. -/
theorem one_order_reals :
    (∃ x y, keyContent .real [1, 0, 0x80, 0xFF] = .ok x ∧ keyContent .real [0, 0, 0x80, 0xFF] = .ok y
      ∧ compareContents .real x y = .lt)
    ∧ ∃ x y, keyContent .real [0, 0, 0, 0x80] = .ok x ∧ keyContent .real [0, 0, 0, 0] = .ok y
      ∧ compareContents .real x y = .eq := by
  obtain ⟨-, -, -, hsame⟩ := one_order
  exact ⟨hsame ⟨"a", .real, 4⟩ _ _ (.real ⟨0xFF800001⟩) (.real ⟨0xFF800000⟩) rfl rfl,
    hsame ⟨"a", .real, 4⟩ _ _ (.real ⟨0x80000000⟩) (.real ⟨0⟩) rfl rfl⟩

end Key

/-! ## Operators -/

namespace Comparison

/-- How the keys stand to each other where the operator accepts the first against the second. -/
def Relates : Comparison → Key → Key → Prop
  | .eq, k, l => k ≤ l ∧ l ≤ k
  | .lt, k, l => k < l
  | .le, k, l => k ≤ l
  | .gt, k, l => l < k
  | .ge, k, l => l ≤ k
  | .ne, k, l => k < l ∨ l < k
  | .any, _, _ => True

theorem accepts_compare (c : Comparison) (k l : Key) : c.accepts (compare k l) = true ↔ c.Relates k l := by
  have hlt : l < k ↔ (compare k l).isGT = true := by
    rw [← Key.precedes_iff, Key.precedes, Key.compare_swap l k]
    cases compare k l <;> simp
  cases c with
  | eq => exact Key.ties_iff
  | lt => exact Iff.rfl
  | le => exact Iff.rfl
  | gt => exact hlt.symm
  | ge =>
    rw [Relates, ← Key.not_lt, accepts, ← Key.precedes_iff, Key.precedes]
    cases compare k l <;> simp
  | ne =>
    rw [Relates, hlt, accepts, ← Key.precedes_iff, Key.precedes]
    cases compare k l <;> simp
  | any => exact ⟨fun _ => trivial, fun _ => rfl⟩

end Comparison

/-- A condition on a tuple is a relation between the key of the field and that of the comparand. -/
theorem Tuple.meets_iff_relates {schema : Schema} {tuple key y : Bytes} {tested : String} {comparison : Comparison}
    {index : Nat} {a : Attribute} (hany : comparison ≠ .any) (hindex : schema.find tested = .ok index)
    (ha : schema[index]? = some a) (hkey : keyContent a.type key = .ok y) :
    Meets schema tuple tested comparison (some key) ↔ ∃ field x, fieldNamed schema tuple tested = some field
      ∧ keyContent a.type field = .ok x ∧ comparison.Relates (.ofContent a.type x) (.ofContent a.type y) := by
  rw [meets_iff hany hindex ha hkey]
  refine exists_congr fun field => exists_congr fun x => and_congr_right fun _ => and_congr_right fun hx => ?_
  rw [Key.compareContents_eq hx hkey, Comparison.accepts_compare]

end Tablespace
