import Mathlib.Data.Nat.Bitwise
import Tablespace.Record.NullBitmap

/-!
# Bits of null bitmaps

A bitmap is known by its length and by the fields that it calls null. The
bitmap that is built from flags calls null what the flags say, and so does one
whose bits past the last field were cleared.
-/

namespace Tablespace

namespace NullBitmap

/-- Clears the bits past the last field in the last byte of the bitmap at the front of a tuple. -/
def clearPadding (fieldCount : Nat) (tuple : Bytes) : Bytes :=
  if fieldCount % 8 = 0 then tuple
  else tuple.modify (fieldCount / 8) (· &&& ~~~(0xFF >>> UInt8.ofNat (fieldCount % 8)))

theorem toNat_mask (i : Nat) : (mask i).toNat = 2 ^ (7 - i % 8) := by
  have htable : ∀ k < 8, ((0x80 : UInt8) >>> UInt8.ofNat k).toNat = 2 ^ (7 - k) := by decide
  exact htable (i % 8) (Nat.mod_lt _ (by decide))

theorem toNat_keepMask {n : Nat} (hn : n % 8 ≠ 0) (i : Nat) :
    (~~~((0xFF : UInt8) >>> UInt8.ofNat (n % 8))).toNat.testBit (7 - i % 8) = decide (i % 8 < n % 8) := by
  have htable : ∀ k < 8, ∀ j < 8, k ≠ 0 →
      (~~~((0xFF : UInt8) >>> UInt8.ofNat k)).toNat.testBit (7 - j) = decide (j < k) := by decide
  exact htable _ (Nat.mod_lt _ (by decide)) _ (Nat.mod_lt _ (by decide)) hn

theorem isNull_eq (b : Bytes) (i : Nat) :
    isNull b i = (b[i / 8]?.map fun x => x.toNat.testBit (7 - i % 8)).getD false := by
  unfold isNull
  cases hx : b[i / 8]? with
  | none => rfl
  | some x =>
    simp only [Option.map_some, Option.getD_some]
    have hand : x &&& mask i ≠ 0 ↔ x.toNat.testBit (7 - i % 8) = true := by
      rw [Ne, ← UInt8.toNat_inj, UInt8.toNat_and, toNat_mask, Nat.and_two_pow]
      cases x.toNat.testBit (7 - i % 8) <;> simp
    cases hb : x.toNat.testBit (7 - i % 8) with
    | true => exact decide_eq_true (hand.mpr hb)
    | false => exact decide_eq_false fun hne => by rw [hand.mp hne] at hb; cases hb

theorem isNull_append {b rest : Bytes} {i : Nat} (h : i < 8 * b.length) :
    isNull (b ++ rest) i = isNull b i := by
  rw [isNull_eq, isNull_eq, List.getElem?_append_left (by omega)]

theorem ext_of_isNull {b b' : Bytes} (hlen : b.length = b'.length)
    (h : ∀ i, isNull b i = isNull b' i) : b = b' := by
  apply List.ext_getElem hlen
  intro k hk hk'
  rw [← UInt8.toNat_inj]
  apply Nat.eq_of_testBit_eq
  intro j
  by_cases hj : j < 8
  · have hi := h (8 * k + (7 - j))
    have hdiv : (8 * k + (7 - j)) / 8 = k := by omega
    have hmod : 7 - (8 * k + (7 - j)) % 8 = j := by omega
    rw [isNull_eq, isNull_eq, hdiv, hmod, List.getElem?_eq_getElem hk, List.getElem?_eq_getElem hk'] at hi
    exact hi
  · have hpow : 2 ^ 8 ≤ 2 ^ j := Nat.pow_le_pow_right (by decide) (by omega)
    rw [Nat.testBit_lt_two_pow (Nat.lt_of_lt_of_le (b[k]).toNat_lt hpow),
      Nat.testBit_lt_two_pow (Nat.lt_of_lt_of_le (b'[k]).toNat_lt hpow)]

theorem isNull_setNull {b : Bytes} {i : Nat} (h : i < 8 * b.length) (j : Nat) :
    isNull (setNull b i) j = (isNull b j || decide (i = j)) := by
  rw [isNull_eq, isNull_eq, setNull, List.getElem?_modify]
  by_cases hb : i / 8 = j / 8
  · have hlt : j / 8 < b.length := by omega
    rw [List.getElem?_eq_getElem hlt]
    simp only [if_pos hb, Option.map_eq_map, Option.map_some, Option.getD_some]
    rw [UInt8.toNat_or, Nat.testBit_or, toNat_mask, Nat.testBit_two_pow]
    congr 1
    apply decide_eq_decide.mpr
    omega
  · have hne : i ≠ j := by intro he; rw [he] at hb; exact hb rfl
    simp [hb, hne]

theorem length_foldl_setNull (flags : List (Bool × Nat)) (b : Bytes) :
    (flags.foldl (fun b (flag, i) => if flag then setNull b i else b) b).length = b.length := by
  induction flags generalizing b with
  | nil => rfl
  | cons f flags ih =>
    obtain ⟨flag, i⟩ := f
    rw [List.foldl_cons, ih]
    cases flag <;> simp

theorem length_ofFlags (flags : List Bool) : (ofFlags flags).length = size flags.length := by
  rw [ofFlags, length_foldl_setNull, Bytes.length_zeros]

theorem isNull_foldl_setNull (flags : List Bool) (k : Nat) (b : Bytes)
    (h : k + flags.length ≤ 8 * b.length) (j : Nat) :
    isNull ((flags.zipIdx k).foldl (fun b (flag, i) => if flag then setNull b i else b) b) j
      = (isNull b j || (decide (k ≤ j) && flags[j - k]?.getD false)) := by
  induction flags generalizing k b with
  | nil => simp
  | cons flag flags ih =>
    rw [List.length_cons] at h
    rw [List.zipIdx_cons, List.foldl_cons]
    simp only
    rw [ih (k + 1) _ (by cases flag <;> simp <;> omega)]
    have hfirst : isNull (if flag then setNull b k else b) j = (isNull b j || (flag && decide (k = j))) := by
      cases flag with
      | true => simp only [if_true, Bool.true_and]; exact isNull_setNull (by omega) j
      | false => simp
    rw [hfirst]
    rcases Nat.lt_trichotomy j k with hj | hj | hj
    · simp [Nat.not_le_of_lt hj, Nat.ne_of_gt hj, show ¬ k + 1 ≤ j by omega]
    · subst hj
      simp
    · obtain ⟨d, rfl⟩ : ∃ d, j = k + 1 + d := ⟨j - (k + 1), by omega⟩
      simp [show k + 1 + d - k = d + 1 by omega, show k ≠ k + 1 + d by omega,
        show k ≤ k + 1 + d by omega]

theorem isNull_ofFlags (flags : List Bool) (j : Nat) : isNull (ofFlags flags) j = flags[j]?.getD false := by
  have hroom : 0 + flags.length ≤ 8 * (Bytes.zeros (size flags.length)).length := by
    rw [Bytes.length_zeros, size]
    omega
  rw [ofFlags, isNull_foldl_setNull flags 0 _ hroom j]
  have hzero : isNull (Bytes.zeros (size flags.length)) j = false := by
    rw [isNull_eq, Bytes.zeros, List.getElem?_replicate]
    split <;> simp
  simp [hzero]

theorem map_isNull_ofFlags (flags : List Bool) :
    (List.range' 0 flags.length).map (isNull (ofFlags flags)) = flags := by
  refine List.ext_getElem (by simp) fun k _ hk => ?_
  rw [List.getElem_map, List.getElem_range', isNull_ofFlags, Nat.zero_add, Nat.one_mul,
    List.getElem?_eq_getElem hk, Option.getD_some]

@[simp] theorem length_clearPadding (n : Nat) (b : Bytes) : (clearPadding n b).length = b.length := by
  unfold clearPadding
  split <;> simp

theorem isNull_clearPadding {n : Nat} {b : Bytes} (hb : b.length = size n) (j : Nat) :
    isNull (clearPadding n b) j = (isNull b j && decide (j < n)) := by
  unfold size at hb
  unfold clearPadding
  by_cases hn : n % 8 = 0
  · rw [if_pos hn]
    by_cases hj : j < n
    · simp [hj]
    · have hpast : b[j / 8]? = none := List.getElem?_eq_none (by omega)
      simp [isNull_eq, hpast]
  · rw [if_neg hn, isNull_eq, isNull_eq, List.getElem?_modify]
    by_cases hlast : n / 8 = j / 8
    · have hlt : j / 8 < b.length := by omega
      rw [List.getElem?_eq_getElem hlt]
      simp only [if_pos hlast, Option.map_eq_map, Option.map_some, Option.getD_some]
      rw [UInt8.toNat_and, Nat.testBit_and, toNat_keepMask hn]
      congr 1
      apply decide_eq_decide.mpr
      omega
    · simp only [if_neg hlast, Option.map_eq_map, Option.map_id']
      by_cases hj : j < n
      · simp [hj]
      · have hpast : b[j / 8]? = none := List.getElem?_eq_none (by omega)
        simp [hpast]

theorem clearPadding_eq_self_iff {n : Nat} {b : Bytes} (hb : b.length = size n) :
    clearPadding n b = b ↔ ∀ i, n ≤ i → i < 8 * size n → isNull b i = false := by
  constructor
  · intro h i hi _
    rw [← h, isNull_clearPadding hb, decide_eq_false (Nat.not_lt.mpr hi), Bool.and_false]
  · intro h
    apply ext_of_isNull (length_clearPadding n b)
    intro j
    rw [isNull_clearPadding hb]
    rcases Nat.lt_or_ge j n with hj | hj
    · simp [hj]
    · rcases Nat.lt_or_ge j (8 * size n) with hin | hpast
      · simp [h j hj hin]
      · have : b[j / 8]? = none := List.getElem?_eq_none (by omega)
        simp [isNull_eq, this]

/-- A bitmap that is rebuilt from what it calls null loses its padding. -/
theorem ofFlags_isNull {n : Nat} {b : Bytes} (hb : b.length = size n) :
    ofFlags ((List.range n).map (isNull b)) = clearPadding n b := by
  apply ext_of_isNull
  · simp [length_ofFlags, hb]
  · intro j
    rw [isNull_ofFlags, isNull_clearPadding hb, List.getElem?_map]
    by_cases hj : j < n <;> simp [hj]

end NullBitmap

end Tablespace
