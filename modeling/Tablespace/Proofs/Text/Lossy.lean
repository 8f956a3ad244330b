import Mathlib.Data.List.Forall2
import Mathlib.Tactic.IntervalCases
import Tablespace.Text.Utf8

/-!
# Text that is shown as it is

The bytes of a text are cut back into its characters, so what is valid is shown
without a replacement character.
-/

namespace Tablespace.Utf8

variable {b : UInt8} {bs : Bytes} {code : Nat} {owed : List (UInt8 × UInt8)}

theorem piecesFrom_cons (pending : Option Pending) (b : UInt8) (rest : Bytes) :
    piecesFrom pending (b :: rest) = (step pending b).1 ++ piecesFrom (step pending b).2 rest := by
  cases pending <;> rfl

/-- A character is complete with the last of the bytes that it owes. -/
theorem piecesFrom_owed (hne : owed ≠ []) (h : List.Forall₂ (fun r b => r.1 ≤ b ∧ b ≤ r.2) owed bs)
    (length : Nat) (rest : Bytes) :
    piecesFrom (some ⟨code, length, owed⟩) (bs ++ rest)
      = .char (Char.ofNat (bs.foldl (fun code b => code * 64 + b.toNat % 64) code)) :: piecesFrom none rest := by
  induction h generalizing code length with
  | nil => exact absurd rfl hne
  | @cons range b owed bs hb howed ih =>
    rw [List.cons_append, piecesFrom_cons, step, if_pos hb]
    cases howed with
    | nil => rfl
    | cons hb' howed => exact ih (List.cons_ne_nil _ _) (length + 1)

theorem piecesFrom_lead (hlead : lead? b = some ⟨code, 1, owed⟩) (hne : owed ≠ [])
    (h : List.Forall₂ (fun r b => r.1 ≤ b ∧ b ≤ r.2) owed bs) (rest : Bytes) :
    piecesFrom none (b :: (bs ++ rest))
      = .char (Char.ofNat (bs.foldl (fun code b => code * 64 + b.toNat % 64) code)) :: piecesFrom none rest := by
  have hhigh : ¬ b < 0x80 := by
    intro hlow
    rw [lead?, if_pos (UInt8.lt_trans hlow (by decide))] at hlead
    cases hlead
  have hstep : step none b = ([], some ⟨code, 1, owed⟩) := by
    rw [step, start, if_neg hhigh, hlead]
  rw [piecesFrom_cons, hstep]
  exact piecesFrom_owed hne h 1 rest

/-! ## First bytes -/

/-- The range of the second byte of a character of three or four bytes. -/
def second (n : Nat) : UInt8 × UInt8 :=
  if n = 0xE0 then (0xA0, 0xBF)
  else if n = 0xED then (0x80, 0x9F)
  else if n = 0xF0 then (0x90, 0xBF)
  else if n = 0xF4 then (0x80, 0x8F)
  else tail

variable {n : Nat}

theorem lead?_two (h₁ : 0xC2 ≤ n) (h₂ : n ≤ 0xDF) : lead? (UInt8.ofNat n) = some ⟨n % 32, 1, [tail]⟩ := by
  interval_cases n <;> rfl

theorem lead?_three (h₁ : 0xE0 ≤ n) (h₂ : n ≤ 0xEF) :
    lead? (UInt8.ofNat n) = some ⟨n % 16, 1, [second n, tail]⟩ := by
  interval_cases n <;> rfl

theorem lead?_four (h₁ : 0xF0 ≤ n) (h₂ : n ≤ 0xF4) :
    lead? (UInt8.ofNat n) = some ⟨n % 8, 1, [second n, tail, tail]⟩ := by
  interval_cases n <;> rfl

theorem between_ofNat {low high : UInt8} (hn : n < 256) (h₁ : low.toNat ≤ n) (h₂ : n ≤ high.toNat) :
    low ≤ UInt8.ofNat n ∧ UInt8.ofNat n ≤ high := by
  rw [UInt8.le_iff_toNat_le, UInt8.le_iff_toNat_le, UInt8.toNat_ofNat_of_lt' hn]
  exact ⟨h₁, h₂⟩

theorem tail_ofNat (n : Nat) : tail.1 ≤ UInt8.ofNat (n % 64 + 128) ∧ UInt8.ofNat (n % 64 + 128) ≤ tail.2 :=
  between_ofNat (by omega) (by rw [tail]; simp) (by rw [tail]; simp; omega)

theorem toNat_tail (n : Nat) : (UInt8.ofNat (n % 64 + 128)).toNat % 64 = n % 64 := by
  rw [UInt8.toNat_ofNat_of_lt' (by rw [UInt8.size]; omega)]
  omega

/-- The second byte of a character keeps out what has a shorter form, the surrogates and what lies past the
last code point. -/
theorem second_ofNat {lead : Nat} (h₀ : lead = 0xE0 → 32 ≤ n % 64) (h₁ : lead = 0xED → n % 64 < 32)
    (h₂ : lead = 0xF0 → 16 ≤ n % 64) (h₃ : lead = 0xF4 → n % 64 < 16) :
    (second lead).1 ≤ UInt8.ofNat (n % 64 + 128) ∧ UInt8.ofNat (n % 64 + 128) ≤ (second lead).2 := by
  unfold second
  split_ifs with he hd hf hl
  · exact between_ofNat (by omega) (by have := h₀ he; simp; omega) (by simp; omega)
  · exact between_ofNat (by omega) (by simp) (by have := h₁ hd; simp; omega)
  · exact between_ofNat (by omega) (by have := h₂ hf; simp; omega) (by simp; omega)
  · exact between_ofNat (by omega) (by simp) (by have := h₃ hl; simp; omega)
  · exact tail_ofNat n

/-! ## Characters -/

theorem piecesFrom_ascii (h : n < 128) (rest : Bytes) :
    piecesFrom none (UInt8.ofNat n :: rest) = .char (Char.ofNat n) :: piecesFrom none rest := by
  have hn : (UInt8.ofNat n).toNat = n := UInt8.toNat_ofNat_of_lt' (Nat.lt_trans h (by decide))
  have hlow : UInt8.ofNat n < 0x80 := by
    rw [UInt8.lt_iff_toNat_lt, hn]
    exact h
  have hstep : step none (UInt8.ofNat n) = ([.char (Char.ofNat n)], none) := by
    rw [step, start, if_pos hlow, hn]
  rw [piecesFrom_cons, hstep]
  rfl

theorem piecesFrom_encodeChar (c : Char) (rest : Bytes) :
    piecesFrom none (String.utf8EncodeChar c ++ rest) = .char c :: piecesFrom none rest := by
  have hvalid : c.val.toNat < 0xD800 ∨ 0xDFFF < c.val.toNat ∧ c.val.toNat < 0x110000 := c.valid
  have hback : ∀ n, n = c.val.toNat → Char.ofNat n = c := by
    rintro n rfl
    exact Char.ofNat_toNat c
  unfold String.utf8EncodeChar
  generalize c.val.toNat = v at hvalid hback
  simp only
  split_ifs with h₁ h₂ h₃
  · rw [List.singleton_append, piecesFrom_ascii (by omega), hback v rfl]
  · have hlead := lead?_two (n := v / 64 % 32 + 192) (by omega) (by omega)
    refine (piecesFrom_lead hlead (List.cons_ne_nil _ _) (.cons (tail_ofNat v) .nil) rest).trans ?_
    rw [hback _ (by simp only [List.foldl, toNat_tail]; omega)]
  · have hlead := lead?_three (n := v / 4096 % 16 + 224) (by omega) (by omega)
    have hsecond := @second_ofNat (v / 64) (v / 4096 % 16 + 224) (by omega) (by omega) (by omega) (by omega)
    refine (piecesFrom_lead hlead (List.cons_ne_nil _ _) (.cons hsecond (.cons (tail_ofNat v) .nil)) rest).trans ?_
    rw [hback _ (by simp only [List.foldl, toNat_tail]; omega)]
  · have hlead := lead?_four (n := v / 262144 % 8 + 240) (by omega) (by omega)
    have hsecond := @second_ofNat (v / 4096) (v / 262144 % 8 + 240) (by omega) (by omega) (by omega) (by omega)
    refine (piecesFrom_lead hlead (List.cons_ne_nil _ _)
      (.cons hsecond (.cons (tail_ofNat (v / 64)) (.cons (tail_ofNat v) .nil))) rest).trans ?_
    rw [hback _ (by simp only [List.foldl, toNat_tail]; omega)]

theorem encode_eq (s : String) : encode s = s.toList.flatMap String.utf8EncodeChar := by
  rw [encode, ← String.utf8Encode_toList, List.utf8Encode, List.data_toByteArray]

theorem pieces_encode (s : String) : pieces (encode s) = s.toList.map .char := by
  rw [encode_eq, pieces]
  induction s.toList with
  | nil => rfl
  | cons c cs ih => rw [List.flatMap_cons, piecesFrom_encodeChar, ih, List.map_cons]

theorem lossy_encode (s : String) : lossy (encode s) = s := by
  rw [lossy, pieces_encode, List.map_map]
  exact (congrArg String.ofList (List.map_id s.toList)).trans (String.ofList_toList)

end Tablespace.Utf8
