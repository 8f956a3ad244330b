import Tablespace.Bytes

/-!
# Text as UTF-8

Reading bytes as text either gives the text or says where the first fault
lies. For display no byte string is refused: each longest start of a character
that breaks off is shown as one replacement character.
-/

namespace Tablespace

inductive Utf8Fault where
  /-- The `length` bytes at `offset` cannot start or go on with a character. -/
  | invalid (offset length : Nat)
  /-- The bytes end inside the character that starts at `offset`. -/
  | incomplete (offset : Nat)
deriving DecidableEq, Repr

def Utf8Fault.message : Utf8Fault → String
  | .invalid offset length => s!"invalid utf-8 sequence of {length} bytes from index {offset}"
  | .incomplete offset => s!"incomplete utf-8 byte sequence from index {offset}"

namespace Utf8

def encode (s : String) : Bytes := s.toByteArray.data.toList

/-! ## Pieces of a byte string -/

inductive Piece where
  | char (c : Char)
  | broken (length : Nat)
  | cutOff
deriving DecidableEq, Repr

/-- A character of which `length` bytes are read, with the ranges of the bytes owed. -/
structure Pending where
  code : Nat
  length : Nat
  owed : List (UInt8 × UInt8)
deriving Repr

def tail : UInt8 × UInt8 := (0x80, 0xBF)

/-- The first byte of a character of several bytes; the range of the second keeps out overlong
forms, surrogates and what lies past the last code point. -/
def lead? (b : UInt8) : Option Pending :=
  let after (codes : Nat) (owed : List (UInt8 × UInt8)) : Option Pending :=
    some ⟨b.toNat % codes, 1, owed⟩
  if b < 0xC2 then none
  else if b ≤ 0xDF then after 32 [tail]
  else if b = 0xE0 then after 16 [(0xA0, 0xBF), tail]
  else if b = 0xED then after 16 [(0x80, 0x9F), tail]
  else if b ≤ 0xEF then after 16 [tail, tail]
  else if b = 0xF0 then after 8 [(0x90, 0xBF), tail, tail]
  else if b ≤ 0xF3 then after 8 [tail, tail, tail]
  else if b = 0xF4 then after 8 [(0x80, 0x8F), tail, tail]
  else none

def start (b : UInt8) : List Piece × Option Pending :=
  if b < 0x80 then ([.char (Char.ofNat b.toNat)], none)
  else
    match lead? b with
    | some p => ([], some p)
    | none => ([.broken 1], none)

def step : Option Pending → UInt8 → List Piece × Option Pending
  | none, b => start b
  | some ⟨_, _, []⟩, b => start b
  | some ⟨code, length, (low, high) :: owed⟩, b =>
    if low ≤ b ∧ b ≤ high then
      let code := code * 64 + b.toNat % 64
      if owed.isEmpty then ([.char (Char.ofNat code)], none)
      else ([], some ⟨code, length + 1, owed⟩)
    else
      let (pieces, pending) := start b
      (.broken length :: pieces, pending)

def piecesFrom : Option Pending → Bytes → List Piece
  | none, [] => []
  | some _, [] => [.cutOff]
  | pending, b :: rest => (step pending b).1 ++ piecesFrom (step pending b).2 rest

def pieces (b : Bytes) : List Piece := piecesFrom none b

/-! ## Reading and showing -/

/-- The first fault among pieces that start at `offset`; none is reported at the end. -/
def faultAt (offset : Nat) : List Piece → Utf8Fault
  | .char c :: rest => faultAt (offset + c.utf8Size) rest
  | .broken length :: _ => .invalid offset length
  | .cutOff :: _ => .incomplete offset
  | [] => .incomplete offset

def decode (b : Bytes) : Except Utf8Fault String :=
  if h : b.toByteArray.IsValidUTF8 then .ok (String.ofByteArray b.toByteArray h)
  else .error (faultAt 0 (pieces b))

def Piece.shown : Piece → Char
  | .char c => c
  | _ => '\ufffd'

def lossy (b : Bytes) : String := String.ofList ((pieces b).map Piece.shown)

/-! ## Laws -/

theorem toByteArray_encode (s : String) : (encode s).toByteArray = s.toByteArray := by
  apply ByteArray.ext
  simp [encode, List.data_toByteArray]

theorem decode_eq_ok_iff {b : Bytes} {s : String} : decode b = .ok s ↔ b = encode s := by
  constructor
  · intro h
    unfold decode at h
    split at h
    · cases h
      simp [encode, List.data_toByteArray]
    · cases h
  · rintro rfl
    have h : (encode s).toByteArray.IsValidUTF8 := by
      rw [toByteArray_encode]
      exact s.isValidUTF8
    rw [decode, dif_pos h]
    congr 1
    apply String.toByteArray_inj.mp
    exact toByteArray_encode s

end Utf8

end Tablespace
