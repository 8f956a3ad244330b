import Tablespace.Index.Error
import Tablespace.Record.Packed

/-!
# Keys

A key is a number or a string of bytes that need not be text. Keys of one type
are ordered as numbers or byte by byte; keys of different types by their type.
-/

namespace Tablespace

inductive Key where
  | int (i : Int32)
  | real (x : Single)
  | varchar (b : Bytes)
deriving DecidableEq, Repr

namespace Key

def rank : Key → Nat
  | .int _ => 0
  | .real _ => 1
  | .varchar _ => 2

instance : Ord Key where
  compare
    | .int i, .int j => compare i.toInt j.toInt
    | .real x, .real y => compare x y
    | .varchar b, .varchar c => compare b c
    | k, l => compare k.rank l.rank

def precedes (k l : Key) : Bool := (compare k l).isLT

/-- Whether `k` and `l` have the same place in the order; they may differ in their bits. -/
def ties (k l : Key) : Bool := (compare k l).isEq

def encode : Key → Bytes
  | .int i => LittleEndian.ofUInt32 i.toUInt32
  | .real x => LittleEndian.ofUInt32 x.bits
  | .varchar b => counted b

def encodedSize (k : Key) : Nat :=
  match k with
  | .varchar b => 4 + b.length
  | _ => 4

def display : Key → String
  | .int i => toString i.toInt
  | .real x => x.toDecimal
  | .varchar b => Utf8.lossy b

/-- The key of a given type with the given content, for a content that `keyContent` allows. -/
def ofContent (type : AttributeType) (content : Bytes) : Key :=
  match type with
  | .int => .int (LittleEndian.toUInt32 content).toInt32
  | .real => .real ⟨LittleEndian.toUInt32 content⟩
  | .varchar => .varchar content

def ofBytes (a : Attribute) (b : Bytes) : Except IndexError Key :=
  match keyContent a.type b with
  | .error fault => .error (.malformedKey (.notAKey fault))
  | .ok content =>
    if a.type = .varchar ∧ a.length.toNat < content.length then
      .error (.malformedKey (.tooLong content.length a))
    else .ok (ofContent a.type content)

def maxSize : Nat := 1000

def ofBytesBounded (a : Attribute) (b : Bytes) : Except IndexError Key := do
  let k ← ofBytes a b
  if maxSize < k.encodedSize then throw (.keyTooLarge k.encodedSize maxSize)
  return k

/-- Cuts a key off the front of the bytes that start at `offset`, and returns it with the bytes
behind it; the failure names the access that was not possible. -/
def cut (type : AttributeType) (offset : Nat) (b : Bytes) : Except OutOfBounds (Key × Bytes) := do
  let some (word, rest) := b.cut? 4 | throw ⟨offset, 4, offset + b.length⟩
  match type with
  | .varchar =>
    let n := (LittleEndian.toUInt32 word).toNat
    let some (text, rest) := rest.cut? n | throw ⟨offset + 4, n, offset + b.length⟩
    return (.varchar text, rest)
  | _ => return (ofContent type word, rest)

/-! ## Laws -/

theorem length_encode (k : Key) : k.encode.length = k.encodedSize := by
  cases k <;> simp [encode, encodedSize, counted]

end Key

end Tablespace
