import Tablespace.Bytes.LittleEndian
import Tablespace.Record.Error
import Tablespace.Single.Decimal

/-!
# Values

The value of a field in the format of tuples: four bytes for a number, a count
of bytes and the bytes for a text. A null has no bytes; the bitmap of the tuple
tells it apart. A key is a field that stands alone.
-/

namespace Tablespace

inductive Value where
  | int (i : Int32)
  | real (x : Single)
  | varchar (s : String)
  | null
deriving DecidableEq

def counted (b : Bytes) : Bytes := LittleEndian.ofUInt32 (UInt32.ofNat b.length) ++ b

namespace Value

def isNull : Value → Bool
  | .null => true
  | _ => false

def display : Value → String
  | .int i => toString i.toInt
  | .real x => x.toDecimal
  | .varchar s => s
  | .null => "NULL"

def toField (v : Value) (a : Attribute) : Except RecordError Bytes :=
  match v, a.type with
  | .null, _ => .ok []
  | .int i, .int => .ok (LittleEndian.ofUInt32 i.toUInt32)
  | .real x, .real => .ok (LittleEndian.ofUInt32 x.bits)
  | .varchar s, .varchar =>
    let text := Utf8.encode s
    if text.length ≤ a.length.toNat then .ok (counted text)
    else .error (.malformedTuple (.textTooLong text.length a))
  | .int _, expected => .error (.typeMismatch expected .int)
  | .real _, expected => .error (.typeMismatch expected .real)
  | .varchar _, expected => .error (.typeMismatch expected .varchar)

def toKey (v : Value) (a : Attribute) : Except RecordError Bytes :=
  if v.isNull then .error (.malformedTuple .nullKey) else v.toField a

/-- Reads the value at the front of a byte string and returns it with the bytes behind it. -/
def ofField (type : AttributeType) (b : Bytes) : Except RecordError (Value × Bytes) := do
  let some (word, rest) := b.cut? 4 | throw (.malformedTuple (.truncatedValue type))
  let n := LittleEndian.toUInt32 word
  match type with
  | .int => return (.int n.toInt32, rest)
  | .real => return (.real ⟨n⟩, rest)
  | .varchar =>
    let some (text, rest) := rest.cut? n.toNat | throw (.malformedTuple (.truncatedValue type))
    match Utf8.decode text with
    | .ok s => return (.varchar s, rest)
    | .error fault => throw (.malformedTuple (.invalidText fault))

end Value

end Tablespace
