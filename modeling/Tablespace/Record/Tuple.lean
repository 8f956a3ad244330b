import Tablespace.Record.NullBitmap
import Tablespace.Record.Value

/-!
# Tuples

A tuple is a null bitmap and then the values that are not null, in the order
of the schema.
-/

namespace Tablespace

namespace Tuple

def encodeFields : Schema → List Value → Except RecordError Bytes
  | a :: schema, v :: values => do
    let field ← v.toField a
    let fields ← encodeFields schema values
    return field ++ fields
  | _, _ => return []

def encode (schema : Schema) (values : List Value) : Except RecordError Bytes := do
  unless values.length = schema.length do
    throw (.malformedTuple (.valueCount schema.length values.length))
  return NullBitmap.ofFlags (values.map Value.isNull) ++ (← encodeFields schema values)

def cutBitmap (schema : Schema) (tuple : Bytes) : Except RecordError (Bytes × Bytes) :=
  match tuple.cut? (NullBitmap.size schema.length) with
  | some cut => .ok cut
  | none => .error (.malformedTuple .truncatedBitmap)

/-- The values of the fields from `index` on, and the bytes behind the last one. -/
def decodeFields (bitmap : Bytes) : Schema → Nat → Bytes → Except RecordError (List Value × Bytes)
  | [], _, rest => .ok ([], rest)
  | a :: schema, index, b => do
    let (value, rest) ←
      if NullBitmap.isNull bitmap index then pure (Value.null, b) else Value.ofField a.type b
    let (values, rest) ← decodeFields bitmap schema (index + 1) rest
    return (value :: values, rest)

def checkEnd (rest : Bytes) : Except RecordError Unit :=
  if rest.isEmpty then .ok () else .error (.malformedTuple (.trailing rest.length))

def decode (schema : Schema) (tuple : Bytes) : Except RecordError (List Value) := do
  let (bitmap, rest) ← cutBitmap schema tuple
  let (values, rest) ← decodeFields bitmap schema 0 rest
  checkEnd rest
  return values

end Tuple

end Tablespace
