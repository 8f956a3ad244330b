import Tablespace.File.Paged
import Tablespace.Record.Tuple

/-!
# Packed records

A packed record is a null bitmap, a directory with one offset of two bytes for
each field, and the contents of the fields. An offset says where the content
of its field ends, so a field lies between two neighbours of the directory, a
null field repeats the offset before it, and a text needs no count.
-/

namespace Tablespace

/-- The content of a key: a text loses its count. -/
def keyContent (type : AttributeType) (key : Bytes) : Except TupleFault Bytes :=
  let bad : Except TupleFault Bytes := .error (.notAKey key.length type)
  match type with
  | .varchar =>
    match key.cut? 4 with
    | some (word, text) =>
      if text.length = (LittleEndian.toUInt32 word).toNat then .ok text else bad
    | none => bad
  | _ => if key.length = 4 then .ok key else bad

/-- A content in the format of tuples: a text gets its count. -/
def fieldOfContent (type : AttributeType) (content : Bytes) : Bytes :=
  match type with
  | .varchar => counted content
  | _ => content

namespace Packed

/-- The most bytes of a record that an empty page can take, next to a trailer and a slot. -/
def maxSize : Nat := pageSize - 6 - 8

def tooLarge (size : Nat) : RecordError := .recordTooLarge size maxSize

/-- The content of the field at the front of a tuple, and the bytes behind the field. -/
def takeContent (a : Attribute) (b : Bytes) : Except RecordError (Bytes × Bytes) := do
  let some (word, rest) := b.cut? 4 | throw (.malformedTuple (.truncatedField a.name))
  match a.type with
  | .varchar =>
    let n := LittleEndian.toUInt32 word
    if a.length < n then throw (.malformedTuple (.fieldTooLong a.name n.toNat a.length))
    let some cut := rest.cut? n.toNat | throw (.malformedTuple (.truncatedField a.name))
    return cut
  | _ => return (word, rest)

/-- Directory and contents of the fields from `index` on, and the bytes behind the last one;
`start` is the offset where the first of the contents begins. -/
def encodeFields (bitmap : Bytes) (headerSize : Nat) :
    Schema → Nat → Nat → Bytes → Except RecordError (Bytes × Bytes × Bytes)
  | [], _, _, rest => .ok ([], [], rest)
  | a :: schema, index, start, b => do
    let (content, rest) ←
      if NullBitmap.isNull bitmap index then pure ([], b) else takeContent a b
    let stop := start + content.length
    unless stop < UInt16.size do throw (tooLarge (headerSize + stop))
    let (directory, contents, rest) ←
      encodeFields bitmap headerSize schema (index + 1) stop rest
    return (LittleEndian.ofNat 2 stop ++ directory, content ++ contents, rest)

def headerSize (schema : Schema) : Nat := NullBitmap.size schema.length + 2 * schema.length

def encode (schema : Schema) (tuple : Bytes) : Except RecordError Bytes := do
  let (bitmap, rest) ← Tuple.cutBitmap schema tuple
  let (directory, contents, rest) ← encodeFields bitmap (headerSize schema) schema 0 0 rest
  Tuple.checkEnd rest
  let packed := bitmap ++ directory ++ contents
  if maxSize < packed.length then throw (tooLarge packed.length)
  return packed

/-- The content of a field, none when it is null. -/
def field (schema : Schema) (packed : Bytes) (index : Nat) : Except RecordError (Option Bytes) := do
  let some a := schema[index]? | throw (.malformedTuple (.noSuchField index schema.length))
  let inside {α : Type} : Except OutOfBounds α → Except RecordError α :=
    Except.mapError fun _ => .corruptRecord (.outside index)
  let bitmapSize := NullBitmap.size schema.length
  let bitmap ← inside (packed.slice 0 bitmapSize)
  if NullBitmap.isNull bitmap index then return none
  let start ← if index = 0 then pure 0 else inside (packed.uint16At (bitmapSize + 2 * (index - 1)))
  let stop ← inside (packed.uint16At (bitmapSize + 2 * index))
  if stop < start then throw (.corruptRecord (.reversed index stop start))
  let content ← inside (packed.slice (headerSize schema + start.toNat) (stop.toNat - start.toNat))
  if a.type ≠ .varchar ∧ content.length ≠ 4 then
    throw (.corruptRecord (.wrongWidth index content.length))
  return some content

/-- The fields at the given positions with their types, nulls without bytes. -/
def fields (schema : Schema) (packed : Bytes) (indices : List Nat) :
    Except RecordError (List (Option Bytes)) :=
  indices.mapM fun index => do
    let content ← field schema packed index
    return content.bind fun c => schema[index]?.map fun a => fieldOfContent a.type c

def project (schema : Schema) (packed : Bytes) (indices : List Nat) :
    Except RecordError Bytes := do
  let chosen ← fields schema packed indices
  return NullBitmap.ofFlags (chosen.map Option.isNone) ++ chosen.flatMap fun f => f.getD []

def decode (schema : Schema) (packed : Bytes) : Except RecordError Bytes :=
  project schema packed (List.range schema.length)

end Packed

end Tablespace
