import Tablespace.Bytes

/-!
# Null bitmaps

One bit for each field, the highest bit of a byte first. Fields past the end
of the bitmap are not null and cannot be set.
-/

namespace Tablespace

namespace NullBitmap

def size (fieldCount : Nat) : Nat := (fieldCount + 7) / 8

def mask (index : Nat) : UInt8 := 0x80 >>> UInt8.ofNat (index % 8)

def isNull (bitmap : Bytes) (index : Nat) : Bool :=
  match bitmap[index / 8]? with
  | some byte => byte &&& mask index ≠ 0
  | none => false

def setNull (bitmap : Bytes) (index : Nat) : Bytes :=
  bitmap.modify (index / 8) (· ||| mask index)

/-- The bitmap of as many fields as there are flags, with zeros in the bits left over. -/
def ofFlags (flags : List Bool) : Bytes :=
  flags.zipIdx.foldl (fun bitmap (flag, index) => if flag then setNull bitmap index else bitmap)
    (Bytes.zeros (size flags.length))

@[simp] theorem length_setNull (bitmap : Bytes) (index : Nat) :
    (setNull bitmap index).length = bitmap.length := List.length_modify ..

end NullBitmap

end Tablespace
