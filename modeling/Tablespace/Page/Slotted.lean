import Tablespace.File.Access
import Tablespace.Record.Error

/-!
# Slotted pages

Bodies of records grow up from the start of a page without gaps, the directory
of slots grows down from the trailer at its end, and the boundary of the
trailer parts the bodies from the free space. Deleted slots form a list whose
head is in the trailer. Sizes are words of 64 bits, which never wrap on a page
that opens.
-/

namespace Tablespace

structure Trailer where
  freeHead : SlotNum
  slotCount : UInt16
  boundary : UInt16
deriving DecidableEq, Repr

namespace Trailer

def size : Nat := 6

def offset : Nat := pageSize - size

def noSlot : SlotNum := 65535

def encode (t : Trailer) : Bytes :=
  LittleEndian.ofUInt16 t.freeHead ++ LittleEndian.ofUInt16 t.slotCount
    ++ LittleEndian.ofUInt16 t.boundary

/-- Reads the trailer at the front of a byte string that is long enough. -/
def decode (b : Bytes) : Trailer where
  freeHead := LittleEndian.toUInt16 (b.take 2)
  slotCount := LittleEndian.toUInt16 ((b.drop 2).take 2)
  boundary := LittleEndian.toUInt16 ((b.drop 4).take 2)

def directorySize (t : Trailer) : Nat := size + Slot.size * t.slotCount.toNat

end Trailer

structure SlottedPage where
  bytes : Bytes
  number : PageNum
  trailer : Trailer
deriving DecidableEq, Repr

structure SlotTally where
  occupied : Nat := 0
  deleted : Nat := 0
  forwarded : Nat := 0
  moved : Nat := 0
deriving DecidableEq, Repr

namespace SlottedPage

def empty (number : PageNum) : SlottedPage :=
  let trailer : Trailer := ⟨Trailer.noSlot, 0, 0⟩
  ⟨Bytes.zeros Trailer.offset ++ trailer.encode, number, trailer⟩

def checkSize (b : Bytes) : Except RecordError Unit :=
  if b.length = pageSize then .ok ()
  else .error (.file (.invalidPageSize pageSize b.length))

/-- The empty page in a buffer that has the size of a page. -/
def format (b : Bytes) (number : PageNum) : Except RecordError SlottedPage := do
  checkSize b
  return empty number

/-- A page as it was stored; its bodies must not reach into its directory. -/
def ofBytes (b : Bytes) (number : PageNum) : Except RecordError SlottedPage := do
  checkSize b
  let t := Trailer.decode (b.drop Trailer.offset)
  if pageSize < t.boundary.toNat + t.directorySize then
    throw (.corruption number (.directoryOverlap t.boundary t.slotCount))
  return ⟨b, number, t⟩

def freeSpace (p : SlottedPage) : UInt64 :=
  UInt64.ofNat pageSize - UInt64.ofNat p.trailer.directorySize - p.trailer.boundary.toUInt64

def hasFreeSlot (p : SlottedPage) : Bool := p.trailer.freeHead ≠ Trailer.noSlot

/-- Whether a body of this length fits together with the slot that it may need. -/
def canHold (p : SlottedPage) (length : Nat) : Bool :=
  UInt64.ofNat (length + (if p.hasFreeSlot then 0 else Slot.size)) ≤ p.freeSpace

def slotOffset (n : SlotNum) : Nat :=
  (UInt64.ofNat Trailer.offset - UInt64.ofNat (Slot.size * (n.toNat + 1))).toNat

def inFile {α : Type} : Except OutOfBounds α → Except RecordError α :=
  Except.mapError fun access => .file (.outOfBounds access)

def slot (p : SlottedPage) (n : SlotNum) : Except RecordError Slot := do
  unless n < p.trailer.slotCount do throw (.recordNotFound ⟨p.number, n⟩)
  let b ← inFile (p.bytes.slice (slotOffset n) Slot.size)
  (Slot.decode b).mapError (.corruption p.number)

def slotNums (p : SlottedPage) : List SlotNum :=
  (List.range p.trailer.slotCount.toNat).map UInt16.ofNat

def body (p : SlottedPage) (offset length : UInt16) : Except RecordError Bytes := do
  if p.trailer.boundary.toNat < offset.toNat + length.toNat then
    throw (.corruption p.number (.bodyCrossesBoundary offset length p.trailer.boundary))
  inFile (p.bytes.slice offset.toNat length.toNat)

def SlotTally.count (t : SlotTally) : Slot → SlotTally
  | .occupied _ _ => { t with occupied := t.occupied + 1 }
  | .deleted _ => { t with deleted := t.deleted + 1 }
  | .forwarded _ => { t with forwarded := t.forwarded + 1 }
  | .moved _ _ => { t with moved := t.moved + 1 }

def tally (p : SlottedPage) : Except RecordError SlotTally := do
  let slots ← p.slotNums.mapM p.slot
  return slots.foldl SlotTally.count {}

/-! ## Laws -/

/-- Nothing wraps while the bodies stay out of the directory. -/
theorem toNat_freeSpace {p : SlottedPage}
    (h : p.trailer.boundary.toNat + p.trailer.directorySize ≤ pageSize) :
    p.freeSpace.toNat = pageSize - p.trailer.directorySize - p.trailer.boundary.toNat := by
  have hp : pageSize < UInt64.size := by decide
  have hd : (UInt64.ofNat p.trailer.directorySize).toNat = p.trailer.directorySize :=
    UInt64.toNat_ofNat_of_lt' (by omega)
  have hs : (UInt64.ofNat pageSize).toNat = pageSize := UInt64.toNat_ofNat_of_lt' hp
  have hb : p.trailer.boundary.toUInt64.toNat = p.trailer.boundary.toNat :=
    UInt16.toNat_toUInt64 _
  have hle : UInt64.ofNat p.trailer.directorySize ≤ UInt64.ofNat pageSize := by
    rw [UInt64.le_iff_toNat_le, hd, hs]
    omega
  have hsub := UInt64.toNat_sub_of_le _ _ hle
  rw [hd, hs] at hsub
  rw [freeSpace, UInt64.toNat_sub_of_le, hsub, hb]
  rw [UInt64.le_iff_toNat_le, hsub, hb]
  omega

/-- The slots that the directory of a page has room for lie in front of its trailer. -/
theorem slotOffset_eq {n : SlotNum} (h : Slot.size * (n.toNat + 1) ≤ Trailer.offset) :
    slotOffset n = Trailer.offset - Slot.size * (n.toNat + 1) := by
  have hp : Trailer.offset < UInt64.size := by decide
  have hn : (UInt64.ofNat (Slot.size * (n.toNat + 1))).toNat = Slot.size * (n.toNat + 1) :=
    UInt64.toNat_ofNat_of_lt' (by omega)
  have ho : (UInt64.ofNat Trailer.offset).toNat = Trailer.offset := UInt64.toNat_ofNat_of_lt' hp
  rw [slotOffset, UInt64.toNat_sub_of_le, hn, ho]
  rw [UInt64.le_iff_toNat_le, hn, ho]
  exact h

end SlottedPage

end Tablespace
