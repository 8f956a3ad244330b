import Tablespace.Index.Node

/-!
# Node pages

A node page starts with a word whose top bit marks a leaf and whose other bits
are the offset where the used bytes end. A leaf goes on with the words of its
neighbours, all ones for none, and then its entries; an internal node with its
first child and then each separator with the child to its right.
-/

namespace Tablespace

namespace NodePage

open LittleEndian (ofUInt32 toUInt32)

/-- The top bit of a word. In the first word of a page it marks a leaf, and no sibling has it. -/
def topBit : Nat := 0x80000000

def noSibling : UInt32 := 0xFFFFFFFF

/-! ## Writing -/

/-- The parts of a page one after the other from `offset` on; the first that does not fit fails. -/
def layOut (offset : Nat) : List Bytes → Except OutOfBounds Bytes
  | [] => .ok []
  | part :: parts =>
    if offset + part.length ≤ pageSize then do
      return part ++ (← layOut (offset + part.length) parts)
    else .error ⟨offset, part.length, pageSize⟩

/-- A page of a first word that holds `flag` and the end of the used bytes, the rest of the
header, the parts, and zeros. -/
def assemble (flag : Nat) (header : Bytes) (parts : List Bytes) : Except IndexError Bytes := do
  let start := 4 + header.length
  let body ← (layOut start parts).mapError fun access => .file (.outOfBounds access)
  let stop := start + body.length
  return LittleEndian.ofNat 4 (flag + stop) ++ header ++ body ++ Bytes.zeros (pageSize - stop)

def entryParts (e : Entry) : List Bytes :=
  [e.key.encode, ofUInt32 e.id.page, ofUInt32 e.id.slot.toUInt32]

def ofLeaf (l : Leaf) : Except IndexError Bytes :=
  assemble topBit
    (ofUInt32 (l.prev.getD noSibling) ++ ofUInt32 (l.next.getD noSibling))
    (l.entries.flatMap entryParts)

def childParts (separator : Key) (right : PageNum) : List Bytes :=
  [separator.encode, ofUInt32 right]

def ofInternal (n : Internal) : Except IndexError Bytes :=
  match n.children with
  | [] => .error (.corruption 0 .noChildren)
  | first :: rest =>
    assemble 0 (ofUInt32 first) (List.zipWith childParts n.keys rest).flatten

def ofNode : Node → Except IndexError Bytes
  | .leaf l => ofLeaf l
  | .internal n => ofInternal n

/-! ## Reading -/

def cutWord (offset : Nat) (b : Bytes) : Except OutOfBounds (UInt32 × Bytes) :=
  match b.cut? 4 with
  | some (word, rest) => .ok (toUInt32 word, rest)
  | none => .error ⟨offset, 4, offset + b.length⟩

def cutEntry (type : AttributeType) (offset : Nat) (b : Bytes) :
    Except NodeFault (Entry × Bytes) := do
  let inside {α : Type} : Except OutOfBounds α → Except NodeFault α := Except.mapError .outOfBounds
  let (key, rest) ← inside (Key.cut type offset b)
  let offset := offset + key.encodedSize
  let (page, rest) ← inside (cutWord offset rest)
  let (slot, rest) ← inside (cutWord (offset + 4) rest)
  unless slot.toNat < UInt16.size do throw (.slotNumber slot)
  return (⟨key, page, slot.toUInt16⟩, rest)

def cutChild (type : AttributeType) (offset : Nat) (b : Bytes) :
    Except NodeFault ((Key × PageNum) × Bytes) := do
  let inside {α : Type} : Except OutOfBounds α → Except NodeFault α := Except.mapError .outOfBounds
  let (key, rest) ← inside (Key.cut type offset b)
  let (child, rest) ← inside (cutWord (offset + key.encodedSize) rest)
  return ((key, child), rest)

/-- Cuts items of given sizes off until no byte is left. An item has at least one byte, so there
are no more items than bytes. -/
def cutAll {α : Type} (cutItem : Nat → Bytes → Except NodeFault (α × Bytes)) (size : α → Nat) :
    (fuel offset : Nat) → Bytes → Except NodeFault (List α)
  | 0, _, _ => .ok []
  | _ + 1, _, [] => .ok []
  | fuel + 1, offset, b => do
    let (item, rest) ← cutItem offset b
    return item :: (← cutAll cutItem size fuel (offset + size item) rest)

def sibling (word : UInt32) : Except NodeFault (Option PageNum) :=
  if word = noSibling then .ok none
  else if word.toNat < topBit then .ok (some word)
  else .error (.invalidSibling word.toInt32)

def toLeaf (type : AttributeType) (b : Bytes) : Except NodeFault Leaf := do
  let prev ← sibling (toUInt32 (b.take 4))
  let next ← sibling (toUInt32 ((b.drop 4).take 4))
  let rest := b.drop 8
  let entries ← cutAll (cutEntry type) Leaf.entrySize rest.length Leaf.headerSize rest
  return { entries, prev, next }

def toInternal (type : AttributeType) (b : Bytes) : Except NodeFault Internal := do
  let rest := b.drop 4
  let right ← cutAll (cutChild type) (fun c => Internal.keySize c.1) rest.length
    Internal.headerSize rest
  return ⟨right.map Prod.fst, toUInt32 (b.take 4) :: right.map Prod.snd⟩

def toNode (b : Bytes) (type : AttributeType) (page : PageNum) : Except IndexError Node := do
  let word ← (b.uint32At 0).mapError fun access => .file (.outOfBounds access)
  let isLeaf := topBit ≤ word.toNat
  let stop := word.toNat % topBit
  let header := if isLeaf then Leaf.headerSize else Internal.headerSize
  if stop < header ∨ pageSize < stop ∨ b.length < stop then
    throw (.corruption page (.usedBytes stop))
  let used := (b.take stop).drop 4
  Except.mapError (.corruption page) <|
    if isLeaf then return .leaf (← toLeaf type used) else return .internal (← toInternal type used)

end NodePage

end Tablespace
