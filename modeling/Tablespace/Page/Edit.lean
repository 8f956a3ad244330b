import Tablespace.Page.Slotted

/-!
# Changes of a slotted page

A change works on a page step by step. When a step fails the steps before it
stay done, in the bytes and in the trailer that is held beside them. Offsets
are words of 16 bits: a sum or a difference that is no word stops the program,
and only a length that is narrowed and an offset that is shifted wrap.
-/

namespace Tablespace

/-- How a change ends that gives no result: with an error that it reports, or in the middle of a sum
that is no word, where the program stops. -/
inductive Halt where
  | overflow
  | failed (error : RecordError)
deriving DecidableEq, Repr

instance liftRecord {σ : Type} : MonadLift (Except RecordError) (EStateM Halt σ) where
  monadLift x := liftM (x.mapError Halt.failed)

abbrev PageM := EStateM Halt SlottedPage

namespace SlottedPage

def sum (a b : UInt16) : PageM UInt16 :=
  if a.toNat + b.toNat < UInt16.size then return a + b else throw .overflow

def difference (a b : UInt16) : PageM UInt16 :=
  if b ≤ a then return a - b else throw .overflow

def put (offset : Nat) (src : Bytes) : PageM Unit := do
  let p ← get
  set { p with bytes := ← inFile (p.bytes.write offset src) }

def move (start stop dest : Nat) : PageM Unit := do
  let p ← get
  set { p with bytes := ← inFile (p.bytes.move start stop dest) }

def setSlot (n : SlotNum) (s : Slot) : PageM Unit := put (slotOffset n) s.encode

def fail {α : Type} (fault : PageFault) : PageM α := do
  throw (.failed (.corruption (← get).number fault))

def readSlot (n : SlotNum) : PageM Slot := do (← get).slot n

/-- Stores the trailer that is held beside the bytes. -/
def storeTrailer : PageM Unit := do put Trailer.offset (← get).trailer.encode

def setBoundary (boundary : UInt16) : PageM Unit :=
  modify fun p => { p with trailer.boundary := boundary }

/-- Takes the head of the free list, or a new slot when that is empty. -/
def claimSlot : PageM SlotNum := do
  let p ← get
  if p.hasFreeSlot then
    let head := p.trailer.freeHead
    match ← readSlot head with
    | .deleted nextFree => set { p with trailer.freeHead := nextFree }
    | found => fail (.freeListSlot head found)
    return head
  else
    set { p with trailer.slotCount := ← sum p.trailer.slotCount 1 }
    return p.trailer.slotCount

/-- Stores a record at the boundary; `isMoved` marks bytes held for a slot of another page. -/
def insert (record : Bytes) (isMoved : Bool) : PageM SlotNum := do
  let p ← get
  unless p.canHold record.length do
    throw (.failed (.recordTooLarge record.length p.freeSpace.toNat))
  let offset := p.trailer.boundary
  let length := UInt16.ofNat record.length
  put offset.toNat record
  let n ← claimSlot
  setSlot n (if isMoved then .moved offset length else .occupied offset length)
  setBoundary (← sum offset length)
  storeTrailer
  return n

/-- Shifts the body of a slot from behind a body of `length` bytes to behind one of `newLength`
bytes, if it starts at or past `limit`. -/
def shiftBody (limit length newLength : UInt16) (n : SlotNum) : PageM Unit := do
  let s ← readSlot n
  match s.body? with
  | some (offset, size) =>
    if limit ≤ offset then setSlot n (s.withBody (offset + newLength - length) size)
  | none => pure ()

def shiftBodies (skip : SlotNum) (limit length newLength : UInt16) : PageM Unit := do
  let others := (← get).slotNums.filter (· ≠ skip)
  others.forM (shiftBody limit length newLength)

/-- Gives the body at `offset` another length by moving all that lies behind it. -/
def stretch (n : SlotNum) (offset length newLength : UInt16) : PageM Unit := do
  let stop ← sum offset length
  let dest ← sum offset newLength
  move stop.toNat (← get).trailer.boundary.toNat dest.toNat
  shiftBodies n stop length newLength

def compact (n : SlotNum) (offset length : UInt16) : PageM Unit := do
  stretch n offset length 0
  setBoundary (← difference (← get).trailer.boundary length)

def remove (n : SlotNum) : PageM Unit := do
  match ← readSlot n with
  | .occupied offset length => compact n offset length
  | .moved offset length => compact n offset length
  | .forwarded _ => pure ()
  | .deleted _ => throw (.failed (.recordNotFound ⟨(← get).number, n⟩))
  setSlot n (.deleted (← get).trailer.freeHead)
  modify fun p => { p with trailer.freeHead := n }
  storeTrailer

/-- Replaces a body in its slot; false when the page has no room for it. -/
def resize (n : SlotNum) (record : Bytes) : PageM Bool := do
  let s ← readSlot n
  let some (offset, length) := s.body? | fail (.noBody n)
  if ((← get).freeSpace + length.toUInt64).toNat < record.length then return false
  let newLength := UInt16.ofNat record.length
  stretch n offset length newLength
  put offset.toNat record
  setSlot n (s.withBody offset newLength)
  setBoundary ((← get).trailer.boundary + newLength - length)
  storeTrailer
  return true

/-- Points a slot to another place and gives up the bytes that it owns. -/
def forward (n : SlotNum) (target : RecordId) : PageM Unit := do
  match ← readSlot n with
  | .occupied offset length => compact n offset length
  | .forwarded _ => pure ()
  | found => fail (.cannotForward n found)
  setSlot n (.forwarded target)
  storeTrailer

/-- Brings a record back to its forwarded slot; false when the page has no room for it. -/
def restore (n : SlotNum) (record : Bytes) : PageM Bool := do
  match ← readSlot n with
  | .forwarded _ => pure ()
  | _ => fail (.notForwarded n)
  let p ← get
  if p.freeSpace.toNat < record.length then return false
  let offset := p.trailer.boundary
  let length := UInt16.ofNat record.length
  put offset.toNat record
  setSlot n (.occupied offset length)
  setBoundary (← sum offset length)
  storeTrailer
  return true

end SlottedPage

end Tablespace
