import Tablespace.Page.Edit
import Tablespace.Record.Packed

/-!
# Record files

A file of slotted pages. A record is stored under its home slot; when it
outgrows its page, the home slot forwards to a slot of another page that holds
the bytes, and the record keeps its identifier.
-/

namespace Tablespace

abbrev RecordM := EStateM Halt Access

instance : MonadLift FileM RecordM where
  monadLift := EStateM.adaptExcept fun e => .failed (.file e)

namespace Heap

open Access

def loadPage (n : PageNum) : RecordM SlottedPage := do
  SlottedPage.ofBytes (← readPage n) n

/-- Changes a page and writes it back, unless the change fails. -/
def editPage {α : Type} (n : PageNum) (change : PageM α) : RecordM α := do
  match change.run (← loadPage n) with
  | .ok a p =>
    writePage n p.bytes
    return a
  | .error e _ => throw e

/-! ## Placing -/

/-- Page numbers in the order in which they are tried: the last, then the others from the first. -/
def candidates (pageCount : PageNum) : List PageNum :=
  match pageCount.toNat with
  | 0 => []
  | last + 1 => UInt32.ofNat last :: (List.range last).map UInt32.ofNat

def placeAmong (packed : Bytes) (isMoved : Bool) : List PageNum → RecordM (Option RecordId)
  | [] => return none
  | n :: rest => do
    let p ← loadPage n
    if p.canHold packed.length then
      match (SlottedPage.insert packed isMoved).run p with
      | .ok slot p =>
        writePage n p.bytes
        return some ⟨n, slot⟩
      | .error e _ => throw e
    else placeAmong packed isMoved rest

def placeNew (packed : Bytes) (isMoved : Bool) : RecordM RecordId := do
  match (SlottedPage.insert packed isMoved).run (SlottedPage.empty (← pageCount)) with
  | .ok slot p => return ⟨← appendPage p.bytes, slot⟩
  | .error e _ => throw e

def place (packed : Bytes) (isMoved : Bool) : RecordM RecordId := do
  match ← placeAmong packed isMoved (candidates (← pageCount)) with
  | some id => return id
  | none => placeNew packed isMoved

/-! ## Following identifiers -/

/-- The page that an identifier names; an identifier past the end of the file names no record. -/
def homePage (id : RecordId) : RecordM SlottedPage := do
  unless id.page < (← pageCount) do throw (.failed (.recordNotFound id))
  loadPage id.page

def homeSlot (id : RecordId) : RecordM Slot := do (← homePage id).slot id.slot

/-- The page to which a home slot forwards, with offset and length of the body there. -/
def follow (home target : RecordId) : RecordM (SlottedPage × UInt16 × UInt16) := do
  let damage {α : Type} (fault : PageFault) : RecordM α := throw (.failed (.corruption home.page fault))
  unless target.page < (← pageCount) do damage (.forwardsPastEnd home.slot target)
  let p ← loadPage target.page
  match p.slot target.slot with
  | .ok (.moved offset length) => return (p, offset, length)
  | .ok found => damage (.forwardsTo home.slot target found)
  | .error (.recordNotFound _) => damage (.forwardsToMissing home.slot target)
  | .error e => throw (.failed e)

def readMoved (home target : RecordId) : RecordM Bytes := do
  let (p, offset, length) ← follow home target
  p.body offset length

def releaseMoved (home target : RecordId) : RecordM Unit := do
  let _ ← follow home target
  editPage target.page (SlottedPage.remove target.slot)

/-- The packed bytes of the record that has its home in a slot, if there is one. -/
def liveRecord (p : SlottedPage) (n : SlotNum) : RecordM (Option Bytes) := do
  match ← p.slot n with
  | .occupied offset length => return some (← p.body offset length)
  | .forwarded target => return some (← readMoved ⟨p.number, n⟩ target)
  | .deleted _ => return none
  | .moved _ _ => return none

def readPacked (id : RecordId) : RecordM Bytes := do
  match ← liveRecord (← homePage id) id.slot with
  | some packed => return packed
  | none => throw (.failed (.recordNotFound id))

/-! ## Operations -/

def insert (schema : Schema) (tuple : Bytes) : RecordM RecordId := do
  place (← Packed.encode schema tuple) false

def read (schema : Schema) (id : RecordId) : RecordM Bytes := do
  Packed.decode schema (← readPacked id)

def readAttribute (schema : Schema) (id : RecordId) (name : String) : RecordM Bytes := do
  let index ← schema.find name
  Packed.project schema (← readPacked id) [index]

def delete (id : RecordId) : RecordM Unit := do
  match ← homeSlot id with
  | .occupied _ _ => pure ()
  | .forwarded target => releaseMoved id target
  | _ => throw (.failed (.recordNotFound id))
  editPage id.page (SlottedPage.remove id.slot)

/-- Replaces a record that lies in its home slot: there if it fits, else on another page. -/
def updateAtHome (id : RecordId) (packed : Bytes) : RecordM Unit := do
  unless ← editPage id.page (SlottedPage.resize id.slot packed) do
    let target ← place packed true
    editPage id.page (SlottedPage.forward id.slot target)

/-- Replaces a relocated record: where it lies if it fits, else at home, else on a third page. -/
def updateMoved (id target : RecordId) (packed : Bytes) : RecordM Unit := do
  let _ ← follow id target
  if ← editPage target.page (SlottedPage.resize target.slot packed) then return
  if ← editPage id.page (SlottedPage.restore id.slot packed) then
    releaseMoved id target
  else
    let newTarget ← place packed true
    releaseMoved id target
    editPage id.page (SlottedPage.forward id.slot newTarget)

def update (schema : Schema) (tuple : Bytes) (id : RecordId) : RecordM Unit := do
  let packed ← Packed.encode schema tuple
  match ← homeSlot id with
  | .occupied _ _ => updateAtHome id packed
  | .forwarded target => updateMoved id target packed
  | _ => throw (.failed (.recordNotFound id))

end Heap

end Tablespace
