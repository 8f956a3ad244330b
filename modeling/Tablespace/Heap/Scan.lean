import Tablespace.Heap
import Tablespace.Record.Comparison

/-!
# Scans of record files

A scan visits the pages of a file in order and the slots of a page in order.
A relocated record is met once, under its home identifier. The scan owns the
access to the file while it lasts, and ends with the first failure.
-/

namespace Tablespace

/-- A test of one field against a comparand. A null field fails every test. -/
structure Condition where
  index : Nat
  comparison : Comparison
  comparand : Bytes

structure Query where
  schema : Schema
  condition : Option Condition
  projection : List Nat

structure Row where
  id : RecordId
  tuple : Bytes
deriving DecidableEq, Repr

namespace Query

def ofNames (schema : Schema) (tested : String) (comparison : Comparison)
    (comparand : Option Bytes) (projected : List String) : Except RecordError Query := do
  let projection ← projected.mapM schema.find
  if comparison = .any then return ⟨schema, none, projection⟩
  let index ← schema.find tested
  let some key := comparand
    | throw (.malformedTuple (.missingComparand comparison.name tested))
  let type := (schema[index]?.map Attribute.type).getD .int
  let content ← (keyContent type key).mapError .malformedTuple
  return ⟨schema, some ⟨index, comparison, content⟩, projection⟩

def accepts (q : Query) (packed : Bytes) : Except RecordError Bool := do
  let some c := q.condition | return true
  let some content ← Packed.field q.schema packed c.index | return false
  let type := (q.schema[c.index]?.map Attribute.type).getD .int
  return c.comparison.accepts (compareContents type content c.comparand)

/-- The tuple that a query shows of a record, if it selects it. -/
def select (q : Query) (packed : Bytes) : Except RecordError (Option Bytes) := do
  if ← q.accepts packed then return some (← Packed.project q.schema packed q.projection)
  else return none

end Query

/-- What a scan has not yet visited: slots of the page at hand, and pages. -/
structure Remaining where
  page : SlottedPage
  slots : List SlotNum
  pages : List PageNum

structure RecordScan where
  query : Query
  remaining : Remaining
  done : Bool
  access : Access

namespace RecordScan

def start (schema : Schema) (tested : String) (comparison : Comparison)
    (comparand : Option Bytes) (projected : List String) : RecordM RecordScan := do
  let query ← Query.ofNames schema tested comparison comparand projected
  let count ← Access.pageCount
  let pages := (List.range count.toNat).map UInt32.ofNat
  return ⟨query, ⟨SlottedPage.empty 0, [], pages⟩, false, ← get⟩

/-- The first row among slots of a page, with the slots behind it. -/
def nextOnPage (q : Query) (p : SlottedPage) : List SlotNum → RecordM (Option (Row × List SlotNum))
  | [] => return none
  | n :: rest => do
    let some packed ← Heap.liveRecord p n | nextOnPage q p rest
    let some tuple ← q.select packed | nextOnPage q p rest
    return some (⟨⟨p.number, n⟩, tuple⟩, rest)

/-- The first row on pages that are not yet read. -/
def nextOnPages (q : Query) : List PageNum → RecordM (Option (Row × Remaining))
  | [] => return none
  | n :: rest => do
    let p ← Heap.loadPage n
    match ← nextOnPage q p p.slotNums with
    | some (row, slots) => return some (row, ⟨p, slots, rest⟩)
    | none => nextOnPages q rest

def advance (q : Query) (r : Remaining) : RecordM (Option (Row × Remaining)) := do
  match ← nextOnPage q r.page r.slots with
  | some (row, slots) => return some (row, { r with slots })
  | none => nextOnPages q r.pages

def next (s : RecordScan) : Option (Except Halt Row) × RecordScan :=
  if s.done then (none, s)
  else
    match (advance s.query s.remaining).run s.access with
    | .ok (some (row, remaining)) access => (some (.ok row), { s with remaining, access })
    | .ok none access => (none, { s with done := true, access })
    | .error e access => (some (.error e), { s with done := true, access })

/-- The items that a scan still yields, at most `limit`, and the scan behind them. -/
def take : Nat → RecordScan → List (Except Halt Row) × RecordScan
  | 0, s => ([], s)
  | limit + 1, s =>
    match s.next with
    | (some item, s) =>
      let (items, s) := take limit s
      (item :: items, s)
    | (none, s) => ([], s)

/-- No page has more slots than this, so a scan yields no more rows of it. -/
def slotLimit : Nat := pageSize / Slot.size

def collect (s : RecordScan) : List (Except Halt Row) × RecordScan :=
  take (s.remaining.slots.length + slotLimit * s.remaining.pages.length + 1) s

end RecordScan

end Tablespace
