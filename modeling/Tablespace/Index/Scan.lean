import Tablespace.Index

/-!
# Scans of indexes

A scan yields the entries between two bounds in the order of the leaf chain.
It starts at the first leaf that may hold the lower bound and stops at the
first key past the upper one. It reads no more leaves than the file has pages,
so a chain that loops ends in a failure.
-/

namespace Tablespace

structure Bound where
  key : Key
  inclusive : Bool

structure KeyRange where
  low : Option Bound
  high : Option Bound

namespace KeyRange

def ofBytes (a : Attribute) (low high : Option Bytes) (lowInclusive highInclusive : Bool) :
    Except IndexError KeyRange := do
  let low ← low.mapM (Key.ofBytes a)
  let high ← high.mapM (Key.ofBytes a)
  return ⟨low.map (⟨·, lowInclusive⟩), high.map (⟨·, highInclusive⟩)⟩

/-- Whether a key lies below the range. -/
def isBelow (r : KeyRange) (k : Key) : Bool :=
  match r.low with
  | some b => k.precedes b.key || (!b.inclusive && k.ties b.key)
  | none => false

/-- Whether a key lies above the range. -/
def isAbove (r : KeyRange) (k : Key) : Bool :=
  match r.high with
  | some b => b.key.precedes k || (!b.inclusive && k.ties b.key)
  | none => false

end KeyRange

structure IndexScan where
  type : AttributeType
  range : KeyRange
  /-- The entries of the leaf at hand that are not yet visited. -/
  entries : List Entry
  nextLeaf : Option PageNum
  /-- How many leaves may still be read. -/
  leavesLeft : Nat
  done : Bool
  access : Access

namespace IndexScan

/-- Starts a scan at its first leaf, which is read again for the first entry. -/
def start (a : Attribute) (low high : Option Bytes) (lowInclusive highInclusive : Bool) :
    IndexM IndexScan := do
  let range ← KeyRange.ofBytes a low high lowInclusive highInclusive
  let first ← match range.low with
    | some b => Index.lowerLeaf a.type b.key
    | none => Index.firstLeaf a.type
  let count ← Access.pageCount
  return ⟨a.type, range, [], some first, count.toNat, false, ← get⟩

/-- What the entries of a leaf have for a scan. -/
inductive Found where
  | entry (e : Entry) (rest : List Entry)
  /-- A key above the range: the scan is over. -/
  | past
  /-- No entry in the range, and none above it. -/
  | nothing

def find (r : KeyRange) : List Entry → Found
  | [] => .nothing
  | e :: rest =>
    if r.isBelow e.key then find r rest
    else if r.isAbove e.key then .past
    else .entry e rest

/-- The first entry of the range in a chain of leaves, with the entries behind it, the leaf after
them and the count of leaves that may still be read. -/
def advanceLeaves (type : AttributeType) (r : KeyRange) :
    (leavesLeft : Nat) → Option PageNum →
      IndexM (Option (Entry × List Entry × Option PageNum × Nat))
  | _, none => return none
  | 0, some page => Index.fail page .leafChainLoops
  | leavesLeft + 1, some page => do
    let l ← Index.readLeaf type page
    match find r l.entries with
    | .entry e rest => return some (e, rest, l.next, leavesLeft)
    | .past => return none
    | .nothing => advanceLeaves type r leavesLeft l.next

def advance (s : IndexScan) : IndexM (Option (Entry × List Entry × Option PageNum × Nat)) :=
  match find s.range s.entries with
  | .entry e rest => return some (e, rest, s.nextLeaf, s.leavesLeft)
  | .past => return none
  | .nothing => advanceLeaves s.type s.range s.leavesLeft s.nextLeaf

/-- The next entry or failure, and the scan behind it. -/
def next (s : IndexScan) : Option (Except IndexError Entry) × IndexScan :=
  if s.done then (none, s)
  else
    match s.advance.run s.access with
    | .ok (some (e, entries, nextLeaf, leavesLeft)) access =>
      (some (.ok e), { s with entries, nextLeaf, leavesLeft, access })
    | .ok none access => (none, { s with done := true, access })
    | .error e access => (some (.error e), { s with done := true, access })

/-- The items that a scan still yields, at most `limit`, and the scan behind them. -/
def take : Nat → IndexScan → List (Except IndexError Entry) × IndexScan
  | 0, s => ([], s)
  | limit + 1, s =>
    match s.next with
    | (some item, s) =>
      let (items, s) := take limit s
      (item :: items, s)
    | (none, s) => ([], s)

/-- No leaf has more entries than this: each takes twelve bytes or more. -/
def entryLimit : Nat := pageSize / 12

def collect (s : IndexScan) : List (Except IndexError Entry) × IndexScan :=
  take (s.entries.length + entryLimit * s.leavesLeft + 1) s

end IndexScan

end Tablespace
