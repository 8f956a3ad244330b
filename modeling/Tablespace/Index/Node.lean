import Tablespace.Index.Key

/-!
# Nodes

A leaf holds entries in the order of their keys, equal keys in the order of
their arrival, and the page numbers of its neighbours. An internal node holds
separators and one more child than separators: a child holds keys from its
left separator up to its right one. Positions of keys are found by halving, so
they are defined for keys in any order.
-/

namespace Tablespace

/-! ## Halving -/

/-- Narrows a range of `size` positions from `base` on to its last position but one where the
test can change. -/
def halve {α : Type} (test : α → Bool) (xs : List α) : (fuel size base : Nat) → Nat
  | 0, _, base => base
  | fuel + 1, size, base =>
    if size ≤ 1 then base
    else
      let half := size / 2
      let middle := base + half
      halve test xs fuel (size - half) (if xs[middle]?.any test then middle else base)

/-- How many elements from the front pass a test, where those that pass come first. -/
def partitionPoint {α : Type} (test : α → Bool) (xs : List α) : Nat :=
  let base := halve test xs xs.length xs.length 0
  if xs[base]?.any test then base + 1 else base

def totalSize : List Nat → Nat
  | [] => 0
  | size :: rest => size + totalSize rest

/-- The first position at which the sum of the sizes up to it, with what lies before them, passes
a bound. -/
def indexPast (bound : Nat) : List Nat → Nat → Option Nat
  | [], _ => none
  | size :: rest, before =>
    if bound < before + size then some 0
    else (indexPast bound rest (before + size)).map (· + 1)

/-- The first position at which the sizes up to it make more than half of all. -/
def sizeMidpoint (sizes : List Nat) : Nat :=
  (indexPast (totalSize sizes / 2) sizes 0).getD (sizes.length / 2)

/-! ## Leaves -/

structure Entry where
  key : Key
  id : RecordId
deriving DecidableEq, Repr

structure Leaf where
  entries : List Entry := []
  prev : Option PageNum := none
  next : Option PageNum := none
deriving DecidableEq, Repr

namespace Leaf

def headerSize : Nat := 12

/-- The bytes of an entry on its page: the key, a page number and a slot number. -/
def entrySize (e : Entry) : Nat := e.key.encodedSize + 8

def encodedSize (l : Leaf) : Nat := headerSize + totalSize (l.entries.map entrySize)

def fits (l : Leaf) : Bool := l.encodedSize ≤ pageSize

def insert (l : Leaf) (k : Key) (id : RecordId) : Leaf :=
  let position := partitionPoint (fun e : Entry => !k.precedes e.key) l.entries
  { l with entries := l.entries.insertIdx position ⟨k, id⟩ }

/-- The position of the first entry with an equal key and the same identifier. -/
def find? (l : Leaf) (k : Key) (id : RecordId) : Option Nat :=
  let start := partitionPoint (fun e : Entry => e.key.precedes k) l.entries
  let run := (l.entries.drop start).takeWhile fun e => e.key.ties k
  (run.findIdx? fun e => e.id = id).map (start + ·)

def remove? (l : Leaf) (k : Key) (id : RecordId) : Option Leaf :=
  (l.find? k id).map fun position => { l with entries := l.entries.eraseIdx position }

/-- Whether the entries fit on two pages when they are parted at a position. -/
def fitsParted (sizes : List Nat) (position : Nat) : Bool :=
  headerSize + totalSize (sizes.take position) ≤ pageSize
    && headerSize + totalSize (sizes.drop position) ≤ pageSize

/-- The edges of the run of equal keys that a position parts, the nearer first. -/
def runEdges (entries : List Entry) (position : Nat) (k : Key) : List Nat :=
  let start := partitionPoint (fun e : Entry => e.key.precedes k) (entries.take position)
  let stop := position + partitionPoint (fun e : Entry => e.key.ties k) (entries.drop position)
  let distance (edge : Nat) : Nat := (edge - position) + (position - edge)
  if distance stop < distance start then [stop, start] else [start, stop]

/-- Where a leaf is parted: half way by size, or at an edge of the run of equal keys there if the
halves fit on pages. -/
def splitPoint (entries : List Entry) : Nat :=
  let sizes := entries.map entrySize
  let count := entries.length
  let middle := min (max 1 (min (sizeMidpoint sizes) (max 1 (count - 1)))) count
  match entries[middle - 1]?, entries[middle]? with
  | some left, some right =>
    if left.key.ties right.key then
      let usable (edge : Nat) : Bool := 1 ≤ edge && edge < count && fitsParted sizes edge
      ((runEdges entries middle right.key).find? usable).getD middle
    else middle
  | _, _ => middle

/-- Parts a leaf in two. The left half keeps the neighbours, the right half has none yet. -/
def split (l : Leaf) : Leaf × Leaf :=
  let position := splitPoint l.entries
  ({ l with entries := l.entries.take position }, { entries := l.entries.drop position })

end Leaf

/-! ## Internal nodes -/

structure Internal where
  keys : List Key
  children : List PageNum
deriving DecidableEq, Repr

namespace Internal

def headerSize : Nat := 8

def keySize (k : Key) : Nat := k.encodedSize + 4

def encodedSize (n : Internal) : Nat := headerSize + totalSize (n.keys.map keySize)

def fits (n : Internal) : Bool := n.encodedSize ≤ pageSize

/-- The child where a key belongs; a key that equals a separator belongs to its right. -/
def childIndex (n : Internal) (k : Key) : Nat := partitionPoint (fun s => !k.precedes s) n.keys

def lowerChildIndex (n : Internal) (k : Key) : Nat := partitionPoint (fun s => s.precedes k) n.keys

/-- Adds a separator and the child to its right, behind the child at `index`. -/
def insertChild (n : Internal) (index : Nat) (separator : Key) (right : PageNum) : Internal where
  keys := n.keys.insertIdx index separator
  children := n.children.insertIdx (index + 1) right

/-- Parts a node half way by size. The separator between the halves belongs to neither; a node
with fewer than three separators is not parted. -/
def split? (n : Internal) : Option (Internal × Key × Internal) :=
  if n.keys.length < 3 then none
  else
    let middle := max 1 (min (sizeMidpoint (n.keys.map keySize)) (n.keys.length - 2))
    n.keys[middle]?.map fun promoted =>
      (⟨n.keys.take middle, n.children.take (middle + 1)⟩, promoted,
        ⟨n.keys.drop (middle + 1), n.children.drop (middle + 1)⟩)

end Internal

inductive Node where
  | leaf (l : Leaf)
  | internal (n : Internal)
deriving DecidableEq, Repr

end Tablespace
