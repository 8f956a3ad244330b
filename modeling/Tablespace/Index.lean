import Tablespace.File.Access
import Tablespace.Index.NodePage

/-!
# Index files

A tree of nodes, one on each page. The first page is the root and always an
internal node; a fresh index has a root with one child, an empty leaf. Leaves
form a chain in the order of their keys and are never merged.
-/

namespace Tablespace

abbrev IndexM := EStateM IndexError Access

instance : MonadLift FileM IndexM where
  monadLift := EStateM.adaptExcept IndexError.file

namespace Index

open Access

def root : PageNum := 0

def fail {α : Type} (page : PageNum) (fault : NodeFault) : IndexM α :=
  throw (.corruption page fault)

/-! ## Nodes of a file -/

def readNode (type : AttributeType) (page : PageNum) : IndexM Node := do
  NodePage.toNode (← readPage page) type page

def readLeaf (type : AttributeType) (page : PageNum) : IndexM Leaf := do
  match ← readNode type page with
  | .leaf l => return l
  | .internal _ => fail page .expectedLeaf

def readInternal (type : AttributeType) (page : PageNum) : IndexM Internal := do
  match ← readNode type page with
  | .internal n => return n
  | .leaf _ => fail page .expectedInternal

def writeNode (page : PageNum) (n : Node) : IndexM Unit := do
  writePage page (← NodePage.ofNode n)

def appendNode (n : Node) : IndexM PageNum := do
  appendPage (← NodePage.ofNode n)

def plant : IndexM Unit := do
  let _ ← appendNode (.internal ⟨[], [1]⟩)
  let _ ← appendNode (.leaf {})

/-! ## Descents -/

/-- Goes down from a node to a leaf by a choice of child, through at most `limit` nodes. Returns
the internal nodes on the way from the top and the leaf. -/
def descend (type : AttributeType) (choose : Internal → Nat) :
    (limit : Nat) → PageNum → IndexM (List PageNum × PageNum)
  | 0, page => fail page .noLeafReached
  | limit + 1, page => do
    match ← readNode type page with
    | .leaf _ => return ([], page)
    | .internal n =>
      let (path, leaf) ← descend type choose limit (n.children.getD (choose n) root)
      return (page :: path, leaf)

/-- A descent from the root; no path in a tree is longer than there are pages. -/
def descendFromRoot (type : AttributeType) (choose : Internal → Nat) :
    IndexM (List PageNum × PageNum) := do
  descend type choose ((← pageCount).toNat + 1) root

def pathTo (type : AttributeType) (k : Key) : IndexM (List PageNum × PageNum) :=
  descendFromRoot type fun n => n.childIndex k

def lowerLeaf (type : AttributeType) (k : Key) : IndexM PageNum := do
  return (← descendFromRoot type fun n => n.lowerChildIndex k).2

def firstLeaf (type : AttributeType) : IndexM PageNum := do
  return (← descendFromRoot type fun _ => 0).2

def search (a : Attribute) (key : Bytes) : IndexM (List PageNum) := do
  let k ← Key.ofBytesBounded a key
  let (path, leaf) ← pathTo a.type k
  return path ++ [leaf]

/-! ## Inserting -/

/-- Parts a leaf that is too large and puts the right half on a new page behind it in the chain.
Returns the first key of that page, and the page. -/
def splitLeaf (type : AttributeType) (page : PageNum) (l : Leaf) : IndexM (Key × PageNum) := do
  let (left, right) := l.split
  let some first := right.entries.head? | fail page .emptyRightHalf
  let rightPage ← pageCount
  match l.next with
  | some next =>
    let neighbour ← readLeaf type next
    writeNode next (.leaf { neighbour with prev := some rightPage })
  | none => pure ()
  let _ ← appendNode (.leaf { right with prev := some page, next := l.next })
  writeNode page (.leaf { left with next := some rightPage })
  return (first.key, rightPage)

/-- Adds a separator and the page to its right to the parents of the page to its left, from the
nearest parent up. A parent that gets too large is parted, and its middle separator goes on to its
own parent; the root stays in place and gets two new children. -/
def addSeparator (type : AttributeType) (separator : Key) (left right : PageNum) :
    List PageNum → IndexM Unit
  | [] => fail root .splitPastRoot
  | parent :: above => do
    let n ← readInternal type parent
    let some index := n.children.findIdx? (· = left) | fail parent (.notAChild left)
    let n := n.insertChild index separator right
    if n.fits then
      writeNode parent (.internal n)
    else
      let some (lower, promoted, upper) := n.split? | fail parent .tooFewKeys
      if parent = root then
        let lowerPage ← appendNode (.internal lower)
        let upperPage ← appendNode (.internal upper)
        writeNode root (.internal ⟨[promoted], [lowerPage, upperPage]⟩)
      else
        let upperPage ← appendNode (.internal upper)
        writeNode parent (.internal lower)
        addSeparator type promoted parent upperPage above

def insert (a : Attribute) (key : Bytes) (id : RecordId) : IndexM Unit := do
  let k ← Key.ofBytesBounded a key
  let (path, page) ← pathTo a.type k
  let l := (← readLeaf a.type page).insert k id
  if l.fits then
    writeNode page (.leaf l)
  else
    let (separator, right) ← splitLeaf a.type page l
    addSeparator a.type separator page right path.reverse

/-! ## Deleting -/

/-- Removes an entry from the first of at most `limit` leaves that has it; false when none has. -/
def removeFromChain (type : AttributeType) (k : Key) (id : RecordId) :
    (limit : Nat) → PageNum → IndexM Bool
  | 0, _ => return false
  | limit + 1, page => do
    let l ← readLeaf type page
    match l.remove? k id with
    | some l =>
      writeNode page (.leaf l)
      return true
    | none =>
      let past := l.entries.getLast?.any fun e => k.precedes e.key
      match l.next with
      | some next => if past then return false else removeFromChain type k id limit next
      | none => return false

def delete (a : Attribute) (key : Bytes) (id : RecordId) : IndexM Unit := do
  let k ← Key.ofBytesBounded a key
  let limit ← pageCount
  let page ← lowerLeaf a.type k
  unless ← removeFromChain a.type k id limit.toNat page do
    throw (.entryNotFound k.display id)

end Index

end Tablespace
