import Tablespace.Index

/-!
# Outlines of indexes

An outline shows a tree in text: an internal node lists its separators and its
children, a leaf has one label for each run of equal keys, with the
identifiers of the run.
-/

namespace Tablespace

inductive Outline where
  | node (keys : List String) (children : List Outline)
deriving Repr

namespace Outline

def keys : Outline → List String
  | .node keys _ => keys

def children : Outline → List Outline
  | .node _ children => children

mutual
def leafKeyCount : Outline → Nat
  | .node keys [] => keys.length
  | .node _ (child :: rest) => leafKeyCount child + leafKeyCounts rest
def leafKeyCounts : List Outline → Nat
  | [] => 0
  | child :: rest => leafKeyCount child + leafKeyCounts rest
end

/-- The label of a run of entries, which shows the key of the first. -/
def runLabel : List Entry → String
  | [] => ""
  | e :: rest =>
    let ids := String.intercalate "," ((e :: rest).map fun other => other.id.display)
    s!"{e.key.display}:[{ids}]"

def runs (entries : List Entry) : List (List Entry) := entries.splitBy fun e f => e.key.ties f.key

def ofLeaf (l : Leaf) : Outline := .node ((runs l.entries).map runLabel) []

/-- The outline below a page, at most `depth` internal nodes deep. -/
def ofPage (type : AttributeType) : (depth : Nat) → PageNum → IndexM Outline
  | depth, page => do
    match ← Index.readNode type page with
    | .leaf l => return ofLeaf l
    | .internal n =>
      match depth with
      | 0 => Index.fail page .deeperThanFile
      | depth + 1 =>
        let children ← n.children.mapM (ofPage type depth)
        return .node (n.keys.map Key.display) children

end Outline

/-- The outline of a whole index; no path in a tree is longer than there are pages. -/
def Index.outline (a : Attribute) : IndexM Outline := do
  Outline.ofPage a.type (← Access.pageCount).toNat root

end Tablespace
