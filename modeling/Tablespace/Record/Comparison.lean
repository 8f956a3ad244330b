import Tablespace.Record.Packed

/-!
# Comparisons

Contents of fields compare as numbers or, for texts, byte by byte. Contents
that are too short for a number compare byte by byte too.
-/

namespace Tablespace

inductive Comparison where
  | eq
  | lt
  | le
  | gt
  | ge
  | ne
  | any
deriving DecidableEq, Repr

namespace Comparison

def name : Comparison → String
  | .eq => "Eq"
  | .lt => "Lt"
  | .le => "Le"
  | .gt => "Gt"
  | .ge => "Ge"
  | .ne => "Ne"
  | .any => "NoOp"

def all : List Comparison := [.eq, .lt, .le, .gt, .ge, .ne, .any]

/-- Whether a field accepts a comparand, given the order of the two. -/
def accepts : Comparison → Ordering → Bool
  | .eq, o => o.isEq
  | .lt, o => o.isLT
  | .le, o => o.isLE
  | .gt, o => o.isGT
  | .ge, o => o.isGE
  | .ne, o => o.isNe
  | .any, _ => true

end Comparison

def compareContents (type : AttributeType) (x y : Bytes) : Ordering :=
  match type, x.uint32At 0, y.uint32At 0 with
  | .int, .ok i, .ok j => compare i.toInt32.toInt j.toInt32.toInt
  | .real, .ok r, .ok s => compare (Single.mk r) (Single.mk s)
  | _, _, _ => compare x y

end Tablespace
