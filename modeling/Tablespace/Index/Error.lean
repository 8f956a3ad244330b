import Tablespace.Record.Error

/-!
# Failures of indexes
-/

namespace Tablespace

inductive KeyFault where
  | notAKey (fault : TupleFault)
  | tooLong (actual : Nat) (declared : Attribute)
deriving DecidableEq, Repr

inductive NodeFault where
  | usedBytes (stop : Nat)
  | outOfBounds (access : OutOfBounds)
  | invalidSibling (pointer : Int32)
  | slotNumber (slot : UInt32)
  | noChildren
  | expectedLeaf
  | expectedInternal
  | noLeafReached
  | deeperThanFile
  | leafChainLoops
  | notAChild (page : PageNum)
  | emptyRightHalf
  | tooFewKeys
  | splitPastRoot
deriving DecidableEq, Repr

inductive IndexError where
  | file (error : FileError)
  /-- The key stands here as it is displayed. -/
  | entryNotFound (key : String) (id : RecordId)
  | malformedKey (fault : KeyFault)
  | keyTooLarge (size limit : Nat)
  | corruption (page : PageNum) (fault : NodeFault)
deriving DecidableEq, Repr

def KeyFault.message : KeyFault → String
  | .notAKey fault => (RecordError.malformedTuple fault).message
  | .tooLong actual declared =>
    s!"{actual} bytes exceed declared length {declared.length} of '{declared.name}'"

def NodeFault.message : NodeFault → String
  | .usedBytes stop => s!"used-bytes offset {stop} out of range"
  | .outOfBounds access => access.message
  | .invalidSibling pointer => s!"invalid sibling pointer {pointer.toInt}"
  | .slotNumber slot => s!"slot number {slot} out of range"
  | .noChildren => "internal node without children"
  | .expectedLeaf => "expected a leaf node"
  | .expectedInternal => "expected an internal node"
  | .noLeafReached => "descent does not reach a leaf"
  | .deeperThanFile => "tree deeper than the file"
  | .leafChainLoops => "leaf chain loops"
  | .notAChild page => s!"page {page} is not a child"
  | .emptyRightHalf => "leaf split left the right half empty"
  | .tooFewKeys => "overflowing node has too few keys to split"
  | .splitPastRoot => "split propagated past the root"

def IndexError.message : IndexError → String
  | .file error => s!"File error: {error.message}"
  | .entryNotFound key id => s!"Entry not found: key={key} rid={id.display}"
  | .malformedKey fault => s!"Malformed key: {fault.message}"
  | .keyTooLarge size limit => s!"Key of {size} bytes exceeds the {limit} byte limit"
  | .corruption page fault => s!"Corrupted node at page {page}: {fault.message}"

end Tablespace
