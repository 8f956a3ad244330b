import Tablespace.Bytes

/-!
# Failures of files and pages
-/

namespace Tablespace

abbrev PageNum := UInt32

inductive PathFault where
  | notFound
  | alreadyExists
  | notADirectory
  | isADirectory
  | nameTooLong
  | nulByte
deriving DecidableEq, Repr

namespace PathFault

/-- The number by which the system knows a fault, if it gets to see the path at all. -/
def code? : PathFault → Option Nat
  | .notFound => some 2
  | .alreadyExists => some 17
  | .notADirectory => some 20
  | .isADirectory => some 21
  | .nameTooLong => some 36
  | .nulByte => none

def text : PathFault → String
  | .notFound => "No such file or directory"
  | .alreadyExists => "File exists"
  | .notADirectory => "Not a directory"
  | .isADirectory => "Is a directory"
  | .nameTooLong => "File name too long"
  | .nulByte => "file name contained an unexpected NUL byte"

def message (f : PathFault) : String :=
  match f.code? with
  | some code => s!"{f.text} (os error {code})"
  | none => f.text

end PathFault

inductive FileError where
  | io (fault : PathFault)
  | fileNotFound (path : String)
  | fileAlreadyExists (path : String)
  | handleAlreadyOpen (path : String)
  | handleNotOpen
  | pageNotFound (page pageCount : PageNum)
  | invalidPageSize (expected actual : Nat)
  | outOfBounds (access : OutOfBounds)
deriving DecidableEq, Repr

def OutOfBounds.message (a : OutOfBounds) : String :=
  s!"Out of bounds access: offset={a.offset}, len={a.length}, buffer size={a.size}"

def FileError.message : FileError → String
  | .io fault => s!"IO error: {fault.message}"
  | .fileNotFound path => s!"File not found: {path}"
  | .fileAlreadyExists path => s!"File already exists: {path}"
  | .handleAlreadyOpen path => s!"File handle is already bound to {path}"
  | .handleNotOpen => "File handle is not open"
  | .pageNotFound page pageCount =>
    s!"Page not found: page_num={page}, page_count={pageCount}"
  | .invalidPageSize expected actual =>
    s!"Invalid page size: expected {expected}, got {actual}"
  | .outOfBounds access => access.message

end Tablespace
