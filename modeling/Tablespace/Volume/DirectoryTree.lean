import Tablespace.File.Access
import Tablespace.Volume.Path

/-!
# Directories

A tree of directories with files in it, and the ways through it. Each name on
a way but the last has to lead to a directory; what is wrong first on the way
is reported.
-/

namespace Tablespace

/-- The names on the way from the top directory. -/
abbrev Location := List String

inductive DirectoryEntry where
  | directory
  | file (number : Nat)
deriving DecidableEq, Repr

structure DirectoryTree where
  entries : List (Location × DirectoryEntry) := []
deriving DecidableEq, Repr

namespace DirectoryTree

/-- The directory where relative paths start. It lies in the top directory under a name that no
path can spell. -/
def workingDirectory : Location := [""]

def start (path : String) : Location := if Path.isAbsolute path then [] else workingDirectory

def kindAt? (t : DirectoryTree) (location : Location) : Option DirectoryEntry :=
  if location = [] ∨ location = workingDirectory then some .directory else t.entries.lookup location

/-! ## Ways -/

def child (directory : Location) (name : String) : Except PathFault Location :=
  if Path.maxNameSize < name.utf8ByteSize then .error .nameTooLong else .ok (directory ++ [name])

/-- One name further, to a directory. -/
def enter (t : DirectoryTree) (location : Location) (name : String) :
    Except PathFault Location := do
  if name = "." then return location
  if name = ".." then return location.dropLast
  let next ← child location name
  match t.kindAt? next with
  | some .directory => return next
  | some (.file _) => throw .notADirectory
  | none => throw .notFound

/-- Where a way ends: in a directory, or at a name that need not be there. -/
inductive Destination where
  | directory (location : Location)
  | name (directory : Location) (name : String)

def follow (t : DirectoryTree) (start : Location) (names : List String) :
    Except PathFault Destination := do
  let some last := names.getLast? | return .directory start
  let above ← names.dropLast.foldlM t.enter start
  if last = "." then return .directory above
  if last = ".." then return .directory above.dropLast
  return .name above last

def isDirectory (t : DirectoryTree) (start : Location) (names : List String) : Bool :=
  match t.follow start names with
  | .ok (.directory _) => true
  | .ok (.name above name) => t.kindAt? (above ++ [name]) = some .directory
  | .error _ => false

def find (t : DirectoryTree) (path : String) : Except PathFault (Location × DirectoryEntry) := do
  Path.check path
  match ← t.follow (start path) (Path.names path) with
  | .directory location => return (location, .directory)
  | .name above name =>
    let location ← child above name
    match t.kindAt? location with
    | none => throw .notFound
    | some .directory => return (location, .directory)
    | some (.file number) =>
      if Path.endsInSlash path then throw .notADirectory
      return (location, .file number)

/-! ## Changes -/

def add (t : DirectoryTree) (above : Location) (name : String) (entry : DirectoryEntry) :
    Except PathFault DirectoryTree := do
  let location ← child above name
  if (t.kindAt? location).isSome then throw .alreadyExists
  return ⟨(location, entry) :: t.entries⟩

def addFile (t : DirectoryTree) (path : String) (number : Nat) :
    Except PathFault DirectoryTree := do
  Path.check path
  match ← t.follow (start path) (Path.names path) with
  | .directory _ => throw .alreadyExists
  | .name above name =>
    if Path.endsInSlash path then throw .isADirectory
    t.add above name (.file number)

def addDirectory (t : DirectoryTree) (start : Location) (names : List String) :
    Except PathFault DirectoryTree := do
  match ← t.follow start names with
  | .directory _ => throw .alreadyExists
  | .name above name => t.add above name .directory

def remove (t : DirectoryTree) (location : Location) : DirectoryTree :=
  ⟨t.entries.filter (·.1 ≠ location)⟩

/-- Makes a directory; one that is there already will do. When the way to it is missing, `above`
makes that first. -/
def makeDirectory (start : Location) (names : List String)
    (above : EStateM PathFault DirectoryTree Unit) : EStateM PathFault DirectoryTree Unit := do
  match (← get).addDirectory start names with
  | .ok t => set t
  | .error .notFound =>
    above
    match (← get).addDirectory start names with
    | .ok t => set t
    | .error fault => unless (← get).isDirectory start names do throw fault
  | .error fault => unless (← get).isDirectory start names do throw fault

/-- Makes a directory and those above it, given the names of its way from the last to the first. -/
def makeBackwards (start : Location) : List String → EStateM PathFault DirectoryTree Unit
  | [] => return ()
  | name :: above => makeDirectory start (name :: above).reverse (makeBackwards start above)

def makeDirectories (path : String) : EStateM PathFault DirectoryTree Unit := do
  if path = "" then return ()
  Path.check path
  let names := Path.names path
  let above := (names.filter (· ≠ ".")).dropLast
  makeDirectory (start path) names (makeBackwards (start path) above.reverse)

end DirectoryTree

end Tablespace
