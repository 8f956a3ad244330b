import Tablespace.Volume.DirectoryTree

/-!
# Volumes

A volume is a tree of directories with paged files in it, and the handles that
are bound to files. A file lives as long as a name or a handle leads to it:
taking a name away leaves the bound handles as they are. Every handle sees the
changes that others make, and keeps its counts when it is closed.
-/

namespace Tablespace

structure Binding where
  file : Nat
  path : String
deriving DecidableEq, Repr

structure Handle where
  binding : Option Binding := none
  counters : Counters := {}
deriving DecidableEq, Repr

structure Volume where
  tree : DirectoryTree := {}
  /-- The files by number, those without a name too. -/
  files : List PagedFile := []
  handles : List (String × Handle) := []

abbrev VolumeM := EStateM FileError Volume

namespace Volume

/-! ## Files -/

/-- Works on the directories; what was done before a failure stays done. -/
def onTree {α : Type} (work : EStateM PathFault DirectoryTree α) : VolumeM α := fun v =>
  match work v.tree with
  | .ok a tree => .ok a { v with tree }
  | .error fault tree => .error (.io fault) { v with tree }

def exists? (v : Volume) (path : String) : Bool := (v.tree.find path).toOption.isSome

def makeDirectories (path : String) : VolumeM Unit := onTree (DirectoryTree.makeDirectories path)

def addFile (path : String) : VolumeM Unit := do
  let number := (← get).files.length
  onTree do set (← (← get).addFile path number)
  modify fun v => { v with files := v.files ++ [PagedFile.empty] }

def create (path : String) : VolumeM Unit := do
  if (← get).exists? path then throw (.fileAlreadyExists path)
  makeDirectories (Path.parent path)
  addFile path

def destroy (path : String) : VolumeM Unit := do
  match (← get).tree.find path with
  | .error _ => throw (.fileNotFound path)
  | .ok (_, .directory) => throw (.io .isADirectory)
  | .ok (location, .file _) => modify fun v => { v with tree := v.tree.remove location }

def openable (v : Volume) (path : String) : Except FileError Nat :=
  match v.tree.find path with
  | .error _ => .error (.fileNotFound path)
  | .ok (_, .directory) => .error (.io .isADirectory)
  | .ok (_, .file number) => .ok number

def access (v : Volume) (path : String) : Except FileError Access := do
  let number ← v.openable path
  return { file := v.files[number]? }

/-! ## Handles -/

/-- A handle by name; one that was never opened is unbound and has counted nothing. -/
def handle (v : Volume) (name : String) : Handle := (v.handles.lookup name).getD {}

def setHandle (v : Volume) (name : String) (h : Handle) : Volume :=
  { v with handles := (name, h) :: v.handles.filter (·.1 ≠ name) }

def openHandle (name path : String) : VolumeM Unit := do
  let v ← get
  let h := v.handle name
  match h.binding with
  | some b => throw (.handleAlreadyOpen b.path)
  | none =>
    let number ← v.openable path
    set (v.setHandle name { h with binding := some ⟨number, path⟩ })

def closeHandle (name : String) : VolumeM Unit := do
  let v ← get
  let h := v.handle name
  if h.binding.isNone then throw .handleNotOpen
  set (v.setHandle name { h with binding := none })

def accessOf (v : Volume) (h : Handle) : Access :=
  { file := h.binding.bind fun b => v.files[b.file]?, counters := h.counters }

/-- Puts the file and the counts of an access back under a handle. -/
def putBack (v : Volume) (name : String) (a : Access) : Volume :=
  let h := v.handle name
  let files := match h.binding, a.file with
    | some b, some f => v.files.set b.file f
    | _, _ => v.files
  { v with files }.setHandle name { h with counters := a.counters }

/-- Works on a file through a handle; what was done before a failure stays done. -/
def through {ε α : Type} (name : String) (work : EStateM ε Access α) : EStateM ε Volume α :=
  fun v =>
    match work (v.accessOf (v.handle name)) with
    | .ok a access => .ok a (v.putBack name access)
    | .error e access => .error e (v.putBack name access)

/-- Works on the file at a path through a handle of its own, which is closed again. -/
def onFile {ε α : Type} (path : String) (wrap : FileError → ε) (work : EStateM ε Access α) :
    EStateM ε Volume α := do
  let v ← get
  match v.openable path with
  | .error e => throw (wrap e)
  | .ok number =>
    match work { file := v.files[number]? } with
    | .ok a access =>
      set { v with files := v.files.set number (access.file.getD .empty) }
      return a
    | .error e access =>
      set { v with files := v.files.set number (access.file.getD .empty) }
      throw e

/-! ## Contents of files -/

def alter (path : String) (change : Bytes → Bytes) : VolumeM Unit := do
  let v ← get
  let number ← v.openable path
  let old := (v.files[number]?.map PagedFile.toBytes).getD []
  set { v with files := v.files.set number (.ofBytes (change old)) }

def putFile (path : String) (b : Bytes) : VolumeM Unit := do
  unless (← get).exists? path do addFile path
  alter path fun _ => b

/-- Writes bytes at an offset of a file; a gap before them is filled with zeros. Without bytes
nothing is written, and no gap is filled. -/
def poke (path : String) (offset : Nat) (b : Bytes) : VolumeM Unit :=
  alter path fun old =>
    if b.isEmpty then old else (old ++ Bytes.zeros (offset - old.length)).overwrite offset b

def setLength (path : String) (length : Nat) : VolumeM Unit :=
  alter path fun old => old.take length ++ Bytes.zeros (length - old.length)

def fileLength (v : Volume) (path : String) : Except FileError Nat := do
  let number ← v.openable path
  return (v.files[number]?.map PagedFile.length).getD 0

end Volume

end Tablespace
