import Tablespace.File.Error
import Tablespace.File.Paged

/-!
# Access to the pages of a file

A handle sees a file or is unbound, and counts the pages that it has read,
written and appended. A call that fails changes neither the file nor a count.
-/

namespace Tablespace

structure Counters where
  reads : Nat := 0
  writes : Nat := 0
  appends : Nat := 0
deriving DecidableEq, Repr

structure Access where
  file : Option PagedFile := none
  counters : Counters := {}

abbrev FileM := EStateM FileError Access

/-- Runs a fallible computation inside one that has a state. -/
instance liftExcept {ε σ : Type} : MonadLift (Except ε) (EStateM ε σ) where
  monadLift
    | .ok a => pure a
    | .error e => throw e

namespace Access

def boundFile : FileM PagedFile := do
  match (← get).file with
  | some f => return f
  | none => throw .handleNotOpen

def pageCount : FileM PageNum := do
  return UInt32.ofNat (← boundFile).pages.length

/-- The page of a number below the page count. -/
def existingPage (n : PageNum) : FileM Page := do
  let f ← boundFile
  match f.pages[n.toNat]? with
  | some p => return p
  | none => throw (.pageNotFound n (UInt32.ofNat f.pages.length))

def wholePage (b : Bytes) : Except FileError Page :=
  if h : b.length = pageSize then .ok ⟨b, h⟩ else .error (.invalidPageSize pageSize b.length)

/-- Reads a page into a buffer of `size` bytes, which has to be the size of a page. -/
def readPage (n : PageNum) (size : Nat := pageSize) : FileM Bytes := do
  unless size = pageSize do throw (.invalidPageSize pageSize size)
  let p ← existingPage n
  modify fun a => { a with counters.reads := a.counters.reads + 1 }
  return p.bytes

/-- Replaces a page; the file never grows. -/
def writePage (n : PageNum) (b : Bytes) : FileM Unit := do
  let p ← wholePage b
  let _ ← existingPage n
  modify fun a =>
    { a with file := a.file.map (·.replace n.toNat p), counters.writes := a.counters.writes + 1 }

def appendPage (b : Bytes) : FileM PageNum := do
  let p ← wholePage b
  let n ← pageCount
  modify fun a =>
    { a with file := a.file.map (·.append p), counters.appends := a.counters.appends + 1 }
  return n

/-! ## Laws -/

variable {f : PagedFile} {c : Counters} {n : PageNum} {p : Page}

theorem run_liftExcept {ε σ α : Type} (x : Except ε α) (s : σ) :
    (liftM x : EStateM ε σ α) s =
      match x with
      | .ok a => .ok a s
      | .error e => .error e s := by
  cases x <;> rfl

theorem run_boundFile : boundFile ⟨some f, c⟩ = .ok f ⟨some f, c⟩ := rfl

theorem run_pageCount :
    pageCount ⟨some f, c⟩ = .ok (UInt32.ofNat f.pages.length) ⟨some f, c⟩ := rfl

theorem run_existingPage (h : f.pages[n.toNat]? = some p) :
    existingPage n ⟨some f, c⟩ = .ok p ⟨some f, c⟩ := by
  simp [existingPage, bind, EStateM.bind, run_boundFile, h, pure, EStateM.pure]

theorem wholePage_bytes (p : Page) : wholePage p.bytes = .ok p := by
  rw [wholePage, dif_pos p.length_eq]

theorem run_readPage (h : f.pages[n.toNat]? = some p) :
    readPage n pageSize ⟨some f, c⟩ = .ok p.bytes ⟨some f, { c with reads := c.reads + 1 }⟩ := by
  simp only [readPage, if_true, bind, EStateM.bind, run_existingPage h]
  rfl

theorem run_writePage (h : n.toNat < f.pages.length) :
    writePage n p.bytes ⟨some f, c⟩
      = .ok () ⟨some (f.replace n.toNat p), { c with writes := c.writes + 1 }⟩ := by
  have hp := run_existingPage (c := c) (List.getElem?_eq_getElem h)
  simp only [writePage, wholePage_bytes, run_liftExcept, bind, EStateM.bind, hp]
  rfl

theorem run_appendPage :
    appendPage p.bytes ⟨some f, c⟩
      = .ok (UInt32.ofNat f.pages.length)
          ⟨some (f.append p), { c with appends := c.appends + 1 }⟩ := by
  simp only [appendPage, wholePage_bytes, run_liftExcept, bind, EStateM.bind, run_pageCount]
  rfl

end Access

end Tablespace
