import Tablespace.Bytes

/-!
# Paged files

A file is an array of whole pages and a tail that is too short to be one. The
tail does not count as a page, and a page that is appended takes its place.
-/

namespace Tablespace

def pageSize : Nat := 4096

structure Page where
  bytes : Bytes
  length_eq : bytes.length = pageSize

structure PagedFile where
  pages : List Page
  tail : Bytes
  length_tail : tail.length < pageSize

/-- The page at the front of a byte string, filled up with zeros where that is too short. -/
def Page.ofBytes (b : Bytes) : Page where
  bytes := b.take pageSize ++ Bytes.zeros (pageSize - (b.take pageSize).length)
  length_eq := by
    rw [List.length_append, List.length_take, Bytes.length_zeros]
    omega

theorem Page.bytes_ofBytes {b : Bytes} (h : pageSize ≤ b.length) :
    (Page.ofBytes b).bytes = b.take pageSize := by
  simp [Page.ofBytes, Bytes.zeros, Nat.min_eq_left h]

namespace PagedFile

def empty : PagedFile := ⟨[], [], by decide⟩

def cutPages : Nat → Bytes → List Page
  | 0, _ => []
  | n + 1, b => Page.ofBytes b :: cutPages n (b.drop pageSize)

def ofBytes (b : Bytes) : PagedFile where
  pages := cutPages (b.length / pageSize) b
  tail := b.drop (b.length / pageSize * pageSize)
  length_tail := by
    have := Nat.div_add_mod' b.length pageSize
    have := Nat.mod_lt b.length (show 0 < pageSize by decide)
    rw [List.length_drop]
    omega

def toBytes (f : PagedFile) : Bytes := f.pages.flatMap Page.bytes ++ f.tail

def length (f : PagedFile) : Nat := f.pages.length * pageSize + f.tail.length

def append (f : PagedFile) (p : Page) : PagedFile := ⟨f.pages ++ [p], [], by decide⟩

def replace (f : PagedFile) (n : Nat) (p : Page) : PagedFile := { f with pages := f.pages.set n p }

/-! ## Laws -/

theorem length_flatMap_bytes (ps : List Page) : (ps.flatMap Page.bytes).length = ps.length * pageSize := by
  induction ps with
  | nil => simp
  | cons p ps ih =>
    rw [List.flatMap_cons, List.length_append, ih, p.length_eq, List.length_cons, Nat.succ_mul, Nat.add_comm]

theorem length_toBytes (f : PagedFile) : f.toBytes.length = f.length := by
  rw [toBytes, List.length_append, length_flatMap_bytes, length]

theorem flatMap_cutPages (n : Nat) (b : Bytes) (h : n * pageSize ≤ b.length) :
    (cutPages n b).flatMap Page.bytes = b.take (n * pageSize) := by
  induction n generalizing b with
  | zero => simp [cutPages]
  | succ n ih =>
    rw [Nat.add_one_mul] at h
    rw [cutPages, List.flatMap_cons, ih _ (by rw [List.length_drop]; omega),
      Page.bytes_ofBytes (by omega), Nat.add_one_mul, Nat.add_comm, List.take_add]

@[simp] theorem toBytes_ofBytes (b : Bytes) : (ofBytes b).toBytes = b := by
  rw [toBytes, ofBytes, flatMap_cutPages _ _ (Nat.div_mul_le_self _ _), List.take_append_drop]

theorem length_pages (f : PagedFile) : f.pages.length = f.length / pageSize := by
  rw [length, Nat.mul_comm, Nat.mul_add_div (by decide), Nat.div_eq_of_lt f.length_tail,
    Nat.add_zero]

end PagedFile

end Tablespace
