import Tablespace.Proofs.Run
import Tablespace.Proofs.Window

/-!
# Calls on files

A file is an array of bytes that is read and written a page at a time. A call
acts on it as it does on the bytes, or it fails and changes nothing.
-/

namespace Tablespace

namespace PagedFile

variable {f : PagedFile} {p : Page} {n : Nat}

/-! ## Pages among the bytes -/

theorem length_toBytes_div (f : PagedFile) : f.toBytes.length / pageSize = f.pages.length := by
  rw [length_toBytes, length_pages]

theorem toBytes_around {before after : List Page} (h : f.pages = before ++ p :: after) : f.toBytes
    = before.flatMap Page.bytes ++ p.bytes ++ (after.flatMap Page.bytes ++ f.tail) := by
  rw [toBytes, h]
  simp

theorem exists_around (h : f.pages[n]? = some p) :
    ∃ before after, f.pages = before ++ p :: after ∧ before.length = n := by
  obtain ⟨hlt, rfl⟩ := List.getElem?_eq_some_iff.mp h
  refine ⟨f.pages.take n, f.pages.drop (n + 1), ?_, ?_⟩
  · rw [← List.drop_eq_getElem_cons hlt, List.take_append_drop]
  · rw [List.length_take]
    omega

theorem slice_toBytes (h : f.pages[n]? = some p) : f.toBytes.slice (n * pageSize) pageSize = .ok p.bytes := by
  obtain ⟨before, after, hpages, rfl⟩ := exists_around h
  have hslice := Bytes.slice_middle (before.flatMap Page.bytes) p.bytes (after.flatMap Page.bytes ++ f.tail)
  rwa [← toBytes_around hpages, length_flatMap_bytes, p.length_eq] at hslice

theorem toBytes_replace (h : n < f.pages.length) (p : Page) :
    (f.replace n p).toBytes = f.toBytes.overwrite (n * pageSize) p.bytes := by
  obtain ⟨before, after, hpages, rfl⟩ := exists_around (List.getElem?_eq_getElem h)
  have hset : (f.replace before.length p).pages = before ++ p :: after := by
    rw [replace, hpages]
    simp
  rw [toBytes_around hset, toBytes_around hpages, ← length_flatMap_bytes, Bytes.overwrite_middle]
  · rfl
  · rw [p.length_eq, Page.length_eq]

/-- A page that is appended takes the place of the tail. -/
theorem toBytes_append (f : PagedFile) (p : Page) :
    (f.append p).toBytes = f.toBytes.take (f.pages.length * pageSize) ++ p.bytes := by
  rw [toBytes, append, toBytes, ← length_flatMap_bytes, List.take_left]
  simp

end PagedFile

/-! ## Calls -/

inductive FileCall where
  | count
  | read (page : PageNum) (size : Nat)
  | write (page : PageNum) (b : Bytes)
  | append (b : Bytes)

inductive FileReply where
  | number (n : PageNum)
  | bytes (b : Bytes)
  | done

namespace FileCall

def perform : FileCall → FileM FileReply
  | .count => return .number (← Access.pageCount)
  | .read page size => return .bytes (← Access.readPage page size)
  | .write page b => do
    Access.writePage page b
    return .done
  | .append b => return .number (← Access.appendPage b)

/-- What a file of so many pages refuses: a buffer that is not a page, and a page that it has not. -/
def IsRefused (count : Nat) : FileCall → Prop
  | .count => False
  | .read page size => size ≠ pageSize ∨ count ≤ page.toNat
  | .write page b => b.length ≠ pageSize ∨ count ≤ page.toNat
  | .append b => b.length ≠ pageSize

def counted (c : Counters) : FileCall → Counters
  | .count => c
  | .read .. => { c with reads := c.reads + 1 }
  | .write .. => { c with writes := c.writes + 1 }
  | .append _ => { c with appends := c.appends + 1 }

/-- What a call that is not refused does to a file. -/
inductive Acts (f : PagedFile) : FileCall → FileReply → PagedFile → Prop
  | count : Acts f .count (.number (UInt32.ofNat f.pages.length)) f
  | read {page : PageNum} {p : Page} : f.pages[page.toNat]? = some p → Acts f (.read page pageSize) (.bytes p.bytes) f
  | write {page : PageNum} {p : Page} : page.toNat < f.pages.length →
      Acts f (.write page p.bytes) .done (f.replace page.toNat p)
  | append {p : Page} : Acts f (.append p.bytes) (.number (UInt32.ofNat f.pages.length)) (f.append p)

theorem perform_cases (call : FileCall) (f : PagedFile) (c : Counters) :
    (∃ r f', Acts f call r f' ∧ call.perform ⟨some f, c⟩ = .ok r ⟨some f', call.counted c⟩)
    ∨ call.IsRefused f.pages.length ∧ ∃ e, call.perform ⟨some f, c⟩ = .error e ⟨some f, c⟩ := by
  cases call with
  | count => exact .inl ⟨_, f, .count, run_bind Access.run_pageCount⟩
  | read page size =>
    rcases Access.readPage_cases page size f c with ⟨rfl, p, hp, hrun⟩ | ⟨hno, e, hrun⟩
    · exact .inl ⟨_, f, .read hp, run_bind hrun⟩
    · exact .inr ⟨hno, e, run_bind_error hrun⟩
  | write page b =>
    rcases Access.writePage_cases page b f c with ⟨hlt, hb, hrun⟩ | ⟨hno, e, hrun⟩
    · exact .inl ⟨_, _, .write (p := ⟨b, hb⟩) hlt, run_bind hrun⟩
    · exact .inr ⟨hno, e, run_bind_error hrun⟩
  | append b =>
    rcases Access.appendPage_cases b f c with ⟨hb, hrun⟩ | ⟨hno, e, hrun⟩
    · exact .inl ⟨_, _, .append (p := ⟨b, hb⟩), run_bind hrun⟩
    · exact .inr ⟨hno, e, run_bind_error hrun⟩

theorem Acts.not_refused {f f' : PagedFile} {call : FileCall} {r : FileReply} (h : Acts f call r f') :
    ¬ call.IsRefused f.pages.length := by
  cases h with
  | count => exact id
  | read hp =>
    rintro (hsize | hle)
    · exact hsize rfl
    · exact Nat.not_le.mpr (List.getElem?_eq_some_iff.mp hp).1 hle
  | @write page p hlt =>
    rintro (hlen | hle)
    · exact hlen p.length_eq
    · exact Nat.not_le.mpr hlt hle
  | @append p => exact fun hlen => hlen p.length_eq

theorem perform_refused {call : FileCall} {f : PagedFile} (h : call.IsRefused f.pages.length) (c : Counters) :
    ∃ e, call.perform ⟨some f, c⟩ = .error e ⟨some f, c⟩ := by
  rcases call.perform_cases f c with ⟨r, f', hacts, -⟩ | ⟨-, hfails⟩
  · exact absurd h hacts.not_refused
  · exact hfails

theorem perform_unbound (call : FileCall) (c : Counters) : ∃ e, call.perform ⟨none, c⟩ = .error e ⟨none, c⟩ := by
  cases call with
  | count => exact ⟨.handleNotOpen, rfl⟩
  | read page size =>
    by_cases hsize : size = pageSize
    · subst hsize
      exact ⟨.handleNotOpen, rfl⟩
    · exact ⟨_, run_bind_error (Access.run_readPage_size _ hsize page)⟩
  | write page b =>
    by_cases hb : b.length = pageSize
    · refine ⟨.handleNotOpen, run_bind_error ?_⟩
      rw [Access.writePage, Access.wholePage, dif_pos hb]
      rfl
    · exact ⟨_, run_bind_error (Access.run_writePage_size _ hb page)⟩
  | append b =>
    by_cases hb : b.length = pageSize
    · refine ⟨.handleNotOpen, run_bind_error ?_⟩
      rw [Access.appendPage, Access.wholePage, dif_pos hb]
      rfl
    · exact ⟨_, run_bind_error (Access.run_appendPage_size _ hb)⟩

end FileCall

end Tablespace
