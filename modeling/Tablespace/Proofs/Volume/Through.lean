import Tablespace.Proofs.Run
import Tablespace.Volume

/-!
# Work through handles

What a computation does to a file it does through every handle that is bound to
the file, and it leaves the other files alone.
-/

namespace Tablespace

namespace Volume

open Access

/-- The handle is bound to the file of that number. -/
def Binds (v : Volume) (name : String) (k : Nat) : Prop :=
  ∃ b, (v.handle name).binding = some b ∧ b.file = k

/-- The pages of the file can be counted by words of 32 bits. -/
def Below (v : Volume) (k : Nat) : Prop :=
  ∃ f, v.files[k]? = some f ∧ f.pages.length < UInt32.size

/-- A volume with one empty file and a handle that is bound to it. -/
def fresh : Volume where
  files := [.empty]
  handles := [("h", { binding := some ⟨0, "f"⟩ })]

theorem fresh_binds : fresh.Binds "h" 0 := ⟨⟨0, "f"⟩, rfl, rfl⟩

section
variable {ε α : Type} {v v' : Volume} {name other : String} {k : Nat} {f f' : PagedFile} {c : Counters} {a : α}
  {e : ε} {work : EStateM ε Access α}

theorem Binds.accessOf_eq (hn : v.Binds name k) (hf : v.files[k]? = some f) :
    v.accessOf (v.handle name) = ⟨some f, (v.handle name).counters⟩ := by
  obtain ⟨b, hb, rfl⟩ := hn
  simp [accessOf, hb, hf]

theorem Binds.files_putBack (hn : v.Binds name k) (c : Counters) :
    (v.putBack name ⟨some f, c⟩).files = v.files.set k f := by
  obtain ⟨b, hb, rfl⟩ := hn
  simp [putBack, hb, setHandle]

theorem set_files_self (hf : v.files[k]? = some f) : v.files.set k f = v.files := by
  obtain ⟨hlt, rfl⟩ := List.getElem?_eq_some_iff.mp hf
  exact List.set_getElem_self hlt

/-! ## What stays -/

theorem lookup_filter (h : other ≠ name) (hs : List (String × Handle)) :
    (hs.filter (·.1 ≠ name)).lookup other = hs.lookup other := by
  induction hs with
  | nil => rfl
  | cons entry hs ih =>
    obtain ⟨n, x⟩ := entry
    by_cases hn : n = name
    · have hother : (other == n) = false := beq_eq_false_iff_ne.mpr (hn ▸ h)
      rw [List.filter_cons_of_neg (by simpa using hn), ih, List.lookup_cons, hother]
    · rw [List.filter_cons_of_pos (by simpa using hn), List.lookup_cons, List.lookup_cons, ih]

theorem handle_setHandle_self (v : Volume) (name : String) (h : Handle) : (v.setHandle name h).handle name = h := by
  rw [handle, setHandle, List.lookup_cons_self]
  rfl

theorem handle_setHandle_other (v : Volume) (h : other ≠ name) (x : Handle) :
    (v.setHandle name x).handle other = v.handle other := by
  rw [handle, setHandle, List.lookup_cons, beq_eq_false_iff_ne.mpr h, lookup_filter h]
  rfl

/-- A call went through a handle to a file: only that file and the counts of that handle are new. -/
structure Went (v v' : Volume) (name : String) (k : Nat) (f' : PagedFile) (c : Counters) : Prop where
  files : v'.files = v.files.set k f'
  counters : (v'.handle name).counters = c
  binding : (v'.handle name).binding = (v.handle name).binding
  others : ∀ other, other ≠ name → v'.handle other = v.handle other

theorem Binds.went (hn : v.Binds name k) (f' : PagedFile) (c : Counters) :
    Went v (v.putBack name ⟨some f', c⟩) name k f' c where
  files := hn.files_putBack c
  counters := by rw [putBack, handle_setHandle_self]
  binding := by rw [putBack, handle_setHandle_self]
  others other h := by
    rw [putBack, handle_setHandle_other _ h]
    rfl

/-- A call left all files and handles as they were. -/
structure Same (v v' : Volume) : Prop where
  files : v'.files = v.files
  handles : ∀ other, v'.handle other = v.handle other

theorem same_putBack (v : Volume) (name : String) : Same v (v.putBack name (v.accessOf (v.handle name))) where
  files := by
    unfold putBack accessOf
    cases hbinding : (v.handle name).binding with
    | none => simp [hbinding, setHandle]
    | some b =>
      cases hf : v.files[b.file]? with
      | none => simp [hbinding, hf, setHandle]
      | some f => simp [hbinding, hf, setHandle, set_files_self hf]
  handles other := by
    by_cases h : other = name
    · subst h
      rw [putBack, handle_setHandle_self]
      rfl
    · rw [putBack, handle_setHandle_other _ h]
      rfl

theorem through_same (h : work (v.accessOf (v.handle name)) = .error e (v.accessOf (v.handle name))) :
    ∃ v', through name work v = .error e v' ∧ Same v v' := by
  refine ⟨_, ?_, same_putBack v name⟩
  simp only [through, h]

theorem through_went (hn : v.Binds name k) (hf : v.files[k]? = some f)
    (h : work ⟨some f, (v.handle name).counters⟩ = .ok a ⟨some f', c⟩) :
    ∃ v', through name work v = .ok a v' ∧ Went v v' name k f' c := by
  refine ⟨_, ?_, hn.went f' c⟩
  simp only [through, hn.accessOf_eq hf, h]

/-! ## Files behind the work -/

theorem through_of_run (hn : v.Binds name k) (hf : v.files[k]? = some f) {c : Counters}
    (h : work ⟨some f, (v.handle name).counters⟩ = .ok a ⟨some f', c⟩) :
    ∃ v', through name work v = .ok a v' ∧ v'.files = v.files.set k f' := by
  obtain ⟨v', hv', hwent⟩ := through_went hn hf h
  exact ⟨v', hv', hwent.files⟩

theorem through_of_does (hn : v.Binds name k) (hf : v.files[k]? = some f) (h : Does work f a f') :
    ∃ v', through name work v = .ok a v' ∧ v'.files = v.files.set k f' := by
  obtain ⟨c, hc⟩ := h (v.handle name).counters
  exact through_of_run hn hf hc

theorem through_of_fails (hn : v.Binds name k) (hf : v.files[k]? = some f) (h : Fails work f e f') :
    ∃ v', through name work v = .error e v' ∧ v'.files = v.files.set k f' := by
  obtain ⟨c, hc⟩ := h (v.handle name).counters
  refine ⟨v.putBack name ⟨some f', c⟩, ?_, hn.files_putBack c⟩
  simp only [through, hn.accessOf_eq hf, hc]

theorem through_of_run_self (hn : v.Binds name k) (hf : v.files[k]? = some f) {c : Counters}
    (h : work ⟨some f, (v.handle name).counters⟩ = .ok a ⟨some f, c⟩) :
    ∃ v', through name work v = .ok a v' ∧ v'.files = v.files := by
  obtain ⟨v', hv, hfiles⟩ := through_of_run hn hf h
  exact ⟨v', hv, by rw [hfiles, set_files_self hf]⟩

theorem through_of_refuses (hn : v.Binds name k) (hf : v.files[k]? = some f) (h : Refuses work f e) :
    ∃ v', through name work v = .error e v' ∧ v'.files = v.files := by
  obtain ⟨v', hv, hfiles⟩ := through_of_fails hn hf h
  exact ⟨v', hv, by rw [hfiles, set_files_self hf]⟩

theorem through_of_looks (hn : v.Binds name k) (hf : v.files[k]? = some f) (h : Does work f a f) :
    ∃ v', through name work v = .ok a v' ∧ v'.files = v.files := by
  obtain ⟨c, hc⟩ := h (v.handle name).counters
  exact through_of_run_self hn hf hc

theorem getElem?_files_set (hf : v.files[k]? = some f) (hv : v'.files = v.files.set k f') :
    v'.files[k]? = some f' := by
  rw [hv, List.getElem?_set_self (List.getElem?_eq_some_iff.mp hf).1]

end

end Volume

end Tablespace
