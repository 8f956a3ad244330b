import Tablespace.Proofs.Run
import Tablespace.Volume

/-!
# Created files

A file that was added at a path is found there, and is the last of all files.
-/

namespace Tablespace

namespace DirectoryTree

variable {t t' : DirectoryTree} {location new above next : Location} {name path : String} {number : Nat}
  {entry kind : DirectoryEntry}

theorem add_eq (h : t.add above name entry = .ok t') :
    child above name = .ok (above ++ [name]) ∧ t.kindAt? (above ++ [name]) = none
      ∧ t' = ⟨(above ++ [name], entry) :: t.entries⟩ := by
  unfold add child at h
  unfold child
  by_cases hlong : Path.maxNameSize < name.utf8ByteSize
  · simp [hlong, bind, Except.bind] at h
  · simp only [hlong, if_false, bind, Except.bind] at h ⊢
    cases hkind : t.kindAt? (above ++ [name]) with
    | none =>
      simp [hkind, pure, Except.pure] at h
      exact ⟨trivial, rfl, h.symm⟩
    | some kind => simp [hkind] at h

section
variable (hnew : t.kindAt? new = none)
include hnew

theorem kindAt?_new : (⟨(new, entry) :: t.entries⟩ : DirectoryTree).kindAt? new = some entry := by
  unfold kindAt? at hnew ⊢
  by_cases htop : new = [] ∨ new = workingDirectory
  · simp [htop] at hnew
  · simp [htop]

theorem kindAt?_old (h : t.kindAt? location = some kind) :
    (⟨(new, entry) :: t.entries⟩ : DirectoryTree).kindAt? location = some kind := by
  have hne : location ≠ new := by
    intro heq
    rw [heq, hnew] at h
    cases h
  unfold kindAt? at h ⊢
  by_cases htop : location = [] ∨ location = workingDirectory
  · simpa [htop] using h
  · have hbeq : (location == new) = false := by simpa using hne
    simpa [htop, List.lookup_cons, hbeq] using h

theorem enter_old (h : t.enter location name = .ok next) :
    (⟨(new, entry) :: t.entries⟩ : DirectoryTree).enter location name = .ok next := by
  unfold enter at h ⊢
  by_cases hdot : name = "."
  · simpa [hdot] using h
  · by_cases hdots : name = ".."
    · simpa [hdots] using h
    · simp only [hdot, hdots, if_false, bind, Except.bind] at h ⊢
      cases hchild : child location name with
      | error fault => simp [hchild] at h
      | ok there =>
        simp only [hchild] at h ⊢
        cases hkind : t.kindAt? there with
        | none => simp [hkind] at h
        | some kind =>
          cases kind with
          | directory => simpa [kindAt?_old hnew hkind, hkind] using h
          | file number => simp [hkind] at h

theorem follow_old {d : Destination} {start : Location} {names : List String}
    (h : t.follow start names = .ok d) :
    (⟨(new, entry) :: t.entries⟩ : DirectoryTree).follow start names = .ok d := by
  have hway : ∀ (names : List String) (start last : Location), names.foldlM t.enter start = .ok last →
      names.foldlM (⟨(new, entry) :: t.entries⟩ : DirectoryTree).enter start = .ok last := by
    intro names
    induction names with
    | nil => exact fun _ _ hway => hway
    | cons name names ih =>
      intro start last hway
      simp only [List.foldlM_cons, bind, Except.bind] at hway ⊢
      cases henter : t.enter start name with
      | error fault => simp [henter] at hway
      | ok there =>
        rw [henter] at hway
        rw [enter_old hnew henter]
        exact ih there last hway
  unfold follow at h ⊢
  cases hlast : names.getLast? with
  | none => simpa [hlast] using h
  | some last =>
    simp only [hlast, bind, Except.bind] at h ⊢
    cases habove : names.dropLast.foldlM t.enter start with
    | error fault => simp [habove] at h
    | ok above =>
      rw [habove] at h
      rw [hway _ _ _ habove]
      exact h

end

theorem find_of_addFile (h : t.addFile path number = .ok t') :
    ∃ location, t'.find path = .ok (location, .file number) := by
  unfold addFile at h
  unfold find
  cases hcheck : Path.check path with
  | error fault => simp [hcheck, bind, Except.bind] at h
  | ok checked =>
    simp only [hcheck, bind, Except.bind] at h ⊢
    cases hfollow : t.follow (start path) (Path.names path) with
    | error fault => simp [hfollow] at h
    | ok destination =>
      rw [hfollow] at h
      cases destination with
      | directory location => cases h
      | name above name =>
        by_cases hslash : Path.endsInSlash path = true
        · simp [hslash] at h
        · simp only [hslash] at h
          obtain ⟨hchild, hnew, rfl⟩ := add_eq h
          rw [follow_old hnew hfollow]
          refine ⟨above ++ [name], ?_⟩
          simp [hchild, kindAt?_new hnew, hslash, pure, Except.pure]

end DirectoryTree

namespace Volume

variable {v v' : Volume} {path : String}

theorem run_addFile (path : String) (v : Volume) : addFile path v =
    match v.tree.addFile path v.files.length with
    | .ok tree => .ok () { v with tree := tree, files := v.files ++ [PagedFile.empty] }
    | .error fault => .error (.io fault) v := by
  unfold addFile onTree
  simp only [bind, EStateM.bind, run_get, Access.run_liftExcept]
  cases v.tree.addFile path v.files.length <;> rfl

theorem openable_of_addFile (h : addFile path v = .ok () v') :
    v'.openable path = .ok v.files.length ∧ v'.files = v.files ++ [PagedFile.empty] := by
  rw [run_addFile] at h
  cases htree : v.tree.addFile path v.files.length with
  | error fault =>
    rw [htree] at h
    cases h
  | ok tree =>
    rw [htree] at h
    cases h
    obtain ⟨location, hfind⟩ := DirectoryTree.find_of_addFile htree
    refine ⟨?_, rfl⟩
    rw [openable, hfind]

theorem files_of_makeDirectories (h : makeDirectories path v = .ok () v') : v'.files = v.files := by
  unfold makeDirectories onTree at h
  cases hmake : DirectoryTree.makeDirectories path v.tree with
  | error fault tree =>
    rw [hmake] at h
    cases h
  | ok made tree =>
    rw [hmake] at h
    cases h
    rfl

theorem create_eq (h : create path v = .ok () v') :
    v'.openable path = .ok v.files.length ∧ v'.files = v.files ++ [PagedFile.empty] := by
  unfold create at h
  rw [run_get_bind] at h
  by_cases hthere : v.exists? path = true
  · simp only [hthere, if_true] at h
    cases h
  · rw [if_neg hthere] at h
    simp only at h
    cases hmake : makeDirectories (Path.parent path) v with
    | error fault w =>
      rw [run_bind_error hmake] at h
      cases h
    | ok made w =>
      rw [run_bind hmake] at h
      have := openable_of_addFile h
      rwa [files_of_makeDirectories hmake] at this

end Volume

end Tablespace
