import Mathlib
import Tablespace.Proofs.Index.Delete
import Tablespace.Proofs.Index.Insert
import Tablespace.Proofs.Index.Scan
import Tablespace.Proofs.Volume.Created
import Tablespace.Proofs.Volume.Through

/-!
# Runs on an index file

A run starts when an index file is created and makes calls through handles
that are bound to it, in any order and with any arguments; in between, anything
may happen to the volume that leaves the file alone. A list of entries follows
the replies, and a scan finds what it says.
-/

namespace Tablespace

open Access

namespace Index

/-! ## Created indexes -/

def planted : List Node := [.internal ⟨[], [1]⟩, .leaf {}]

theorem leads_plant (type : AttributeType) : Leads type plant [] () planted := by
  have hroot : Node.Sound type (.internal ⟨[], [1]⟩) := ⟨by decide, by simp, rfl⟩
  have hleaf : Node.Sound type (.leaf {}) := ⟨by decide, by simp, by simp, by simp⟩
  exact (leads_appendNode _ hroot).bind ((leads_appendNode _ hleaf).bind (Looks.pure ()).leads)

def plantedTree : Tree 1 := (Forest.single (1 : PageNum) : Forest (Tree 0)).under root

theorem stands_planted : Stands planted plantedTree [(1, [])] where
  root_eq := rfl
  stored := by
    refine ⟨rfl, ?_⟩
    intro c hc
    obtain rfl := List.mem_singleton.mp hc
    exact ⟨{}, rfl⟩
  pages_perm := List.Perm.refl _
  leaves_eq := rfl
  chain := ⟨rfl, trivial⟩
  sorted := List.Pairwise.nil

def IsIndex (type : AttributeType) (f : PagedFile) (L : List Entry) : Prop :=
  ∃ (nodes : List Node) (h : Nat) (t : Tree (h + 1)) (ls : List Shelf),
    f.ShowsNodes type nodes ∧ Stands nodes t ls ∧ entriesOf ls = L

def createFile (path : String) : EStateM IndexError Volume Unit := do
  EStateM.adaptExcept IndexError.file (Volume.create path)
  Volume.onFile path IndexError.file plant

theorem shows_nothing (type : AttributeType) : PagedFile.empty.ShowsNodes type [] := ⟨rfl, by simp, by simp⟩

section
variable {v v' : Volume} {path : String}

theorem run_createFile (h : Volume.create path v = .ok () v') (type : AttributeType) :
    ∃ (f : PagedFile) (w : Volume), createFile path v = .ok () w ∧ w.openable path = .ok v.files.length
      ∧ w.files[v.files.length]? = some f ∧ f.pages.length = 2 ∧ IsIndex type f [] := by
  obtain ⟨hopen, hfiles⟩ := Volume.create_eq h
  obtain ⟨f, hdoes, hf⟩ := leads_plant type PagedFile.empty (shows_nothing type)
  obtain ⟨c, hrun⟩ := hdoes {}
  have hlast : v'.files[v.files.length]? = some PagedFile.empty := by
    rw [hfiles, List.getElem?_concat_length]
  refine ⟨f, { v' with files := v'.files.set v.files.length f }, ?_, hopen, ?_, hf.length_eq,
    planted, 0, _, _, hf, stands_planted, rfl⟩
  · have hcreate : EStateM.adaptExcept IndexError.file (Volume.create path) v = .ok () v' := by
      simp only [EStateM.adaptExcept, h]
    unfold createFile
    rw [run_bind hcreate]
    unfold Volume.onFile
    rw [run_get_bind, hopen]
    simp only [hlast, hrun]
    rfl
  · exact List.getElem?_set_self (List.getElem?_eq_some_iff.mp hlast).1

theorem createFile_eq (h : createFile path v = .ok () v') (type : AttributeType) :
    ∃ f, v'.openable path = .ok v.files.length ∧ v'.files[v.files.length]? = some f ∧ f.pages.length = 2
      ∧ IsIndex type f [] := by
  cases hcreate : Volume.create path v with
  | error e w =>
    have hfails : EStateM.adaptExcept IndexError.file (Volume.create path) v = .error (.file e) w := by
      simp only [EStateM.adaptExcept, hcreate]
    unfold createFile at h
    rw [run_bind_error hfails] at h
    cases h
  | ok made w =>
    obtain ⟨f, w', hw, hcreated⟩ := run_createFile hcreate type
    rw [h] at hw
    cases hw
    exact ⟨f, hcreated⟩

end

/-! ## Runs -/

inductive Call where
  | insert (key : Bytes) (id : RecordId)
  | delete (key : Bytes) (id : RecordId)

def Call.perform (a : Attribute) : Call → IndexM Unit
  | .insert key id => Index.insert a key id
  | .delete key id => Index.delete a key id

def entriesAfter (a : Attribute) (L : List Entry) : Call → List Entry
  | .insert key id =>
    match Key.ofBytesBounded a key with
    | .ok x => place x id L
    | .error _ => L
  | .delete key id =>
    match Key.ofBytesBounded a key with
    | .ok x => L.eraseP (Entry.matches x id)
    | .error _ => L

/-- The volume with its first file open. -/
def withHandle (v : Volume) : Volume := { v with handles := [("h", { binding := some ⟨0, "f"⟩ })] }

theorem withHandle_binds (v : Volume) : (withHandle v).Binds "h" 0 := ⟨⟨0, "f"⟩, rfl, rfl⟩

/-- The pages of the file can be named as neighbours of leaves. -/
def Linkable (v : Volume) (k : Nat) : Prop :=
  ∃ f, v.files[k]? = some f ∧ f.pages.length < NodePage.topBit

/-- The volumes that a run on an index leads to, with the entries that the replies promise. -/
inductive Reaches (a : Attribute) (k : Nat) : Volume → List Entry → Prop
  | created {v v' path} : createFile path v = .ok () v' → v'.openable path = .ok k → Reaches a k v' []
  | elsewhere {v v' L} : Reaches a k v L → v'.files[k]? = v.files[k]? → Reaches a k v' L
  | done {v v' L name call} : Reaches a k v L → v.Binds name k →
      Volume.through name (Call.perform a call) v = .ok () v' → Linkable v' k →
      Reaches a k v' (entriesAfter a L call)
  | failed {v v' L name call e} : Reaches a k v L → v.Binds name k →
      Volume.through name (Call.perform a call) v = .error e v' → Linkable v' k → Reaches a k v' L

theorem exists_created (a : Attribute) : ∃ f v, createFile "f" {} = .ok () v ∧ v.files[0]? = some f
    ∧ f.pages.length = 2 ∧ IsIndex a.type f [] ∧ Reaches a 0 (withHandle v) [] := by
  obtain ⟨w, hw⟩ : ∃ w, Volume.create "f" {} = .ok () w := ⟨_, by cbv⟩
  obtain ⟨f, v, hv, hopen, hf, hlen, hindex⟩ := run_createFile hw a.type
  exact ⟨f, v, hv, hf, hlen, hindex, .elsewhere (.created hv hopen) rfl⟩

theorem exists_reaches_created (a : Attribute) : ∃ v, Reaches a 0 v [] ∧ v.Binds "h" 0 := by
  obtain ⟨-, v, -, -, -, -, hreaches⟩ := exists_created a
  exact ⟨_, hreaches, withHandle_binds v⟩

/-! ## One call -/

section
variable {a : Attribute} {f : PagedFile} {L : List Entry} {key : Bytes} {x : Key}

theorem entriesAfter_insert (hkey : Key.ofBytesBounded a key = .ok x) (id : RecordId) :
    entriesAfter a L (.insert key id) = place x id L := by
  simp [entriesAfter, hkey]

theorem entriesAfter_delete (hkey : Key.ofBytesBounded a key = .ok x) (id : RecordId) :
    entriesAfter a L (.delete key id) = L.eraseP (Entry.matches x id) := by
  simp [entriesAfter, hkey]

theorem IsIndex.sorted (h : IsIndex a.type f L) : Sorted L := by
  obtain ⟨nodes, height, t, ls, -, hstands, rfl⟩ := h
  exact hstands.sorted_entries

theorem IsIndex.does_all (h : IsIndex a.type f L) (hsize : f.pages.length < NodePage.topBit)
    (lowInclusive highInclusive : Bool) :
    Does (IndexScan.all a lowInclusive highInclusive) f (L.map fun e => .ok (e.key.encode, e.id)) f := by
  obtain ⟨nodes, height, t, ls, hf, hstands, rfl⟩ := h
  rw [hf.length_eq] at hsize
  exact IndexScan.does_all hf hstands (Nat.lt_trans hsize (by decide)) lowInclusive highInclusive

theorem IsIndex.does_insert (h : IsIndex a.type f L) (hsize : f.pages.length < NodePage.topBit)
    (hkey : Key.ofBytesBounded a key = .ok x) (id : RecordId) :
    ∃ f', Does (insert a key id) f () f' ∧ f'.pages.length ≤ 2 * f.pages.length + 1
      ∧ IsIndex a.type f' (place x id L) := by
  obtain ⟨nodes, height, t, ls, hf, hstands, rfl⟩ := h
  rw [hf.length_eq] at hsize ⊢
  obtain ⟨f', nodes', height', t', ls', hdoes, hf', hstands', hentries, hlen⟩ :=
    Index.does_insert hf hstands hsize hkey id
  exact ⟨f', hdoes, hf'.length_eq ▸ hlen, nodes', height', t', ls', hf', hstands', hentries⟩

theorem IsIndex.delete_cases (h : IsIndex a.type f L) (hsize : f.pages.length < NodePage.topBit)
    (hkey : Key.ofBytesBounded a key = .ok x) (id : RecordId) :
    (L.any (Entry.matches x id) = true
      ∧ ∃ f', Does (delete a key id) f () f' ∧ f'.pages.length = f.pages.length
        ∧ IsIndex a.type f' (L.eraseP (Entry.matches x id)))
    ∨ L.any (Entry.matches x id) = false ∧ Refuses (delete a key id) f (.entryNotFound x.display id) := by
  obtain ⟨nodes, height, t, ls, hf, hstands, rfl⟩ := h
  rw [hf.length_eq] at hsize ⊢
  rcases Index.delete_cases hf hstands (Nat.lt_trans hsize (by decide)) hkey id with
    ⟨hany, f', nodes', ls', hdoes, hf', hlen, hstands', hentries⟩ | ⟨hno, hrefuses⟩
  · exact .inl ⟨hany, f', hdoes, hf'.length_eq.trans hlen, nodes', height, t, ls', hf', hstands', hentries⟩
  · exact .inr ⟨hno, hrefuses⟩

theorem refuses_badKey {e : IndexError} (hkey : Key.ofBytesBounded a key = .error e) (id : RecordId) :
    Refuses (insert a key id) f e ∧ Refuses (delete a key id) f e :=
  ⟨Fails.bind (refuses_liftExcept hkey), Fails.bind (refuses_liftExcept hkey)⟩

/-- A call succeeds and leaves an index with the entries after it, or it fails and leaves the file
as it was. -/
theorem perform_cases (h : IsIndex a.type f L) (hsize : f.pages.length < NodePage.topBit) (call : Call) :
    (∃ f', Does (call.perform a) f () f' ∧ IsIndex a.type f' (entriesAfter a L call))
    ∨ ∃ e, Refuses (call.perform a) f e := by
  cases call with
  | insert key id =>
    cases hkey : Key.ofBytesBounded a key with
    | error e => exact .inr ⟨e, (refuses_badKey hkey id).1⟩
    | ok x =>
      rw [entriesAfter_insert hkey]
      obtain ⟨f', hdoes, -, hindex⟩ := h.does_insert hsize hkey id
      exact .inl ⟨f', hdoes, hindex⟩
  | delete key id =>
    cases hkey : Key.ofBytesBounded a key with
    | error e => exact .inr ⟨e, (refuses_badKey hkey id).2⟩
    | ok x =>
      rw [entriesAfter_delete hkey]
      rcases h.delete_cases hsize hkey id with ⟨-, f', hdoes, -, hindex⟩ | ⟨-, hrefuses⟩
      · exact .inl ⟨f', hdoes, hindex⟩
      · exact .inr ⟨_, hrefuses⟩

end

/-! ## All calls -/

section
variable {a : Attribute} {k : Nat} {v v' : Volume} {L : List Entry} {name : String}

theorem Reaches.isIndex (h : Reaches a k v L) :
    ∃ f, v.files[k]? = some f ∧ f.pages.length < NodePage.topBit ∧ IsIndex a.type f L := by
  induction h with
  | @created v v' path hcreate hopen =>
    obtain ⟨f, hopen', hf, hlen, hindex⟩ := createFile_eq hcreate a.type
    rw [hopen] at hopen'
    cases hopen'
    exact ⟨f, hf, hlen ▸ by decide, hindex⟩
  | elsewhere _ hv ih => rwa [hv]
  | @done v v' L name call _ hn hcall hlink ih =>
    obtain ⟨f, hf, hsize, hindex⟩ := ih
    obtain ⟨g, hg, hlt⟩ := hlink
    rcases perform_cases hindex hsize call with ⟨f', hdoes, hindex'⟩ | ⟨e, hrefuses⟩
    · obtain ⟨w, hw, hfiles⟩ := Volume.through_of_does hn hf hdoes
      rw [hcall] at hw
      cases hw
      have hf' := Volume.getElem?_files_set hf hfiles
      rw [hg, Option.some.injEq] at hf'
      exact ⟨g, hg, hlt, hf' ▸ hindex'⟩
    · obtain ⟨w, hw, -⟩ := Volume.through_of_refuses hn hf hrefuses
      rw [hcall] at hw
      cases hw
  | @failed v v' L name call e _ hn hcall _ ih =>
    obtain ⟨f, hf, hsize, hindex⟩ := ih
    rcases perform_cases hindex hsize call with ⟨f', hdoes, -⟩ | ⟨e', hrefuses⟩
    · obtain ⟨w, hw, -⟩ := Volume.through_of_does hn hf hdoes
      rw [hcall] at hw
      cases hw
    · obtain ⟨w, hw, hfiles⟩ := Volume.through_of_refuses hn hf hrefuses
      rw [hcall] at hw
      cases hw
      exact ⟨f, by rw [hfiles, hf], hsize, hindex⟩

theorem Reaches.exists_insert {f : PagedFile} {key : Bytes} {x : Key} (h : Reaches a k v L) (hn : v.Binds name k)
    (hf : v.files[k]? = some f) (hkey : Key.ofBytesBounded a key = .ok x) (id : RecordId)
    (hsize : 2 * f.pages.length + 1 < NodePage.topBit) :
    ∃ v' f', Volume.through name (insert a key id) v = .ok () v' ∧ Reaches a k v' (place x id L)
      ∧ v'.Binds name k ∧ v'.files[k]? = some f' ∧ f'.pages.length ≤ 2 * f.pages.length + 1 := by
  obtain ⟨g, hg, hlt, hindex⟩ := h.isIndex
  obtain rfl : f = g := Option.some.inj (hf.symm.trans hg)
  obtain ⟨f', hdoes, hlen, -⟩ := hindex.does_insert hlt hkey id
  obtain ⟨c, hc⟩ := hdoes (v.handle name).counters
  obtain ⟨v', hv', hwent⟩ := Volume.through_went hn hf hc
  have hf' := Volume.getElem?_files_set hf hwent.files
  have hdone : Reaches a k v' (entriesAfter a L (.insert key id)) :=
    h.done hn hv' ⟨f', hf', Nat.lt_of_le_of_lt hlen hsize⟩
  rw [entriesAfter_insert hkey] at hdone
  obtain ⟨b, hb, hk⟩ := hn
  exact ⟨v', f', hv', hdone, ⟨b, hwent.binding.trans hb, hk⟩, hf', hlen⟩

theorem place_replicate (x : Key) (id : RecordId) (n : Nat) :
    place x id (List.replicate n ⟨x, id⟩) = List.replicate (n + 1) ⟨x, id⟩ := by
  have hkeys : ∀ e ∈ List.replicate n (⟨x, id⟩ : Entry), e.key ≤ x := fun e he =>
    le_of_eq (congrArg Entry.key (List.eq_of_mem_replicate he))
  have hplace : place x id (List.replicate n ⟨x, id⟩ ++ []) = List.replicate n ⟨x, id⟩ ++ [⟨x, id⟩] :=
    place_append hkeys (List.forall_mem_nil _)
  rwa [List.append_nil, ← List.replicate_succ'] at hplace

/-- An index with an entry that was inserted so many times. -/
theorem exists_reaches_repeated {key : Bytes} {x : Key} (hkey : Key.ofBytesBounded a key = .ok x) (id : RecordId)
    (n : Nat) (hn : 3 * 2 ^ n ≤ NodePage.topBit) :
    ∃ v f, Reaches a 0 v (List.replicate n ⟨x, id⟩) ∧ v.Binds "h" 0 ∧ v.files[0]? = some f
      ∧ f.pages.length < 3 * 2 ^ n := by
  induction n with
  | zero =>
    obtain ⟨f, v, -, hf, hlen, -, hreaches⟩ := exists_created a
    exact ⟨withHandle v, f, hreaches, withHandle_binds v, hf, by omega⟩
  | succ n ih =>
    obtain ⟨v, f, hreaches, hbinds, hf, hlen⟩ := ih (by omega)
    obtain ⟨v', f', -, hreaches', hbinds', hf', hlen'⟩ := hreaches.exists_insert hbinds hf hkey id (by omega)
    exact ⟨v', f', place_replicate x id n ▸ hreaches', hbinds', hf', by omega⟩

/-- Through every handle a scan without bounds yields the entries. -/
def Scans (k : Nat) (a : Attribute) (v : Volume) (L : List Entry) : Prop :=
  ∀ name, v.Binds name k → ∀ lowInclusive highInclusive, ∃ v',
    Volume.through name (IndexScan.all a lowInclusive highInclusive) v
        = .ok (L.map fun e => .ok (e.key.encode, e.id)) v'
      ∧ v'.files = v.files

theorem Reaches.scans (h : Reaches a k v L) : Scans k a v L := by
  intro name hn lowInclusive highInclusive
  obtain ⟨f, hf, hsize, hindex⟩ := h.isIndex
  exact Volume.through_of_looks hn hf (hindex.does_all hsize lowInclusive highInclusive)

/-- The entries of an index file are a sorted list: a scan yields them all, an insert puts an entry
with the key and the identifier that it was given behind all entries up to the key, a delete takes
out the first that matches and fails when there is none, and a buffer that is no key of the index
changes nothing. -/
theorem scans_of_reaches (h : Reaches a k v L) (hn : v.Binds name k) :
    Scans k a v L ∧ Sorted L
    ∧ (∀ key x id, Key.ofBytes a key = .ok x → x.encodedSize ≤ Key.maxSize → x.encode = key
      ∧ (∃ v', Volume.through name (insert a key id) v = .ok () v'
        ∧ (Linkable v' k → Scans k a v' (place x id L)))
      ∧ (L.any (Entry.matches x id) = true →
        ∃ v', Volume.through name (delete a key id) v = .ok () v'
          ∧ Scans k a v' (L.eraseP (Entry.matches x id)))
      ∧ (L.any (Entry.matches x id) = false →
        ∃ v', Volume.through name (delete a key id) v = .error (.entryNotFound x.display id) v'
          ∧ v'.files = v.files))
    ∧ ∀ key e id, Key.ofBytesBounded a key = .error e →
      (∃ v', Volume.through name (insert a key id) v = .error e v' ∧ v'.files = v.files)
      ∧ ∃ v', Volume.through name (delete a key id) v = .error e v' ∧ v'.files = v.files := by
  obtain ⟨f, hf, hsize, hindex⟩ := h.isIndex
  refine ⟨h.scans, hindex.sorted, ?_, ?_⟩
  · intro key x id hread hbound
    have hkey := Key.ofBytesBounded_eq_ok_iff.mpr ⟨hread, hbound⟩
    refine ⟨(Key.ofBytes_eq hread).2, ?_, ?_, ?_⟩
    · obtain ⟨f', hdoes, -⟩ := hindex.does_insert hsize hkey id
      obtain ⟨v', hv', -⟩ := Volume.through_of_does hn hf hdoes
      refine ⟨v', hv', ?_⟩
      intro hlink
      have hdone : Reaches a k v' (entriesAfter a L (.insert key id)) := h.done hn hv' hlink
      rw [entriesAfter_insert hkey] at hdone
      exact hdone.scans
    · intro hany
      rcases hindex.delete_cases hsize hkey id with ⟨-, f', hdoes, hlen, -⟩ | ⟨hno, -⟩
      · obtain ⟨v', hv', hfiles⟩ := Volume.through_of_does hn hf hdoes
        have hlink : Linkable v' k := ⟨f', Volume.getElem?_files_set hf hfiles, hlen ▸ hsize⟩
        have hdone : Reaches a k v' (entriesAfter a L (.delete key id)) := h.done hn hv' hlink
        rw [entriesAfter_delete hkey] at hdone
        exact ⟨v', hv', hdone.scans⟩
      · rw [hany] at hno
        cases hno
    · intro hno
      rcases hindex.delete_cases hsize hkey id with ⟨hany, -⟩ | ⟨-, hrefuses⟩
      · rw [hno] at hany
        cases hany
      · exact Volume.through_of_refuses hn hf hrefuses
  · intro key e id hkey
    obtain ⟨hinsert, hdelete⟩ := @refuses_badKey a f key e hkey id
    exact ⟨Volume.through_of_refuses hn hf hinsert, Volume.through_of_refuses hn hf hdelete⟩

/-- An index with one entry twice: a further insert makes three of it, a delete leaves one, and what
has another identifier is not found. -/
theorem scans_of_reaches_twice : ∃ v, Reaches ⟨"a", .int, 4⟩ 0 v [⟨.int 7, ⟨3, 2⟩⟩, ⟨.int 7, ⟨3, 2⟩⟩] ∧ v.Binds "h" 0
    ∧ Scans 0 ⟨"a", .int, 4⟩ v [⟨.int 7, ⟨3, 2⟩⟩, ⟨.int 7, ⟨3, 2⟩⟩]
    ∧ (∃ v', Volume.through "h" (insert ⟨"a", .int, 4⟩ [7, 0, 0, 0] ⟨3, 2⟩) v = .ok () v'
      ∧ Scans 0 ⟨"a", .int, 4⟩ v' [⟨.int 7, ⟨3, 2⟩⟩, ⟨.int 7, ⟨3, 2⟩⟩, ⟨.int 7, ⟨3, 2⟩⟩])
    ∧ (∃ v', Volume.through "h" (delete ⟨"a", .int, 4⟩ [7, 0, 0, 0] ⟨3, 2⟩) v = .ok () v'
      ∧ Scans 0 ⟨"a", .int, 4⟩ v' [⟨.int 7, ⟨3, 2⟩⟩])
    ∧ ∃ v', Volume.through "h" (delete ⟨"a", .int, 4⟩ [7, 0, 0, 0] ⟨3, 1⟩) v
        = .error (.entryNotFound "7" ⟨3, 1⟩) v' := by
  have hkey : Key.ofBytesBounded ⟨"a", .int, 4⟩ [7, 0, 0, 0] = .ok (.int 7) := rfl
  obtain ⟨v, f, hreaches, hn, hf, hlen⟩ := exists_reaches_repeated hkey ⟨3, 2⟩ 2 (by decide)
  obtain ⟨hscans, -, hcalls, -⟩ := scans_of_reaches hreaches hn
  obtain ⟨-, ⟨v₁, hinsert, hscans₁⟩, hdelete, -⟩ := hcalls [7, 0, 0, 0] (.int 7) ⟨3, 2⟩ rfl (by decide)
  obtain ⟨-, -, -, hmissing⟩ := hcalls [7, 0, 0, 0] (.int 7) ⟨3, 1⟩ rfl (by decide)
  obtain ⟨v₂, hremoved, hscans₂⟩ := hdelete (by decide)
  obtain ⟨v₃, hnone, -⟩ := hmissing (by decide)
  obtain ⟨v', f', hagain, -, -, hf', hlen'⟩ := hreaches.exists_insert hn hf hkey ⟨3, 2⟩
    (Nat.lt_trans (by omega : 2 * f.pages.length + 1 < 24) (by decide))
  obtain rfl : v' = v₁ := by
    rw [hagain] at hinsert
    cases hinsert
    rfl
  have hlink : Linkable v' 0 := ⟨f', hf', Nat.lt_trans (by omega : f'.pages.length < 24) (by decide)⟩
  exact ⟨v, hreaches, hn, hscans, ⟨v', hinsert, hscans₁ hlink⟩, ⟨v₂, hremoved, hscans₂⟩, v₃, hnone⟩

end

end Index

end Tablespace
