import Tablespace.Proofs.Index.Fences
import Tablespace.Proofs.Index.Range
import Tablespace.Proofs.Index.Shape

/-!
# Where descents end

A search goes to the right of the separators that tie with its key, and so does
an insert. A delete and a scan go to their left, because the entries that tie
with a key may lie in any leaf from the one descent's end to the other's.
-/

namespace Tablespace

open Access

namespace Index

/-- Two leaves of a row by their numbers: the key lies between the fences of the one or on its
upper, and between the fences of the other or on its lower. What ties with the key lies in the two
or between them. -/
structure Brackets (look : PageNum → Option Node) (row : List (List Nat × PageNum)) (x : Key)
    (first last : Nat) : Prop where
  first_iff : ∀ m path p, row[m]? = some (path, p) → ((fences look root path).HoldsUpTo x ↔ m = first)
  last_iff : ∀ m path p, row[m]? = some (path, p) → ((fences look root path).HoldsFrom x ↔ m = last)
  le : first ≤ last
  between : ∀ m path p l e, row[m]? = some (path, p) → look p = some (.leaf l) → e ∈ l.entries →
    e.key.ties x = true → first ≤ m ∧ m ≤ last

/-- The pages lead from the root down, each a child of the one before. -/
structure IsDescent (look : PageNum → Option Node) (pages : List PageNum) : Prop where
  head?_eq : pages.head? = some root
  chain : pages.IsChain (IsChild look)

/-! ## Trees -/

variable {h : Nat} {nodes : List Node} {t : Tree (h + 1)} {ls before after : List Shelf} {trail : Trail (h + 1)}
  {p : PageNum} {es : List Entry} {x : Key} {m : Nat}

section
variable (hstands : Stands nodes t ls)
include hstands

theorem Located.fences_eq (hloc : Located t ls trail before p es after) :
    fences (held nodes) root trail.path = ⟨trail.sepsBefore.getLast?, trail.sepsAfter.head?⟩ := by
  have hstored := hstands.stored
  rw [← hloc.fill_eq] at hstored
  rw [← hstands.root_eq, ← hloc.fill_eq]
  exact Trail.fences_fill hstored

theorem Located.isDescent (hloc : Located t ls trail before p es after) :
    IsDescent (held nodes) (trail.pages ++ [p]) := by
  have hstored := hstands.stored
  rw [← hloc.fill_eq] at hstored
  refine ⟨?_, Trail.isChain_pages hstored⟩
  rw [Trail.head?_pages, hloc.fill_eq, hstands.root_eq]

section
variable (hsize : nodes.length < UInt32.size)
include hsize

theorem Located.leafPaths_eq (hloc : Located t ls trail before p es after) :
    t.leafPaths[before.length]? = some (trail.path, p) := by
  have hleaves := t.leaves_leafPaths
  rw [hstands.leaves_eq, hloc.leaves_eq] at hleaves
  have hp := congrArg (fun ps => ps[before.length]?) hleaves
  simp only [List.getElem?_map, List.map_append, List.map_cons] at hp
  rw [List.getElem?_append_right (by rw [List.length_map]), List.length_map, Nat.sub_self] at hp
  obtain ⟨⟨path, q⟩, hx, hq⟩ := Option.map_eq_some_iff.mp hp
  obtain rfl : q = p := hq
  have hat : t.at? trail.path = some ⟨0, q⟩ := by
    rw [← hloc.fill_eq]
    exact trail.at?_fill q
  have hpath := Tree.mem_leafPaths.mp (List.mem_of_getElem? hx)
  rw [hx, Tree.path_unique (hstands.nodup (Nat.le_of_lt hsize)) hpath hat rfl]

theorem Stands.exists_located_at {path : List Nat} (hrow : t.leafPaths[m]? = some (path, p)) :
    ∃ trail before es after, Located t ls trail before p es after ∧ trail.path = path ∧ before.length = m := by
  obtain ⟨trail, hfill, rfl⟩ := Trail.exists_fill (Tree.mem_leafPaths.mp (List.mem_of_getElem? hrow))
  obtain ⟨before, es, after, hloc⟩ := hstands.exists_located_of_fill hfill
  refine ⟨trail, before, es, after, hloc, rfl, ?_⟩
  have hnodup : t.leafPaths.Nodup := t.leafPaths_ordered.imp fun hlt heq => by
    rw [heq] at hlt
    exact lt_irrefl _ hlt
  have hhere := hloc.leafPaths_eq hstands hsize
  rw [← hrow] at hhere
  exact (List.getElem?_inj (List.getElem?_eq_some_iff.mp (hhere.trans hrow)).1 hnodup).mp hhere

end

section
variable {trail₀ : Trail (h + 1)} {before₀ after₀ : List Shelf} {p₀ : PageNum} {es₀ : List Entry}
  (hloc₀ : Located t ls trail₀ before₀ p₀ es₀ after₀) (hloc : Located t ls trail before p es after)
include hloc₀ hloc

/-- The leaf at the place where a test parts the separators is told by its fences. -/
theorem Located.fences_iff {test : Key → Bool} (hpass : ∀ s ∈ trail₀.sepsBefore, test s = true)
    (hfail : ∀ s ∈ trail₀.sepsAfter, test s = false) :
    (∀ s ∈ (fences (held nodes) root trail.path).low, test s = true)
        ∧ (∀ s ∈ (fences (held nodes) root trail.path).high, test s = false)
      ↔ before.length = before₀.length := by
  have hseps : trail.sepsBefore ++ trail.sepsAfter = trail₀.sepsBefore ++ trail₀.sepsAfter := by
    rw [← trail.seps_fill p, ← trail₀.seps_fill p₀, hloc.fill_eq, hloc₀.fill_eq]
  rw [hloc.fences_eq hstands, hloc.length_before, hloc₀.length_before]
  exact (length_eq_iff_of_parted hseps hpass hfail).symm

theorem Located.holdsUpTo_iff (hlt : ∀ s ∈ trail₀.sepsBefore, s < x) (hge : ∀ s ∈ trail₀.sepsAfter, x ≤ s) :
    (fences (held nodes) root trail.path).HoldsUpTo x ↔ before.length = before₀.length := by
  have hfail : ∀ s ∈ trail₀.sepsAfter, s.precedes x = false := fun s hs => Key.precedes_eq_false_iff.mpr (hge s hs)
  rw [← hloc₀.fences_iff hstands hloc hlt hfail]
  simp only [Fences.HoldsUpTo, Key.precedes_iff, Key.precedes_eq_false_iff]

theorem Located.holdsFrom_iff (hle : ∀ s ∈ trail₀.sepsBefore, s ≤ x) (hgt : ∀ s ∈ trail₀.sepsAfter, x < s) :
    (fences (held nodes) root trail.path).HoldsFrom x ↔ before.length = before₀.length := by
  have hpass : ∀ s ∈ trail₀.sepsBefore, (!x.precedes s) = true := fun s hs =>
    Bool.not_eq_true' _ ▸ Key.precedes_eq_false_iff.mpr (hle s hs)
  have hfail : ∀ s ∈ trail₀.sepsAfter, (!x.precedes s) = false := fun s hs =>
    Bool.not_eq_false' _ ▸ Key.precedes_iff.mpr (hgt s hs)
  rw [← hloc₀.fences_iff hstands hloc hpass hfail]
  simp only [Fences.HoldsFrom, Bool.not_eq_true', Bool.not_eq_false', Key.precedes_iff, Key.precedes_eq_false_iff]

variable {e : Entry} (he : e ∈ es)
include he

theorem Located.le_of_mem (hlt : ∀ s ∈ trail₀.sepsBefore, s < x) (hx : x ≤ e.key) :
    before₀.length ≤ before.length := by
  apply Nat.le_of_not_lt
  intro hless
  have hshelf : before₀[before.length]? = some (p, es) := by
    rw [← List.getElem?_append_left hless, ← hloc₀.leaves_eq, hloc.leaves_eq]
    simp
  have hmem : e ∈ entriesOf before₀ := List.mem_flatMap.mpr ⟨_, List.mem_of_getElem? hshelf, he⟩
  exact not_lt_of_ge hx (hloc₀.lt_of_before hstands hlt e hmem)

theorem Located.ge_of_mem (hgt : ∀ s ∈ trail₀.sepsAfter, x < s) (hx : e.key ≤ x) :
    before.length ≤ before₀.length := by
  apply Nat.le_of_not_lt
  intro hless
  have hget : (before₀ ++ [(p₀, es₀)] ++ after₀)[before.length]? = some (p, es) := by
    rw [List.append_assoc, List.singleton_append, ← hloc₀.leaves_eq, hloc.leaves_eq]
    simp
  rw [List.getElem?_append_right (by simpa using hless)] at hget
  have hmem : e ∈ entriesOf after₀ := List.mem_flatMap.mpr ⟨_, List.mem_of_getElem? hget, he⟩
  obtain ⟨s, hs, hse⟩ := hloc₀.key_after hstands hmem
  exact not_lt_of_ge (le_trans hse hx) (hgt s hs)

end

/-- The leaf behind the separators below a key and the leaf behind those up to it bracket what ties
with the key. -/
theorem brackets_of_located (hsize : nodes.length < UInt32.size) {low high : Trail (h + 1)}
    {before₁ after₁ before₂ after₂ : List Shelf} {lower upper : PageNum} {es₁ es₂ : List Entry}
    (hlow : Located t ls low before₁ lower es₁ after₁) (hlt : ∀ s ∈ low.sepsBefore, s < x)
    (hge : ∀ s ∈ low.sepsAfter, x ≤ s) (hhigh : Located t ls high before₂ upper es₂ after₂)
    (hle : ∀ s ∈ high.sepsBefore, s ≤ x) (hgt : ∀ s ∈ high.sepsAfter, x < s) :
    Brackets (held nodes) t.leafPaths x before₁.length before₂.length where
  first_iff m path p hrow := by
    obtain ⟨trail, before, es, after, hloc, rfl, rfl⟩ := hstands.exists_located_at hsize hrow
    exact hlow.holdsUpTo_iff hstands hloc hlt hge
  last_iff m path p hrow := by
    obtain ⟨trail, before, es, after, hloc, rfl, rfl⟩ := hstands.exists_located_at hsize hrow
    exact hhigh.holdsFrom_iff hstands hloc hle hgt
  le := by
    have hseps : low.sepsBefore ++ low.sepsAfter = high.sepsBefore ++ high.sepsAfter := by
      rw [← low.seps_fill lower, ← high.seps_fill upper, hlow.fill_eq, hhigh.fill_eq]
    rw [hlow.length_before, hhigh.length_before]
    refine @length_le_of_passes _ (fun s => s.precedes x) _ _ _ _ hseps hlt ?_
    intro s hs
    exact Key.precedes_eq_false_iff.mpr (le_of_lt (hgt s hs))
  between m path p l e hrow hl he hties := by
    obtain ⟨trail, before, es, after, hloc, rfl, rfl⟩ := hstands.exists_located_at hsize hrow
    have heq := Eq.trans hl.symm (hloc.node_eq hstands)
    cases heq
    obtain ⟨hek, hke⟩ := Key.ties_iff.mp hties
    exact ⟨hlow.le_of_mem hstands hloc he hlt hke, hhigh.ge_of_mem hstands hloc he hgt hek⟩

theorem Stands.exists_brackets (hsize : nodes.length < UInt32.size) (type : AttributeType) (x : Key) :
    ∃ first last path lower upper, Brackets (held nodes) t.leafPaths x first last
      ∧ t.leafPaths[first]?.map Prod.snd = some lower ∧ t.leafPaths[last]?.map Prod.snd = some upper
      ∧ IsDescent (held nodes) (path ++ [upper])
      ∧ Looks type (lowerLeaf type x) nodes lower ∧ Looks type (pathTo type x) nodes (path, upper) := by
  obtain ⟨low, before₁, lower, es₁, after₁, hlow, hlt, hge, hlower⟩ := hstands.exists_lowerLeaf hsize type x
  obtain ⟨high, before₂, upper, front, back, after₂, hland, hupper⟩ := exists_landing hstands hsize type x
  have hhigh := hland.located
  refine ⟨before₁.length, before₂.length, high.pages, lower, upper, ?_, ?_, ?_, hhigh.isDescent hstands, hlower, hupper⟩
  · exact brackets_of_located hstands hsize hlow hlt hge hhigh hland.sepsBefore_le hland.lt_sepsAfter
  · rw [hlow.leafPaths_eq hstands hsize]
    rfl
  · rw [hhigh.leafPaths_eq hstands hsize]
    rfl

end

/-! ## Runs -/

variable {a : Attribute} {k : Nat} {v : Volume} {L : List Entry} {name : String}

/-- The work gives an answer through the handle and leaves all files as they were. -/
def Finds {α : Type} (v : Volume) (name : String) (work : IndexM α) (answer : α) : Prop :=
  ∃ v', Volume.through name work v = .ok answer v' ∧ v'.files = v.files

/-- The descents with a key go to one leaf, with its ties to the right, and to another with its ties
to the left. -/
structure Descends (a : Attribute) (v : Volume) (name : String) (x : Key) (path : List PageNum)
    (lower upper : PageNum) : Prop where
  pathTo : Finds v name (pathTo a.type x) (path, upper)
  search : ∀ key, Key.ofBytes a key = .ok x → x.encodedSize ≤ Key.maxSize →
    Finds v name (search a key) (path ++ [upper])
  refused : ∀ key, Key.ofBytes a key = .ok x → Key.maxSize < x.encodedSize → ∃ v',
    Volume.through name (Index.search a key) v = .error (.keyTooLarge x.encodedSize Key.maxSize) v'
      ∧ v.Same v'
  lowerLeaf : Finds v name (lowerLeaf a.type x) lower
  start : ∀ low high hi lowInclusive highInclusive, Key.ofBytes a low = .ok x →
    high.mapM (Key.ofBytes a) = .ok hi → ∃ s, s.nextLeaf = some lower
      ∧ Finds v name (IndexScan.start a (some low) high lowInclusive highInclusive) s

theorem looks_search {key : Bytes} {path : List PageNum} (hkey : Key.ofBytesBounded a key = .ok x)
    (h : Looks a.type (pathTo a.type x) nodes (path, p)) : Looks a.type (search a key) nodes (path ++ [p]) := by
  unfold search
  exact (Looks.of_ok hkey).bind (h.bind (Looks.pure _))

/-- No page is read for a key that is too long. -/
theorem run_search_of_large {key : Bytes} (hkey : Key.ofBytes a key = .ok x) (hsize : Key.maxSize < x.encodedSize)
    (s : Access) : search a key s = .error (.keyTooLarge x.encodedSize Key.maxSize) s := by
  unfold search
  exact run_bind_error (by rw [run_liftExcept, Key.ofBytesBounded_of_large hkey hsize])

theorem descends_of_looks {f : PagedFile} {path : List PageNum} {lower upper : PageNum} (hn : v.Binds name k)
    (hf : v.files[k]? = some f) (hshows : f.ShowsNodes a.type nodes)
    (hlower : Looks a.type (lowerLeaf a.type x) nodes lower)
    (hupper : Looks a.type (pathTo a.type x) nodes (path, upper)) : Descends a v name x path lower upper where
  pathTo := Volume.through_of_looks hn hf (hupper f hshows)
  search key hkey hsize := by
    have hbounded := Key.ofBytesBounded_eq_ok_iff.mpr ⟨hkey, hsize⟩
    exact Volume.through_of_looks hn hf (looks_search hbounded hupper f hshows)
  refused key hkey hsize := Volume.through_same (run_search_of_large hkey hsize _)
  lowerLeaf := Volume.through_of_looks hn hf (hlower f hshows)
  start low high hi lowInclusive highInclusive hlow hhigh := by
    have hsome : (some low).mapM (Key.ofBytes a) = .ok (some x) := by
      simp [hlow]
    obtain ⟨c, hrun⟩ := IndexScan.run_start_of_looks hshows
      (KeyRange.ofBytes_eq hsome hhigh lowInclusive highInclusive) hlower (v.handle name).counters
    exact ⟨_, rfl, Volume.through_of_run_self hn hf hrun⟩

/-- In every run the two descents with a key end at the leaves that bracket what ties with it. -/
theorem brackets_of_reaches (h : Reaches a k v L) (hn : v.Binds name k) (x : Key) :
    ∃ f row first last path lower upper, v.files[k]? = some f ∧ InRow (nodeAt a.type f) row
      ∧ Brackets (nodeAt a.type f) row x first last
      ∧ row[first]?.map Prod.snd = some lower ∧ row[last]?.map Prod.snd = some upper
      ∧ IsDescent (nodeAt a.type f) (path ++ [upper]) ∧ Descends a v name x path lower upper := by
  obtain ⟨f, hf, hlen, nodes, height, t, ls, hshows, hstands, -⟩ := h.isIndex
  rw [hshows.length_eq] at hlen
  obtain ⟨first, last, path, lower, upper, hbrackets, hfirst, hlast, hdescent, hlower, hupper⟩ :=
    hstands.exists_brackets (Nat.lt_trans hlen (by decide)) a.type x
  refine ⟨f, t.leafPaths, first, last, path, lower, upper, hf, ?_⟩
  rw [nodeAt_eq hshows]
  exact ⟨hstands.inRow, hbrackets, hfirst, hlast, hdescent, descends_of_looks hn hf hshows hlower hupper⟩

/-- An index with the positive zero, searched for the negative zero. -/
theorem brackets_of_reaches_zeros : ∃ v, Reaches ⟨"a", .real, 4⟩ 0 v [⟨.real ⟨0⟩, ⟨3, 2⟩⟩] ∧ v.Binds "h" 0
    ∧ ∃ f row first last path lower upper, v.files[0]? = some f ∧ InRow (nodeAt .real f) row
      ∧ Brackets (nodeAt .real f) row (.real ⟨0x80000000⟩) first last
      ∧ row[first]?.map Prod.snd = some lower ∧ row[last]?.map Prod.snd = some upper
      ∧ IsDescent (nodeAt .real f) (path ++ [upper])
      ∧ Finds v "h" (search ⟨"a", .real, 4⟩ [0, 0, 0, 0x80]) (path ++ [upper]) := by
  obtain ⟨v, hreaches, hn⟩ := exists_reaches_zero
  obtain ⟨f, row, first, last, path, lower, upper, hf, hrow, hbrackets, hlower, hupper, hdescent, hdescends⟩ :=
    brackets_of_reaches hreaches hn (.real ⟨0x80000000⟩)
  exact ⟨v, hreaches, hn, f, row, first, last, path, lower, upper, hf, hrow, hbrackets, hlower, hupper, hdescent,
    hdescends.search [0, 0, 0, 0x80] rfl (by decide)⟩

def longText : Bytes := List.replicate 997 97

/-- A search refuses a key of the type of the index that is too long to be in it. -/
theorem search_long : ∃ v, Reaches ⟨"a", .varchar, 2000⟩ 0 v [] ∧ v.Binds "h" 0
    ∧ Key.ofBytes ⟨"a", .varchar, 2000⟩ (counted longText) = .ok (.varchar longText)
    ∧ (∃ v', Volume.through "h" (search ⟨"a", .varchar, 2000⟩ (counted longText)) v
      = .error (.keyTooLarge 1001 1000) v')
    ∧ ¬ ∃ pages, Finds v "h" (search ⟨"a", .varchar, 2000⟩ (counted longText)) pages := by
  obtain ⟨v, hreaches, hn⟩ := exists_reaches_created ⟨"a", .varchar, 2000⟩
  have hlen : longText.length = 997 := List.length_replicate
  have hkey : Key.ofBytes ⟨"a", .varchar, 2000⟩ (counted longText) = .ok (.varchar longText) :=
    Key.ofBytes_counted rfl (by rw [hlen]; decide)
  have hsize : (Key.varchar longText).encodedSize = 1001 := by rw [Key.encodedSize, hlen]
  have hrefused : ∃ v', Volume.through "h" (search ⟨"a", .varchar, 2000⟩ (counted longText)) v
      = .error (.keyTooLarge 1001 1000) v' := by
    obtain ⟨v', hv', -⟩ := Volume.through_same (run_search_of_large hkey (by rw [hsize]; decide) _)
    rw [hsize] at hv'
    exact ⟨v', hv'⟩
  refine ⟨v, hreaches, hn, hkey, hrefused, ?_⟩
  intro hfinds
  obtain ⟨v', hv'⟩ := hrefused
  obtain ⟨pages, w, hw, -⟩ := hfinds
  rw [hv'] at hw
  cases hw

end Index

end Tablespace
