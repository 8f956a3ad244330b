import Mathlib
import Tablespace.Proofs.Index.Paths
import Tablespace.Proofs.Index.Reachable

/-!
# The shape of an index

What a reader of an index file relies on: the pages make one tree below the
first, with separators in order and between the keys on either side, and the
leaves, all at one depth, make one row from left to right.
-/

namespace Tablespace

open Access

def Node.keys : Node → List Key
  | .leaf l => l.entries.map Entry.key
  | .internal n => n.keys

namespace Index

/-- The node on a page of the file, if the page can be read. -/
def nodeAt (type : AttributeType) (f : PagedFile) (p : PageNum) : Option Node :=
  f.pages[p.toNat]?.bind fun pg => (NodePage.toNode pg.bytes type p).toOption

/-- The leaves below the root from left to right, each with the path to it, and each linked to the
leaf before it and to the leaf behind it. -/
structure InRow (look : PageNum → Option Node) (ls : List (List Nat × PageNum)) : Prop where
  mem_iff : ∀ path p, (path, p) ∈ ls ↔ follow look root path = some p ∧ ∃ l, look p = some (.leaf l)
  ordered : ls.Pairwise (·.1 < ·.1)
  linked : ∀ before path p after l, ls = before ++ (path, p) :: after → look p = some (.leaf l) →
    l.prev = before.getLast?.map Prod.snd ∧ l.next = after.head?.map Prod.snd

/-- No key below a child to the left of a separator is larger than it, and none below a child to
its right is smaller. -/
def Separates (look : PageNum → Option Node) (n : Internal) : Prop :=
  ∀ (i j : Nat) child k, n.children[i]? = some child → n.keys[j]? = some k →
    ∀ path q (m : Node), follow look child path = some q → look q = some m →
      ∀ x ∈ m.keys, (i ≤ j → x ≤ k) ∧ (j < i → k ≤ x)

/-- The nodes make a tree below the root that takes up all pages. -/
structure WellShaped (look : PageNum → Option Node) (count : Nat) : Prop where
  root_internal : ∃ n, look root = some (.internal n)
  fits : ∀ p, p.toNat < count → ∃ n, look p = some n ∧ n.encodedSize ≤ pageSize
  reached : ∀ p, p.toNat < count → ∃! path, follow look root path = some p
  inside : ∀ path p, follow look root path = some p → p.toNat < count
  length_eq : ∀ p n, look p = some (.internal n) → n.children.length = n.keys.length + 1
  sorted : ∀ p (n : Node), look p = some n → n.keys.Pairwise (· ≤ ·)
  separated : ∀ p n, look p = some (.internal n) → Separates look n
  depth : ∃ d, ∀ path p l, follow look root path = some p → look p = some (.leaf l) → path.length = d
  row : ∃ ls, InRow look ls

/-! ## Files -/

/-- The node on a page is the one that an index reads there. -/
theorem does_readNode_of_nodeAt {type : AttributeType} {f : PagedFile} {p : PageNum} {n : Node}
    (h : nodeAt type f p = some n) : Does (readNode type p) f n f := by
  obtain ⟨pg, hpg, hn⟩ := Option.bind_eq_some_iff.mp h
  apply does_readNode hpg
  cases hread : NodePage.toNode pg.bytes type p with
  | error e =>
    rw [hread] at hn
    cases hn
  | ok m =>
    rw [hread] at hn
    cases hn
    rfl

theorem nodeAt_eq {type : AttributeType} {f : PagedFile} {nodes : List Node} (hf : f.ShowsNodes type nodes) :
    nodeAt type f = held nodes := by
  funext p
  unfold nodeAt held
  cases hn : nodes[p.toNat]? with
  | none =>
    rw [List.getElem?_eq_none (hf.length_eq ▸ List.getElem?_eq_none_iff.mp hn)]
    rfl
  | some n =>
    have hpg := List.getElem?_eq_getElem (hf.length_eq ▸ (List.getElem?_eq_some_iff.mp hn).1)
    rw [hpg, Option.bind_some, (hf.page _ _ _ hpg hn).toNode_eq p]
    rfl

/-! ## Keys in order -/

def keysAt (nodes : List Node) (p : PageNum) : List Key := ((held nodes p).map Node.keys).getD []

variable {h : Nat} {nodes : List Node} {p : PageNum} {n : Node}

/-- The keys of a node are keys of the tree below it. -/
theorem keys_sublist {t : Tree h} (ht : t.Stored nodes) (hn : held nodes t.root = some n) :
    n.keys.Sublist (t.line (keysAt nodes)) := by
  cases h with
  | zero =>
    have hkeys : keysAt nodes t.root = n.keys := by
      rw [keysAt, hn]
      rfl
    exact hkeys ▸ List.Sublist.refl _
  | succ h =>
    obtain ⟨g, page, rfl⟩ := t.exists_under
    have heq := Eq.trans ((Forest.stored_under g page).mp ht).1.symm hn
    cases heq
    exact Weave.sublist_weave (show (g.children.map (Tree.line (keysAt nodes))).length = g.keys.length + 1 by
      rw [List.length_map, g.length_eq])

namespace Stands

variable {t : Tree (h + 1)} {ls : List Shelf} (hstands : Stands nodes t ls)
include hstands

theorem leaf_around {before after : List Shelf} {l : Shelf} (hls : ls = before ++ l :: after) :
    held nodes l.1 = some (.leaf ⟨l.2, lastPage before, firstPage after⟩) :=
  (chain_around.mp (hls ▸ hstands.chain)).2.1

theorem sorted_line : (t.line (keysAt nodes)).Pairwise (· ≤ ·) := by
  have hkeys : ls.map (fun l => keysAt nodes l.1) = ls.map keysOf := by
    apply List.map_congr_left
    intro l hl
    obtain ⟨before, after, hls⟩ := List.append_of_mem hl
    rw [keysAt, hstands.leaf_around hls]
    rfl
  have hsorted := hstands.sorted
  rw [line, ← hkeys] at hsorted
  rwa [t.line_eq, hstands.leaves_eq, List.map_map]

theorem follow_iff {path : List Nat} :
    follow (held nodes) root path = some p ↔ ∃ u, t.at? path = some u ∧ u.2.root = p := by
  rw [← hstands.root_eq, Tree.follow_root hstands.stored, Option.map_eq_some_iff]

section
variable (hsize : nodes.length ≤ UInt32.size)
include hsize

theorem mem_pages : p ∈ t.pages ↔ p.toNat < nodes.length := by
  rw [hstands.pages_perm.mem_iff, mem_pagesFrom hsize]
  exact and_iff_right (Nat.zero_le _)

theorem exists_at? (hn : held nodes p = some n) : ∃ path u, t.at? path = some u ∧ u.2.root = p :=
  Tree.exists_at? ((hstands.mem_pages hsize).mpr (List.getElem?_eq_some_iff.mp hn).1)

theorem sorted_keys (hn : held nodes p = some n) : n.keys.Pairwise (· ≤ ·) := by
  obtain ⟨path, u, hu, rfl⟩ := hstands.exists_at? hsize hn
  have hsub := (keys_sublist (Tree.stored_at? hstands.stored hu) hn).trans (Tree.line_at? hu)
  exact hstands.sorted_line.sublist hsub

theorem exists_under {n : Internal} (hn : held nodes p = some (.internal n)) :
    ∃ (path : List Nat) (j : Nat) (g : Forest (Tree j)), t.at? path = some ⟨j + 1, g.under p⟩ ∧ n = g.toInternal
      ∧ g.Stored nodes := by
  obtain ⟨path, ⟨j, s⟩, hu, rfl⟩ := hstands.exists_at? hsize hn
  have hs : s.Stored nodes := Tree.stored_at? hstands.stored hu
  cases j with
  | zero =>
    obtain ⟨l, hl⟩ := hs
    have heq := Eq.trans hl.symm hn
    cases heq
  | succ j =>
    obtain ⟨g, page, rfl⟩ := s.exists_under
    obtain ⟨hpage, hg⟩ := (Forest.stored_under g page).mp hs
    have heq := Eq.trans hpage.symm hn
    cases heq
    exact ⟨path, j, g, hu, rfl, hg⟩

theorem separated {n : Internal} (hn : held nodes p = some (.internal n)) : Separates (held nodes) n := by
  intro i j child k hchild hk path q m hq hm x hx
  obtain ⟨above, height, g, hg, rfl, hstored⟩ := hstands.exists_under hsize hn
  rw [Forest.toInternal, List.getElem?_map, Option.map_eq_some_iff] at hchild
  obtain ⟨c, hc, rfl⟩ := hchild
  have hcstored := hstored c (List.mem_of_getElem? hc)
  rw [Tree.follow_root hcstored, Option.map_eq_some_iff] at hq
  obtain ⟨u, hu, rfl⟩ := hq
  have hsub := (keys_sublist (Tree.stored_at? hcstored hu) hm).trans (Tree.line_at? hu)
  have hline : (weave g.keys (g.children.map (Tree.line (keysAt nodes)))).Pairwise (· ≤ ·) :=
    hstands.sorted_line.sublist (Tree.line_at? hg)
  refine Weave.rel_of_pairwise (by rw [List.length_map, g.length_eq]) hline hk ?_ (hsub.subset hx)
  rw [List.getElem?_map, hc]
  rfl

end

theorem at?_leaf {path : List Nat} {l : Leaf} (hpath : follow (held nodes) root path = some p)
    (hl : held nodes p = some (.leaf l)) : t.at? path = some ⟨0, p⟩ := by
  obtain ⟨⟨j, s⟩, hu, rfl⟩ := hstands.follow_iff.mp hpath
  have hs : s.Stored nodes := Tree.stored_at? hstands.stored hu
  cases j with
  | zero => exact hu
  | succ j =>
    obtain ⟨g, page, rfl⟩ := s.exists_under
    have heq := Eq.trans ((Forest.stored_under g page).mp hs).1.symm hl
    cases heq

theorem inRow : InRow (held nodes) t.leafPaths where
  mem_iff path p := by
    rw [Tree.mem_leafPaths]
    constructor
    · intro hu
      exact ⟨hstands.follow_iff.mpr ⟨_, hu, rfl⟩, Tree.stored_at? hstands.stored hu⟩
    · intro h
      obtain ⟨hpath, l, hl⟩ := h
      exact hstands.at?_leaf hpath hl
  ordered := t.leafPaths_ordered
  linked before path p after l hrow hl := by
    have hleaves : ls.map Prod.fst = before.map Prod.snd ++ p :: after.map Prod.snd := by
      rw [← hstands.leaves_eq, ← t.leaves_leafPaths, hrow, List.map_append, List.map_cons]
    obtain ⟨before', rest, hls, hbefore, hrest⟩ := List.map_eq_append_iff.mp hleaves
    obtain ⟨⟨p', es⟩, after', rfl, hp, hafter⟩ := List.map_eq_cons_iff.mp hrest
    obtain rfl : p' = p := hp
    rw [hstands.leaf_around hls] at hl
    cases hl
    constructor
    · rw [lastPage, ← List.getLast?_map, ← List.getLast?_map, hbefore]
    · rw [firstPage, ← List.head?_map, ← List.head?_map, hafter]

theorem wellShaped (hsize : nodes.length ≤ UInt32.size) {type : AttributeType}
    (hsound : ∀ n ∈ nodes, n.Sound type) : WellShaped (held nodes) nodes.length where
  root_internal := by
    obtain ⟨g, page, rfl⟩ := t.exists_under
    have hroot := hstands.root_eq
    rw [Forest.root_under] at hroot
    subst hroot
    exact ⟨g.toInternal, ((Forest.stored_under g root).mp hstands.stored).1⟩
  fits p hp := ⟨nodes[p.toNat], List.getElem?_eq_getElem hp, (hsound _ (List.getElem_mem hp)).encodedSize_le⟩
  reached p hp := by
    obtain ⟨path, u, hu, rfl⟩ := Tree.exists_at? ((hstands.mem_pages hsize).mpr hp)
    refine ⟨path, hstands.follow_iff.mpr ⟨u, hu, rfl⟩, ?_⟩
    intro path' hpath'
    obtain ⟨u', hu', hroot⟩ := hstands.follow_iff.mp hpath'
    exact Tree.path_unique (hstands.nodup hsize) hu' hu hroot
  inside path p hpath := by
    obtain ⟨u, hu, rfl⟩ := hstands.follow_iff.mp hpath
    exact (hstands.mem_pages hsize).mp (Tree.root_at? hu)
  length_eq p n hn := by
    obtain ⟨path, j, g, -, rfl, -⟩ := hstands.exists_under hsize hn
    rw [Forest.toInternal, List.length_map, g.length_eq]
  sorted p n hn := hstands.sorted_keys hsize hn
  separated p n hn := hstands.separated hsize hn
  depth := by
    refine ⟨h + 1, ?_⟩
    intro path p l hpath hl
    rw [← Tree.height_at? (hstands.at?_leaf hpath hl), Nat.zero_add]
  row := ⟨_, hstands.inRow⟩

end Stands

/-! ## Runs -/

/-- The index file of a run is well shaped. -/
theorem wellShaped_of_reaches {a : Attribute} {k : Nat} {v : Volume} {L : List Entry} (h : Reaches a k v L) :
    ∃ f, v.files[k]? = some f ∧ WellShaped (nodeAt a.type f) f.pages.length := by
  obtain ⟨f, hf, hsize, nodes, height, t, ls, hshows, hstands, -⟩ := h.isIndex
  rw [hshows.length_eq] at hsize
  refine ⟨f, hf, ?_⟩
  rw [nodeAt_eq hshows, hshows.length_eq]
  exact hstands.wellShaped (Nat.le_of_lt (Nat.lt_trans hsize (by decide))) hshows.sound

/-- Entries that no leaf can hold together have parted. -/
theorem IsIndex.two_lt {type : AttributeType} {f : PagedFile} {L : List Entry} (h : IsIndex type f L)
    (hwide : ∀ prev next, (⟨L, prev, next⟩ : Leaf).fits = false) : 2 < f.pages.length := by
  obtain ⟨nodes, height, t, ls, hshows, hstands, rfl⟩ := h
  have hleaves := hstands.leaves_lt
  have hlen := hstands.length_eq
  rw [hshows.length_eq]
  by_contra hfew
  obtain ⟨l, rfl⟩ : ∃ l, ls = [l] := List.length_eq_one_iff.mp (by omega)
  have hl := hstands.leaf_around (show [l] = [] ++ l :: [] from rfl)
  have hfits : (⟨l.2, lastPage [], firstPage []⟩ : Leaf).fits = true := (hshows.sound _ (List.mem_of_getElem? hl)).fits
  have hfails := hwide (lastPage []) (firstPage [])
  rw [entriesOf, List.flatMap_singleton, hfits] at hfails
  cases hfails

def wideText : Bytes := List.replicate 996 97

/-- An index in which a leaf has parted, with five of the largest entries that there are. -/
theorem wellShaped_of_reaches_parted : ∃ v f,
    Reaches ⟨"a", .varchar, 996⟩ 0 v (List.replicate 5 ⟨.varchar wideText, ⟨3, 2⟩⟩) ∧ v.files[0]? = some f
    ∧ WellShaped (nodeAt .varchar f) f.pages.length ∧ 2 < f.pages.length := by
  have hlen : wideText.length = 996 := List.length_replicate
  have hsize : (Key.varchar wideText).encodedSize = 1000 := by rw [Key.encodedSize, hlen]
  have hkey : Key.ofBytesBounded ⟨"a", .varchar, 996⟩ (counted wideText) = .ok (.varchar wideText) :=
    Key.ofBytesBounded_eq_ok_iff.mpr ⟨Key.ofBytes_counted rfl (by rw [hlen]; decide), by rw [hsize]; decide⟩
  obtain ⟨v, -, hreaches, -⟩ := exists_reaches_repeated hkey ⟨3, 2⟩ 5 (by decide)
  obtain ⟨f, hf, hshape⟩ := wellShaped_of_reaches hreaches
  obtain ⟨f', hf', -, hindex⟩ := hreaches.isIndex
  obtain rfl : f = f' := Option.some.inj (hf.symm.trans hf')
  have hwide : ∀ prev next, (⟨List.replicate 5 ⟨.varchar wideText, ⟨3, 2⟩⟩, prev, next⟩ : Leaf).fits = false := by
    intro prev next
    rw [← Bool.not_eq_true, Leaf.fits_iff, List.map_replicate, Leaf.entrySize, hsize]
    decide
  exact ⟨v, f, hreaches, hf, hshape, hindex.two_lt hwide⟩

end Index

end Tablespace
