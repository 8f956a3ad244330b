import Mathlib
import Tablespace.Proofs.Index.Label
import Tablespace.Proofs.Index.Range
import Tablespace.Proofs.Index.Shape

/-!
# The outline of an index

An outline goes down along the children, a scan goes along the neighbours of
the leaves, and both come by the same leaves in the same order. The outline
shows the node at the end of every path, and at the leaves one label for each
run of equal keys, from which the identifiers of the run can be read.
-/

namespace Tablespace

open Access

namespace Outline

mutual
/-- The nodes without children, from left to right. -/
def leaves : Outline → List Outline
  | .node keys [] => [.node keys []]
  | .node _ (child :: rest) => leaves child ++ leavesOfEach rest
def leavesOfEach : List Outline → List Outline
  | [] => []
  | child :: rest => leaves child ++ leavesOfEach rest
end

/-- The node to which a path of child numbers leads. -/
def at? : Outline → List Nat → Option Outline
  | o, [] => some o
  | o, i :: path => o.children[i]?.bind fun child => child.at? path

theorem leavesOfEach_eq (os : List Outline) : leavesOfEach os = os.flatMap leaves := by
  induction os with
  | nil => rfl
  | cons o os ih => rw [leavesOfEach, ih, List.flatMap_cons]

theorem leaves_of_ne_nil (keys : List String) {children : List Outline} (h : children ≠ []) :
    (node keys children).leaves = children.flatMap leaves := by
  cases children with
  | nil => exact absurd rfl h
  | cons child rest => rw [leaves, leavesOfEach_eq, List.flatMap_cons]

mutual
theorem leafKeyCount_eq : ∀ o : Outline, o.leafKeyCount = (o.leaves.flatMap keys).length
  | .node labels [] => by simp [leafKeyCount, leaves, keys]
  | .node _ (child :: rest) => by
    rw [leafKeyCount, leaves, leafKeyCount_eq child, leafKeyCounts_eq rest, List.flatMap_append, List.length_append]
theorem leafKeyCounts_eq : ∀ os : List Outline, leafKeyCounts os = ((leavesOfEach os).flatMap keys).length
  | [] => rfl
  | child :: rest => by
    rw [leafKeyCounts, leavesOfEach, leafKeyCount_eq child, leafKeyCounts_eq rest, List.flatMap_append,
      List.length_append]
end

/-! ## Runs of equal keys -/

/-- The list falls apart into the runs of its equal keys, and no run can be longer. -/
structure AreRuns (es : List Entry) (rs : List (List Entry)) : Prop where
  flatten_eq : rs.flatten = es
  ne_nil : ∀ r ∈ rs, r ≠ []
  ties : ∀ r ∈ rs, ∀ x ∈ r, ∀ y ∈ r, x.key.ties y.key = true
  apart : rs.Pairwise fun r later => ∀ x ∈ r, ∀ y ∈ later, x.key < y.key

variable {es r : List Entry}

theorem ties_of_mem_runs (hr : r ∈ runs es) {x y : Entry} (hx : x ∈ r) (hy : y ∈ r) :
    x.key.ties y.key = true := by
  have htrans : IsTrans Entry fun x y => x.key.ties y.key = true := by
    refine ⟨fun x y z hxy hyz => ?_⟩
    rw [Key.ties_iff] at *
    exact ⟨le_trans hxy.1 hyz.1, le_trans hyz.2 hxy.2⟩
  have hsymm : Std.Symm fun x y : Entry => x.key.ties y.key = true := ⟨fun x y hxy => by rwa [Key.ties_comm]⟩
  have hpairs := List.isChain_iff_pairwise.mp (List.isChain_of_mem_splitBy hr)
  exact hpairs.forall_of_forall (fun x _ => Key.ties_iff.mpr ⟨le_refl _, le_refl _⟩) hx hy

/-- Where one run ends and the next begins the keys differ, and all keys of a run tie. -/
theorem apart_runs (hes : Sorted es) :
    (runs es).Pairwise fun r later => ∀ x ∈ r, ∀ y ∈ later, x.key < y.key := by
  have hsorted : (runs es).flatten.Pairwise fun x y => x.key ≤ y.key := by
    rw [runs, List.flatten_splitBy]
    exact hes
  obtain ⟨-, hle⟩ := List.pairwise_flatten.mp hsorted
  have htrans : IsTrans (List Entry) fun r later => later ≠ [] ∧ ∀ x ∈ r, ∀ y ∈ later, x.key < y.key := by
    refine ⟨fun r s t hrs hst => ⟨hst.1, fun x hx y hy => ?_⟩⟩
    obtain ⟨z, hz⟩ := List.exists_mem_of_ne_nil s hrs.1
    exact lt_trans (hrs.2 x hx z hz) (hst.2 z hz y hy)
  have hchain : (runs es).IsChain fun r later => later ≠ [] ∧ ∀ x ∈ r, ∀ y ∈ later, x.key < y.key := by
    rw [List.isChain_iff_getElem]
    intro i hi
    obtain ⟨hlast, hhead, hdiffer⟩ := List.isChain_iff_getElem.mp
      (List.isChain_getLast_head_splitBy (fun e f : Entry => e.key.ties f.key) es) i hi
    refine ⟨hhead, fun x hx y hy => ?_⟩
    have hbetween := List.pairwise_iff_getElem.mp hle i (i + 1) (Nat.lt_of_succ_lt hi) hi (Nat.lt_succ_self i)
    have hxlast := Key.ties_iff.mp (ties_of_mem_runs (List.getElem_mem _) hx (List.getLast_mem hlast))
    have hheady := Key.ties_iff.mp (ties_of_mem_runs (List.getElem_mem _) (List.head_mem hhead) hy)
    by_contra hno
    have hback := le_trans hheady.1 (le_trans (Key.not_lt.mp hno) hxlast.1)
    have htie := Key.ties_iff.mpr ⟨hbetween _ (List.getLast_mem hlast) _ (List.head_mem hhead), hback⟩
    exact Bool.false_ne_true (hdiffer.symm.trans htie)
  exact (List.isChain_iff_pairwise.mp hchain).imp fun h => h.2

theorem areRuns (hes : Sorted es) : AreRuns es (runs es) where
  flatten_eq := List.flatten_splitBy _ es
  ne_nil _ hr := List.ne_nil_of_mem_splitBy hr
  ties _ hr _ hx _ hy := ties_of_mem_runs hr hx hy
  apart := apart_runs hes

theorem labels_ofLeaf (l : Leaf) : List.Forall₂ Labels (ofLeaf l).keys (runs l.entries) := by
  rw [ofLeaf, keys, List.forall₂_map_left_iff, List.forall₂_same]
  exact fun r hr => labels_runLabel (List.ne_nil_of_mem_splitBy hr)

theorem ids_of_labels {labels : List String} {rs : List (List Entry)} (h : List.Forall₂ Labels labels rs) :
    labels.flatMap idsIn = rs.flatten.map Entry.id := by
  induction h with
  | nil => rfl
  | cons hlabel _ ih => rw [List.flatMap_cons, hlabel.ids, ih, List.flatten_cons, List.map_append]

theorem ids_ofLeaf (l : Leaf) : (ofLeaf l).keys.flatMap idsIn = l.entries.map Entry.id := by
  rw [ids_of_labels (labels_ofLeaf l), runs, List.flatten_splitBy]

/-! ## Trees -/

def ofHeld (nodes : List Node) (p : PageNum) : Outline :=
  match held nodes p with
  | some (.leaf l) => ofLeaf l
  | _ => .node [] []

/-- The outline of a tree whose nodes are held. -/
def ofTree (nodes : List Node) : {h : Nat} → Tree h → Outline
  | 0, p => ofHeld nodes p
  | _ + 1, t =>
    .node ((Inner.toForest t).keys.map Key.display) ((Inner.toForest t).children.map (ofTree nodes))

section
variable {type : AttributeType} {nodes : List Node} {h : Nat}

theorem ofHeld_leaf {p : PageNum} {l : Leaf} (hl : held nodes p = some (.leaf l)) : ofHeld nodes p = ofLeaf l := by
  simp only [ofHeld, hl]

theorem children_ofHeld (nodes : List Node) (p : PageNum) : (ofHeld nodes p).children = [] := by
  unfold ofHeld
  split <;> rfl

theorem at?_of_nil {o : Outline} (h : o.children = []) (i : Nat) (path : List Nat) : o.at? (i :: path) = none := by
  rw [at?, h]
  rfl

theorem leaves_of_nil {o : Outline} (h : o.children = []) : o.leaves = [o] := by
  obtain ⟨keys, children⟩ := o
  obtain rfl : children = [] := h
  rw [leaves]

theorem ofTree_under (nodes : List Node) (g : Forest (Tree h)) (page : PageNum) :
    ofTree nodes (g.under page) = .node (g.keys.map Key.display) (g.children.map (ofTree nodes)) := rfl

theorem looks_mapM {α β γ : Type} {work : β → IndexM γ} {page : α → β} {out : α → γ} {cs : List α}
    (h : ∀ c ∈ cs, Index.Looks type (work (page c)) nodes (out c)) :
    Index.Looks type ((cs.map page).mapM work) nodes (cs.map out) := by
  induction cs with
  | nil => exact Index.Looks.pure []
  | cons c cs ih =>
    obtain ⟨hc, hcs⟩ := List.forall_mem_cons.mp h
    rw [List.map_cons, List.mapM_cons]
    exact hc.bind ((ih hcs).bind (Index.Looks.pure _))

/-- The outline below a page that is no deeper than the tree there is that of the tree. -/
theorem looks_ofPage {t : Tree h} (ht : t.Stored nodes) {depth : Nat} (hdepth : h ≤ depth) :
    Index.Looks type (ofPage type depth t.root) nodes (ofTree nodes t) := by
  induction h generalizing depth with
  | zero =>
    obtain ⟨l, hl⟩ := ht
    unfold ofPage
    rw [ofTree, ofHeld_leaf hl]
    exact (Index.looks_readNode hl).bind (Index.Looks.pure _)
  | succ h ih =>
    obtain ⟨g, page, rfl⟩ := t.exists_under
    obtain ⟨hpage, hg⟩ := (Forest.stored_under g page).mp ht
    obtain ⟨depth, rfl⟩ : ∃ d, depth = d + 1 := ⟨depth - 1, by omega⟩
    rw [ofTree_under]
    unfold ofPage
    refine (Index.looks_readNode hpage).bind ?_
    exact (looks_mapM fun c hc => ih (hg c hc) (Nat.le_of_succ_le_succ hdepth)).bind (Index.Looks.pure _)

theorem leaves_ofTree (nodes : List Node) (t : Tree h) :
    (ofTree nodes t).leaves = t.leaves.map (ofHeld nodes) := by
  induction h with
  | zero => exact leaves_of_nil (children_ofHeld nodes t)
  | succ h ih =>
    obtain ⟨g, page, rfl⟩ := t.exists_under
    have hne : g.children.map (ofTree nodes) ≠ [] := by
      rw [← List.length_pos_iff, List.length_map, g.length_eq]
      exact Nat.succ_pos _
    rw [ofTree_under, leaves_of_ne_nil _ hne, List.flatMap_map, Forest.leaves_under, Forest.leaves, List.map_flatMap]
    exact List.flatMap_congr fun c _ => ih c

theorem at?_ofTree (nodes : List Node) (t : Tree h) (path : List Nat) :
    (ofTree nodes t).at? path = (t.at? path).map fun u => ofTree nodes u.2 := by
  induction path generalizing h t with
  | nil =>
    rw [Tree.at?_nil]
    rfl
  | cons i path ih =>
    cases h with
    | zero => exact at?_of_nil (children_ofHeld nodes t) i path
    | succ h =>
      obtain ⟨g, page, rfl⟩ := t.exists_under
      show ((g.children.map (ofTree nodes))[i]?).bind _ = ((g.children[i]?).bind _).map _
      rw [List.getElem?_map]
      cases g.children[i]? with
      | none => rfl
      | some c => exact ih c

theorem separators_ofTree {t : Tree h} {path : List Nat} {o : Outline} (ho : (ofTree nodes t).at? path = some o)
    (hne : o.children ≠ []) : o.children.length = o.keys.length + 1 := by
  rw [at?_ofTree, Option.map_eq_some_iff] at ho
  obtain ⟨⟨j, s⟩, -, rfl⟩ := ho
  cases j with
  | zero => exact absurd (children_ofHeld nodes s) hne
  | succ j =>
    obtain ⟨g, page, rfl⟩ := s.exists_under
    show (g.children.map _).length = (g.keys.map _).length + 1
    rw [List.length_map, List.length_map, g.length_eq]

end

/-- The node of an outline shows the node of a file. -/
def Shows (o : Outline) : Node → Prop
  | .leaf l => o = ofLeaf l
  | .internal n => o.keys = n.keys.map Key.display ∧ o.children.length = n.children.length

/-- The outline shows the node at the end of each path from the root, and nothing where a path ends
nowhere. -/
def Mirrors (o : Outline) (look : PageNum → Option Node) : Prop :=
  ∀ path,
    match follow look Index.root path with
    | some p => ∃ n o', look p = some n ∧ o.at? path = some o' ∧ o'.Shows n
    | none => o.at? path = none

end Outline

/-- The leaves that are met from a page on along the neighbours behind. -/
inductive Met (look : PageNum → Option Node) : Option PageNum → List Leaf → Prop
  | done : Met look none []
  | leaf {p l ls} : look p = some (.leaf l) → Met look l.next ls → Met look (some p) (l :: ls)

/-- The outline of a file, the page of its first leaf, the leaves from there on and the entries. -/
structure Outlined (type : AttributeType) (f : PagedFile) (o : Outline) (first : PageNum) (ls : List Leaf)
    (L : List Entry) : Prop where
  mirrors : o.Mirrors (Index.nodeAt type f)
  met : Met (Index.nodeAt type f) (some first) ls
  leaves : o.leaves = ls.map Outline.ofLeaf
  runs : ∀ l ∈ ls, Outline.AreRuns l.entries (Outline.runs l.entries)
  labels : List.Forall₂ (fun o' l => List.Forall₂ Outline.Labels o'.keys (Outline.runs l.entries)) o.leaves ls
  ids : (o.leaves.flatMap fun o' => o'.keys.flatMap Outline.idsIn) = L.map Entry.id
  entries : (ls.flatMap fun l => (Outline.runs l.entries).flatten) = L
  separators : ∀ path o', o.at? path = some o' → o'.children ≠ [] → o'.children.length = o'.keys.length + 1
  count : o.leafKeyCount = (ls.flatMap fun l => Outline.runs l.entries).length
  count_eq_zero_iff : o.leafKeyCount = 0 ↔ L = []

section
variable {type : AttributeType} {nodes : List Node} {prev : Option PageNum} {ls : List Shelf} {h : Nat}
  {t : Tree (h + 1)}

theorem Chain.exists_met (hchain : Chain nodes prev ls none) : ∃ leaves : List Leaf,
    Met (held nodes) (firstPage ls) leaves ∧ leaves.map Leaf.entries = ls.map Prod.snd
      ∧ leaves.map Outline.ofLeaf = (ls.map Prod.fst).map (Outline.ofHeld nodes) := by
  induction ls generalizing prev with
  | nil => exact ⟨[], .done, rfl, rfl⟩
  | cons l ls ih =>
    obtain ⟨hl, hrest⟩ := hchain
    rw [Option.or_none] at hl
    obtain ⟨leaves, hmet, hentries, hshown⟩ := ih hrest
    refine ⟨⟨l.2, prev, firstPage ls⟩ :: leaves, .leaf hl hmet, ?_, ?_⟩
    · rw [List.map_cons, List.map_cons, hentries]
    · rw [List.map_cons, List.map_cons, List.map_cons, hshown, Outline.ofHeld_leaf hl]

namespace Index.Stands

variable (hstands : Stands nodes t ls)
include hstands

theorem looks_outline (hsize : nodes.length < UInt32.size) (a : Attribute) :
    Looks a.type (outline a) nodes (Outline.ofTree nodes t) := by
  have hheight := hstands.height_lt
  refine looks_pageCount.bind ?_
  rw [UInt32.toNat_ofNat_of_lt' hsize, ← hstands.root_eq]
  exact Outline.looks_ofPage hstands.stored (by omega)

theorem mirrors : (Outline.ofTree nodes t).Mirrors (held nodes) := by
  intro path
  rw [Outline.at?_ofTree, ← hstands.root_eq, Tree.follow_root hstands.stored]
  cases hu : t.at? path with
  | none => rfl
  | some u =>
    obtain ⟨j, s⟩ := u
    have hs : s.Stored nodes := Tree.stored_at? hstands.stored hu
    cases j with
    | zero =>
      obtain ⟨l, hl⟩ := hs
      exact ⟨.leaf l, _, hl, rfl, Outline.ofHeld_leaf hl⟩
    | succ j =>
      obtain ⟨g, page, rfl⟩ := s.exists_under
      refine ⟨.internal g.toInternal, _, ((Forest.stored_under g page).mp hs).1, rfl, rfl, ?_⟩
      show (g.children.map _).length = (g.children.map _).length
      rw [List.length_map, List.length_map]

theorem exists_outlined {f : PagedFile} (hf : f.ShowsNodes type nodes) {p : PageNum} (hp : firstPage ls = some p) :
    ∃ leaves, Outlined type f (Outline.ofTree nodes t) p leaves (entriesOf ls) := by
  obtain ⟨leaves, hmet, hentries, hshown⟩ := hstands.chain.exists_met
  have hall : (leaves.map Leaf.entries).flatten = entriesOf ls := by
    rw [hentries, entriesOf, List.flatMap_def]
  have hsorted : Sorted (leaves.map Leaf.entries).flatten := hall ▸ hstands.sorted_entries
  have hleaves : (Outline.ofTree nodes t).leaves = leaves.map Outline.ofLeaf := by
    rw [Outline.leaves_ofTree, hstands.leaves_eq, hshown]
  have hcount : (Outline.ofTree nodes t).leafKeyCount
      = (leaves.flatMap fun l => Outline.runs l.entries).length := by
    rw [Outline.leafKeyCount_eq, hleaves, List.flatMap_map]
    simp [Outline.ofLeaf, Outline.keys, List.length_flatMap]
  refine ⟨leaves, ?mirrors, ?met, hleaves, ?runs, ?labels, ?ids, ?entries,
    fun _ _ => Outline.separators_ofTree, hcount, ?zero⟩
  case mirrors =>
    rw [nodeAt_eq hf]
    exact hstands.mirrors
  case met =>
    rw [nodeAt_eq hf, ← hp]
    exact hmet
  case runs =>
    intro l hl
    exact Outline.areRuns ((List.pairwise_flatten.mp hsorted).1 _ (List.mem_map_of_mem hl))
  case labels =>
    rw [hleaves, List.forall₂_map_left_iff, List.forall₂_same]
    exact fun l _ => Outline.labels_ofLeaf l
  case ids =>
    rw [hleaves, List.flatMap_map, ← hall, List.map_flatten, ← List.flatMap_def, List.flatMap_map]
    exact List.flatMap_congr fun l _ => Outline.ids_ofLeaf l
  case entries =>
    have hruns : ∀ l : Leaf, (Outline.runs l.entries).flatten = l.entries := fun l => List.flatten_splitBy _ _
    rw [← hall, ← List.flatMap_def]
    simp only [hruns]
  case zero =>
    rw [hcount, List.length_eq_zero_iff, List.flatMap_eq_nil_iff, ← hall, List.flatten_eq_nil_iff, List.forall_mem_map]
    simp only [Outline.runs, List.splitBy_eq_nil]

end Index.Stands

end

/-! ## Files of runs -/

namespace Index

section
variable {a : Attribute} {k : Nat} {v : Volume} {L : List Entry} {name : String}

/-- The outline of an index file and a scan of it come by the same leaves and entries. -/
theorem outlined_of_reaches (h : Reaches a k v L) (hn : v.Binds name k) :
    Scans k a v L
    ∧ ∃ f o first ls v₁ v₂, v.files[k]? = some f
      ∧ Volume.through name (outline a) v = .ok o v₁ ∧ v₁.files = v.files
      ∧ Volume.through name (firstLeaf a.type) v = .ok first v₂ ∧ v₂.files = v.files
      ∧ Outlined a.type f o first ls L := by
  obtain ⟨f, hf, hsize, nodes, height, t, ls, hshows, hstands, rfl⟩ := h.isIndex
  rw [hshows.length_eq] at hsize
  have hsize' : nodes.length < UInt32.size := Nat.lt_trans hsize (by decide)
  obtain ⟨first, hfirst, hlooks⟩ := hstands.looks_firstLeaf hsize' a.type
  obtain ⟨leaves, houtlined⟩ := hstands.exists_outlined hshows hfirst
  obtain ⟨v₁, hv₁, hfiles₁⟩ := Volume.through_of_looks hn hf (hstands.looks_outline hsize' a f hshows)
  obtain ⟨v₂, hv₂, hfiles₂⟩ := Volume.through_of_looks hn hf (hlooks f hshows)
  exact ⟨h.scans, f, _, first, leaves, v₁, v₂, hf, hv₁, hfiles₁, hv₂, hfiles₂, houtlined⟩

/-- The outline of an index with one entry has a label that lists the identifier of the entry. -/
theorem outlined_of_reaches_zero : ∃ v f o first ls v',
    Reaches ⟨"a", .real, 4⟩ 0 v [⟨.real ⟨0⟩, ⟨3, 2⟩⟩] ∧ v.Binds "h" 0
    ∧ Volume.through "h" (outline ⟨"a", .real, 4⟩) v = .ok o v'
    ∧ Outlined .real f o first ls [⟨.real ⟨0⟩, ⟨3, 2⟩⟩] ∧ o.leafKeyCount ≠ 0
    ∧ (o.leaves.flatMap fun o' => o'.keys.flatMap Outline.idsIn) = [⟨3, 2⟩] := by
  obtain ⟨v, hreaches, hn⟩ := exists_reaches_zero
  obtain ⟨-, f, o, first, ls, v', -, -, hv', -, -, -, houtlined⟩ := outlined_of_reaches hreaches hn
  have hcount : o.leafKeyCount ≠ 0 := houtlined.count_eq_zero_iff.not.mpr (List.cons_ne_nil _ _)
  exact ⟨v, f, o, first, ls, v', hreaches, hn, hv', houtlined, hcount, houtlined.ids⟩

end

end Index

end Tablespace
