import Tablespace.Proofs.Index.Chain
import Tablespace.Proofs.Index.Descent
import Tablespace.Proofs.Index.Growth
import Tablespace.Proofs.Index.Leaf

/-!
# Indexes that stand

An index stands when its nodes hold a tree below the first page that takes up
all pages, its leaves make a chain in the order of the tree, and the keys of
the leaves with the separators between them are in order.
-/

namespace Tablespace

def entriesOf (ls : List Shelf) : List Entry := ls.flatMap Prod.snd

def keysOf (l : Shelf) : List Key := l.2.map Entry.key

theorem flatten_keysOf (ls : List Shelf) : (ls.map keysOf).flatten = (entriesOf ls).map Entry.key := by
  rw [entriesOf, List.map_flatMap]
  rfl

theorem entriesOf_around (before : List Shelf) (p : PageNum) (es : List Entry) (after : List Shelf) :
    entriesOf (before ++ (p, es) :: after) = entriesOf before ++ es ++ entriesOf after := by
  simp [entriesOf]

/-- The keys of the leaves with the separators between them. -/
def line (seps : List Key) (ls : List Shelf) : List Key := weave seps (ls.map keysOf)

namespace Index

/-- The nodes are an index with a tree and leaves. -/
structure Stands {h : Nat} (nodes : List Node) (t : Tree (h + 1)) (ls : List Shelf) : Prop where
  root_eq : t.root = root
  stored : t.Stored nodes
  pages_perm : t.pages.Perm (pagesFrom 0 nodes.length)
  leaves_eq : t.leaves = ls.map Prod.fst
  chain : Chain nodes none ls none
  sorted : (line t.seps ls).Pairwise (· ≤ ·)

/-- A leaf to which a trail leads, among the others. -/
structure Located {h : Nat} (t : Tree (h + 1)) (ls : List Shelf) (trail : Trail (h + 1)) (before : List Shelf)
    (p : PageNum) (es : List Entry) (after : List Shelf) : Prop where
  fill_eq : trail.fill p = t
  leaves_eq : ls = before ++ (p, es) :: after
  before_eq : before.map Prod.fst = trail.leavesBefore
  after_eq : after.map Prod.fst = trail.leavesAfter

variable {h : Nat} {nodes : List Node} {t : Tree (h + 1)} {ls before after : List Shelf} {trail : Trail (h + 1)}
  {p : PageNum} {es : List Entry} {k : Key}

namespace Stands

section
variable (hstands : Stands nodes t ls)
include hstands

theorem height_lt : h + 1 < nodes.length := by
  have := t.height_lt
  rwa [hstands.pages_perm.length_eq, pagesFrom, List.length_map, List.length_range', Nat.sub_zero] at this

theorem nodup (hsize : nodes.length ≤ UInt32.size) : t.pages.Nodup :=
  hstands.pages_perm.nodup_iff.mpr (nodup_pagesFrom hsize)

theorem length_eq : ls.length = t.seps.length + 1 := by
  rw [← t.length_leaves, hstands.leaves_eq, List.length_map]

theorem nodup_leaves (hsize : nodes.length ≤ UInt32.size) : (ls.map Prod.fst).Nodup := by
  rw [← hstands.leaves_eq]
  exact (hstands.nodup hsize).sublist t.leaves_sublist

/-- The root is no leaf. -/
theorem leaves_lt : ls.length < nodes.length := by
  obtain ⟨g, page, rfl⟩ := t.exists_under
  have hle := (List.Sublist.flatMap_right g.children fun c _ => c.leaves_sublist).length_le
  have hleaves := congrArg List.length hstands.leaves_eq
  have hpages := hstands.pages_perm.length_eq
  rw [Forest.leaves_under, Forest.leaves, List.length_map] at hleaves
  rw [Forest.pages_under, List.length_cons, pagesFrom, List.length_map, List.length_range', Nat.sub_zero,
    Forest.pages] at hpages
  omega

theorem leaves_le : ls.length ≤ nodes.length := Nat.le_of_lt hstands.leaves_lt

theorem sorted_seps : t.seps.Pairwise (· ≤ ·) :=
  hstands.sorted.sublist (Weave.sublist_weave (by rw [List.length_map, hstands.length_eq]))

theorem sorted_entries : Sorted (entriesOf ls) := by
  have hsub := Weave.flatten_sublist_weave (show (ls.map keysOf).length = t.seps.length + 1 by
    rw [List.length_map, hstands.length_eq])
  have := hstands.sorted.sublist hsub
  rwa [flatten_keysOf, List.pairwise_map] at this

end

/-- Every trail through the tree leads to one of the leaves. -/
theorem exists_located_of_fill (hstands : Stands nodes t ls) (hfill : trail.fill p = t) :
    ∃ before es after, Located t ls trail before p es after := by
  have hleaves := hstands.leaves_eq
  rw [← hfill, trail.leaves_fill] at hleaves
  obtain ⟨before, rest, hls, hbefore, hrest⟩ := List.map_eq_append_iff.mp hleaves.symm
  obtain ⟨⟨p', es⟩, after, rfl, hp, hafter⟩ := List.map_eq_cons_iff.mp hrest
  obtain rfl : p' = p := hp
  exact ⟨before, es, after, hfill, hls, hbefore, hafter⟩

/-- A descent by a test that holds up to some place in the order ends at the leaf at that place. -/
theorem exists_located (hstands : Stands nodes t ls) {test : Key → Bool}
    (htest : ∀ k l, k ≤ l → test l = true → test k = true) :
    ∃ trail before p es after, Located t ls trail before p es after
      ∧ (∀ s ∈ trail.sepsBefore, test s = true) ∧ (∀ s ∈ trail.sepsAfter, test s = false)
      ∧ ∀ choose : Internal → Nat, (∀ n, choose n = partitionPoint test n.keys) → nodes.length < UInt32.size →
        ∀ type, Looks type (descendFromRoot type choose) nodes (trail.pages, p) := by
  obtain ⟨trail, p, hat, hlooks⟩ := exists_atBoundary t (hstands.sorted_seps.imp fun {k l} => htest k l)
  obtain ⟨before, es, after, hloc⟩ := hstands.exists_located_of_fill hat.fill_eq
  refine ⟨trail, before, p, es, after, hloc, hat.before, hat.after, ?_⟩
  intro choose hchoose hsize type
  have hcount : (UInt32.ofNat nodes.length).toNat = nodes.length := UInt32.toNat_ofNat_of_lt' hsize
  have hheight := hstands.height_lt
  unfold descendFromRoot
  apply looks_pageCount.bind
  rw [hcount, ← hstands.root_eq]
  exact hlooks choose hchoose type nodes _ hstands.stored (by omega)

end Stands

namespace Located

section
variable (hloc : Located t ls trail before p es after)
include hloc

theorem length_before : before.length = trail.sepsBefore.length := by
  rw [← trail.length_leavesBefore, ← hloc.before_eq, List.length_map]

theorem length_after : after.length = trail.sepsAfter.length := by
  rw [← trail.length_leavesAfter, ← hloc.after_eq, List.length_map]

theorem line_eq : line t.seps ls = Weave.before (before.map keysOf) trail.sepsBefore ++ es.map Entry.key
    ++ Weave.after trail.sepsAfter (after.map keysOf) := by
  rw [line, ← hloc.fill_eq, hloc.leaves_eq, trail.seps_fill, List.map_append, List.map_cons,
    Weave.weave_around (by rw [List.length_map, hloc.length_before])]
  rfl

theorem line_entries (es' : List Entry) : line t.seps (before ++ (p, es') :: after)
    = Weave.before (before.map keysOf) trail.sepsBefore ++ es'.map Entry.key
      ++ Weave.after trail.sepsAfter (after.map keysOf) := by
  rw [line, ← hloc.fill_eq, trail.seps_fill, List.map_append, List.map_cons,
    Weave.weave_around (by rw [List.length_map, hloc.length_before])]
  rfl

theorem line_parted (left right : List Entry) (q : PageNum) (s : Key) :
    line (trail.sepsBefore ++ s :: trail.sepsAfter) (before ++ (p, left) :: (q, right) :: after)
      = Weave.before (before.map keysOf) trail.sepsBefore ++ left.map Entry.key
        ++ s :: (right.map Entry.key ++ Weave.after trail.sepsAfter (after.map keysOf)) := by
  have hsplit : (before ++ (p, left) :: (q, right) :: after).map keysOf
      = (before.map keysOf ++ [left.map Entry.key]) ++ right.map Entry.key :: after.map keysOf := by
    simp [keysOf]
  have hone := @Weave.weave_around _ trail.sepsBefore [] (before.map keysOf) [] (left.map Entry.key)
    (by rw [List.length_map, hloc.length_before])
  simp only [List.append_nil, Weave.after] at hone
  rw [line, hsplit, Weave.weave_split (by simp [hloc.length_before]) (by simp), hone]
  rfl

variable (hstands : Stands nodes t ls)
include hstands

theorem exists_le_sep : ∀ x ∈ Weave.before (before.map keysOf) trail.sepsBefore,
    ∃ s ∈ trail.sepsBefore, x ≤ s := by
  have hsorted := hstands.sorted
  rw [hloc.line_eq] at hsorted
  exact fun x hx => Weave.exists_rel_key le_refl
    (List.pairwise_append.mp (List.pairwise_append.mp hsorted).1).1 hx

theorem exists_sep_le : ∀ x ∈ Weave.after trail.sepsAfter (after.map keysOf),
    ∃ s ∈ trail.sepsAfter, s ≤ x := by
  have hsorted := hstands.sorted
  rw [hloc.line_eq] at hsorted
  exact fun x hx => Weave.exists_key_rel le_refl (List.pairwise_append.mp hsorted).2.1 hx

theorem key_before {e : Entry} (he : e ∈ entriesOf before) : ∃ s ∈ trail.sepsBefore, e.key ≤ s := by
  have hsub := Weave.flatten_sublist_before (show (before.map keysOf).length = trail.sepsBefore.length by
    rw [List.length_map, hloc.length_before])
  refine hloc.exists_le_sep hstands e.key (hsub.subset ?_)
  rw [flatten_keysOf]
  exact List.mem_map_of_mem he

theorem key_after {e : Entry} (he : e ∈ entriesOf after) : ∃ s ∈ trail.sepsAfter, s ≤ e.key := by
  have hsub := Weave.flatten_sublist_after (show (after.map keysOf).length = trail.sepsAfter.length by
    rw [List.length_map, hloc.length_after])
  refine hloc.exists_sep_le hstands e.key (hsub.subset ?_)
  rw [flatten_keysOf]
  exact List.mem_map_of_mem he

theorem sorted_leaf : Sorted es := by
  have hsorted := hstands.sorted
  rw [hloc.line_eq] at hsorted
  have := (List.pairwise_append.mp (List.pairwise_append.mp hsorted).1).2.1
  rwa [List.pairwise_map] at this

theorem node_eq : nodes[p.toNat]? = some (.leaf ⟨es, lastPage before, firstPage after⟩) := by
  have hchain := hstands.chain
  rw [hloc.leaves_eq] at hchain
  exact (chain_around.mp hchain).2.1

end

end Located

theorem Stands.looks_firstLeaf (hstands : Stands nodes t ls) (hsize : nodes.length < UInt32.size)
    (type : AttributeType) : ∃ p, firstPage ls = some p ∧ Looks type (firstLeaf type) nodes p := by
  obtain ⟨trail, before, p, es, after, hloc, hpass, -, hlooks⟩ :=
    hstands.exists_located (show ∀ k l : Key, k ≤ l → (fun _ => false) l = true → (fun _ => false) k = true from
      fun _ _ _ hno => hno)
  have hseps : trail.sepsBefore = [] := by
    cases hs : trail.sepsBefore with
    | nil => rfl
    | cons s seps => exact absurd (hpass s (hs ▸ List.mem_cons_self)) Bool.false_ne_true
  have hbefore : before = [] := by
    rw [← List.length_eq_zero_iff, hloc.length_before, hseps]
    rfl
  have hchoose : ∀ n : Internal, 0 = partitionPoint (fun _ => false) n.keys :=
    fun n => (@partitionPoint_append _ _ [] n.keys (by simp) (by simp)).symm
  refine ⟨p, ?_, (hlooks _ hchoose hsize type).bind (Looks.pure p)⟩
  rw [hloc.leaves_eq, hbefore]
  rfl

/-- A descent to the lower bound of a key ends at the leaf behind the separators below the key. -/
theorem Stands.exists_lowerLeaf (hstands : Stands nodes t ls) (hsize : nodes.length < UInt32.size)
    (type : AttributeType) (k : Key) : ∃ trail before p es after, Located t ls trail before p es after
      ∧ (∀ s ∈ trail.sepsBefore, s < k) ∧ (∀ s ∈ trail.sepsAfter, k ≤ s) ∧ Looks type (lowerLeaf type k) nodes p := by
  obtain ⟨trail, before, p, es, after, hloc, hpass, hfail, hlooks⟩ :=
    hstands.exists_located (show ∀ s s' : Key, s ≤ s' → s'.precedes k = true → s.precedes k = true from
      fun _ _ hle hlt => lt_of_le_of_lt hle hlt)
  refine ⟨trail, before, p, es, after, hloc, hpass, ?_, (hlooks _ (fun _ => rfl) hsize type).bind (Looks.pure p)⟩
  exact fun s hs => Key.precedes_eq_false_iff.mp (hfail s hs)

/-- No entry before that leaf has the key. -/
theorem Located.lt_of_before (hloc : Located t ls trail before p es after) (hstands : Stands nodes t ls)
    (hpass : ∀ s ∈ trail.sepsBefore, s < k) : ∀ e ∈ entriesOf before, e.key < k := by
  intro e he
  obtain ⟨s, hs, hle⟩ := hloc.key_before hstands he
  exact lt_of_le_of_lt hle (hpass s hs)

theorem Stands.set_entries (hstands : Stands nodes t (before ++ (p, es) :: after))
    (hsize : nodes.length ≤ UInt32.size) {es' : List Entry}
    (hsorted : (line t.seps (before ++ (p, es') :: after)).Pairwise (· ≤ ·)) :
    Stands (nodes.set p.toNat (.leaf ⟨es', lastPage before, firstPage after⟩)) t
      (before ++ (p, es') :: after) := by
  obtain ⟨-, hleaf, -⟩ := chain_around.mp hstands.chain
  refine ⟨hstands.root_eq, ?_, ?_, ?_, hstands.chain.set_entries (hstands.nodup_leaves hsize) es', hsorted⟩
  · exact ((KeepsTree.refl nodes).set hleaf _).stored hstands.stored
  · rw [List.length_set]
    exact hstands.pages_perm
  · rw [hstands.leaves_eq]
    simp

end Index

end Tablespace
