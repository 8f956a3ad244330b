import Tablespace.Proofs.Index.Stands

/-!
# Paths

A path is the numbers of the children that are taken on the way from one page
down to another. The paths from the root of a tree lead to the roots of its
subtrees, to each along one path only, and the paths to the leaves go from
left to right.
-/

namespace Tablespace

/-- The page to which a path leads from another. -/
def follow (look : PageNum → Option Node) : PageNum → List Nat → Option PageNum
  | p, [] => some p
  | p, i :: path =>
    match look p with
    | some (.internal n) => n.children[i]?.bind fun child => follow look child path
    | _ => none

theorem follow_internal {look : PageNum → Option Node} {p : PageNum} {n : Internal} {i : Nat} {path : List Nat}
    (h : look p = some (.internal n)) :
    follow look p (i :: path) = n.children[i]?.bind fun child => follow look child path := by
  simp only [follow, h]

theorem follow_leaf {look : PageNum → Option Node} {p : PageNum} {l : Leaf} {i : Nat} {path : List Nat}
    (h : look p = some (.leaf l)) : follow look p (i :: path) = none := by
  simp only [follow, h]

def held (nodes : List Node) (p : PageNum) : Option Node := nodes[p.toNat]?

abbrev Subtree := (h : Nat) × Tree h

namespace Tree

/-- The subtree to which a path leads. -/
def at? : {h : Nat} → Tree h → List Nat → Option Subtree
  | h, t, [] => some ⟨h, t⟩
  | 0, _, _ :: _ => none
  | _ + 1, t, i :: path => (Inner.toForest t).children[i]?.bind fun c => at? c path

/-- The leaves from left to right, each with the path that leads to it. -/
def leafPaths : {h : Nat} → Tree h → List (List Nat × PageNum)
  | 0, p => [([], p)]
  | _ + 1, t => (Inner.toForest t).children.zipIdx.flatMap fun (c, i) =>
    (leafPaths c).map fun x => (i :: x.1, x.2)

/-- The keys of the leaves with the separators between them. -/
def line (keysAt : PageNum → List Key) : {h : Nat} → Tree h → List Key
  | 0, p => keysAt p
  | _ + 1, t => weave (Inner.toForest t).keys ((Inner.toForest t).children.map (line keysAt))

variable {h : Nat} {t : Tree h} {u : Subtree} {path : List Nat}

theorem at?_nil (t : Tree h) : t.at? [] = some ⟨h, t⟩ := by cases h <;> rfl

theorem eq_of_at?_nil (hu : t.at? [] = some u) : ⟨h, t⟩ = u := by
  rw [at?_nil] at hu
  exact Option.some.inj hu

theorem at?_under {g : Forest (Tree h)} {page : PageNum} {i : Nat} (hu : (g.under page).at? (i :: path) = some u) :
    ∃ c, g.children[i]? = some c ∧ c.at? path = some u := Option.bind_eq_some_iff.mp hu

/-- What passes from each tree to its children passes to its subtrees. -/
theorem at?_induct {motive : Subtree → Prop}
    (down : ∀ {h : Nat} (g : Forest (Tree h)) page, motive ⟨h + 1, g.under page⟩ →
      ∀ c ∈ g.children, motive ⟨h, c⟩)
    (ht : motive ⟨h, t⟩) (hu : t.at? path = some u) : motive u := by
  induction path generalizing h t with
  | nil =>
    obtain rfl := eq_of_at?_nil hu
    exact ht
  | cons i path ih =>
    cases h with
    | zero => cases hu
    | succ h =>
      obtain ⟨g, page, rfl⟩ := t.exists_under
      obtain ⟨c, hc, hu⟩ := at?_under hu
      exact ih (down g page ht c (List.mem_of_getElem? hc)) hu

theorem pages_at? (hu : t.at? path = some u) : ∀ p ∈ u.2.pages, p ∈ t.pages := by
  refine @at?_induct h t u path (fun u => ∀ p ∈ u.2.pages, p ∈ t.pages) ?_ (fun _ hp => hp) hu
  intro h g page hg c hc p hp
  exact hg p (List.mem_cons_of_mem _ (List.mem_flatMap.mpr ⟨c, hc, hp⟩))

theorem root_at? (hu : t.at? path = some u) : u.2.root ∈ t.pages := pages_at? hu _ u.2.root_mem_pages

/-- The way to a subtree is as long as the subtree is lower than the tree. -/
theorem height_at? (hu : t.at? path = some u) : u.1 + path.length = h := by
  induction path generalizing h t with
  | nil =>
    obtain rfl := eq_of_at?_nil hu
    rfl
  | cons i path ih =>
    cases h with
    | zero => cases hu
    | succ h =>
      obtain ⟨g, page, rfl⟩ := t.exists_under
      obtain ⟨c, -, hu⟩ := at?_under hu
      rw [List.length_cons, ← Nat.add_assoc, ih hu]

theorem exists_at? {p : PageNum} (hp : p ∈ t.pages) : ∃ path u, t.at? path = some u ∧ u.2.root = p := by
  induction h with
  | zero =>
    obtain rfl := List.mem_singleton.mp hp
    exact ⟨[], _, rfl, rfl⟩
  | succ h ih =>
    obtain ⟨g, page, rfl⟩ := t.exists_under
    rcases List.mem_cons.mp hp with rfl | hp
    · exact ⟨[], _, rfl, rfl⟩
    · obtain ⟨c, hc, hp⟩ := List.mem_flatMap.mp hp
      obtain ⟨path, u, hu, hroot⟩ := ih hp
      obtain ⟨i, hi⟩ := List.mem_iff_getElem?.mp hc
      exact ⟨i :: path, u, Option.bind_eq_some_iff.mpr ⟨c, hi, hu⟩, hroot⟩

theorem child_unique {g : Forest (Tree h)} (hg : g.pages.Nodup) {i j : Nat} {c d : Tree h}
    (hc : g.children[i]? = some c) (hd : g.children[j]? = some d) {p : PageNum} (hpc : p ∈ c.pages)
    (hpd : p ∈ d.pages) : i = j := by
  obtain ⟨-, hapart⟩ := List.pairwise_flatMap.mp hg
  obtain ⟨hi, rfl⟩ := List.getElem?_eq_some_iff.mp hc
  obtain ⟨hj, rfl⟩ := List.getElem?_eq_some_iff.mp hd
  have hapart := List.pairwise_iff_getElem.mp hapart
  rcases Nat.lt_trichotomy i j with hlt | heq | hgt
  · exact absurd rfl (hapart i j hi hj hlt p hpc p hpd)
  · exact heq
  · exact absurd rfl (hapart j i hj hi hgt p hpd p hpc)

/-- Below its root a tree does not come back to it. -/
theorem root_ne_at? (ht : t.pages.Nodup) {i : Nat} (hu : t.at? (i :: path) = some u) : u.2.root ≠ t.root := by
  cases h with
  | zero => cases hu
  | succ h =>
    obtain ⟨g, page, rfl⟩ := t.exists_under
    obtain ⟨c, hc, hu⟩ := at?_under hu
    intro hroot
    have hmem : page ∈ c.pages := by
      rw [← show u.2.root = page from hroot]
      exact root_at? hu
    exact (List.nodup_cons.mp ht).1 (List.mem_flatMap.mpr ⟨c, List.mem_of_getElem? hc, hmem⟩)

theorem path_unique (ht : t.pages.Nodup) {path' : List Nat} {u' : Subtree} (hu : t.at? path = some u)
    (hu' : t.at? path' = some u') (hroot : u.2.root = u'.2.root) : path = path' := by
  induction path generalizing h t path' with
  | nil =>
    obtain rfl := eq_of_at?_nil hu
    cases path' with
    | nil => rfl
    | cons j path' => exact absurd hroot.symm (root_ne_at? ht hu')
  | cons i path ih =>
    cases path' with
    | nil =>
      obtain rfl := eq_of_at?_nil hu'
      exact absurd hroot (root_ne_at? ht hu)
    | cons j path' =>
      cases h with
      | zero => cases hu
      | succ h =>
        obtain ⟨g, page, rfl⟩ := t.exists_under
        have hg := (List.nodup_cons.mp ht).2
        obtain ⟨c, hc, hu⟩ := at?_under hu
        obtain ⟨d, hd, hu'⟩ := at?_under hu'
        obtain rfl := child_unique hg hc hd (root_at? hu) (hroot ▸ root_at? hu')
        rw [hc, Option.some.injEq] at hd
        subst hd
        rw [ih ((List.pairwise_flatMap.mp hg).1 c (List.mem_of_getElem? hc)) hu hu']

/-! ## Leaves -/

theorem leaves_leafPaths (t : Tree h) : t.leafPaths.map Prod.snd = t.leaves := by
  induction h with
  | zero => rfl
  | succ h ih =>
    obtain ⟨g, page, rfl⟩ := t.exists_under
    have hone : ∀ (children : List (Tree h)) start,
        ((children.zipIdx start).flatMap fun (c, i) =>
          (leafPaths c).map fun x => (i :: x.1, x.2)).map Prod.snd = children.flatMap leaves := by
      intro children
      induction children with
      | nil => exact fun _ => rfl
      | cons c children ih' =>
        intro start
        rw [List.zipIdx_cons, List.flatMap_cons, List.flatMap_cons, List.map_append, ih', ← ih c, List.map_map]
        rfl
    exact hone g.children 0

theorem mem_leafPaths_under {g : Forest (Tree h)} {page p : PageNum} : (path, p) ∈ (g.under page).leafPaths
    ↔ ∃ i rest c, path = i :: rest ∧ g.children[i]? = some c ∧ (rest, p) ∈ c.leafPaths := by
  constructor
  · intro hx
    obtain ⟨⟨c, i⟩, hc, hx⟩ := List.mem_flatMap.mp hx
    obtain ⟨⟨rest, q⟩, hrest, heq⟩ := List.mem_map.mp hx
    cases heq
    exact ⟨i, rest, c, rfl, List.mem_zipIdx_iff_getElem?.mp hc, hrest⟩
  · intro hx
    obtain ⟨i, rest, c, rfl, hc, hrest⟩ := hx
    exact List.mem_flatMap.mpr ⟨(c, i), List.mem_zipIdx_iff_getElem?.mpr hc, List.mem_map.mpr ⟨_, hrest, rfl⟩⟩

theorem mem_leafPaths {p : PageNum} : (path, p) ∈ t.leafPaths ↔ t.at? path = some ⟨0, p⟩ := by
  induction h generalizing path with
  | zero =>
    rw [leafPaths, List.mem_singleton]
    cases path with
    | nil =>
      rw [at?_nil]
      constructor <;> intro h <;> cases h <;> rfl
    | cons i path => constructor <;> intro h <;> cases h
  | succ h ih =>
    obtain ⟨g, page, rfl⟩ := t.exists_under
    rw [mem_leafPaths_under]
    constructor
    · intro hx
      obtain ⟨i, rest, c, rfl, hc, hrest⟩ := hx
      exact Option.bind_eq_some_iff.mpr ⟨c, hc, ih.mp hrest⟩
    · intro hu
      cases path with
      | nil => cases eq_of_at?_nil hu
      | cons i path =>
        obtain ⟨c, hc, hu⟩ := at?_under hu
        exact ⟨i, path, c, rfl, hc, ih.mpr hu⟩

theorem leafPaths_ordered (t : Tree h) : t.leafPaths.Pairwise (·.1 < ·.1) := by
  induction h with
  | zero => exact List.pairwise_singleton _ _
  | succ h ih =>
    obtain ⟨g, page, rfl⟩ := t.exists_under
    refine List.pairwise_flatMap.mpr ⟨?_, ?_⟩
    · intro x hx
      refine List.pairwise_map.mpr ((ih x.1).imp ?_)
      intro a b hab
      exact List.cons_lt_cons_self.mpr hab
    · have hnumbers : (g.children.zipIdx.map Prod.snd).Pairwise (· < ·) := by
        rw [List.zipIdx_map_snd]
        exact List.pairwise_lt_range'
      apply (List.pairwise_map.mp hnumbers).imp
      intro x y hxy a ha b hb
      obtain ⟨a, -, rfl⟩ := List.mem_map.mp ha
      obtain ⟨b, -, rfl⟩ := List.mem_map.mp hb
      exact List.Lex.rel hxy

/-! ## Keys -/

theorem line_at? {keysAt : PageNum → List Key} (hu : t.at? path = some u) :
    (u.2.line keysAt).Sublist (t.line keysAt) := by
  refine @at?_induct h t u path (fun u => (u.2.line keysAt).Sublist (t.line keysAt)) ?_ (List.Sublist.refl _) hu
  intro h g page hg c hc
  have hflat := Weave.flatten_sublist_weave (show (g.children.map (line keysAt)).length = g.keys.length + 1 by
    rw [List.length_map, g.length_eq])
  exact ((List.sublist_flatten_of_mem (List.mem_map_of_mem hc)).trans hflat).trans hg

theorem line_eq {keysAt : PageNum → List Key} (t : Tree h) :
    t.line keysAt = weave t.seps (t.leaves.map keysAt) := by
  induction h with
  | zero => exact (List.append_nil _).symm
  | succ h ih =>
    obtain ⟨g, page, rfl⟩ := t.exists_under
    have hweave := @Weave.weave_weave _ g.keys _ seps g.children (fun c => c.leaves.map keysAt) g.length_eq
      (fun c => by rw [List.length_map, c.length_leaves])
    rw [Forest.seps_under, Forest.leaves_under, Forest.seps, Forest.leaves, List.map_flatMap, hweave]
    exact congrArg (weave g.keys) (List.map_congr_left fun c _ => ih c)

/-! ## Stored trees -/

variable {nodes : List Node}

theorem follow_root (ht : t.Stored nodes) :
    follow (held nodes) t.root path = (t.at? path).map fun u => u.2.root := by
  induction path generalizing h t with
  | nil =>
    rw [at?_nil]
    rfl
  | cons i path ih =>
    cases h with
    | zero =>
      obtain ⟨l, hl⟩ := ht
      exact follow_leaf hl
    | succ h =>
      obtain ⟨g, page, rfl⟩ := t.exists_under
      obtain ⟨hpage, hg⟩ := ht
      rw [follow_internal (show held nodes (g.under page).root = some (.internal g.toInternal) from hpage),
        Forest.toInternal, List.getElem?_map]
      cases hc : g.children[i]? with
      | none => simp [Forest.under, at?, hc]
      | some c =>
        have := ih (hg c (List.mem_of_getElem? hc))
        simp [Forest.under, at?, hc, this]

theorem stored_at? (ht : t.Stored nodes) (hu : t.at? path = some u) : u.2.Stored nodes := by
  refine @at?_induct h t u path (fun u => u.2.Stored nodes) ?_ ht hu
  intro h g page hg c hc
  exact ((Forest.stored_under g page).mp hg).2 c hc

end Tree

/-! ## Trails -/

namespace Trail

variable {h : Nat}

def path : {h : Nat} → Trail h → List Nat
  | _, .leaf => []
  | _, .down frame rest => frame.childrenBefore.length :: rest.path

theorem at?_fill (trail : Trail h) (p : PageNum) : (trail.fill p).at? trail.path = some ⟨0, p⟩ := by
  induction trail with
  | leaf => rfl
  | down frame rest ih => simp [fill, path, Forest.under, Frame.graft, Forest.single, Tree.at?, ih]

theorem exists_fill {t : Tree h} {steps : List Nat} {p : PageNum} (ht : t.at? steps = some ⟨0, p⟩) :
    ∃ trail : Trail h, trail.fill p = t ∧ trail.path = steps := by
  induction steps generalizing h t with
  | nil =>
    cases Tree.eq_of_at?_nil ht
    exact ⟨.leaf, rfl, rfl⟩
  | cons i steps ih =>
    cases h with
    | zero => cases ht
    | succ h =>
      obtain ⟨⟨keys, children, hlen⟩, page, rfl⟩ := t.exists_under
      obtain ⟨c, hc, ht⟩ := Tree.at?_under ht
      obtain ⟨rest, rfl, rfl⟩ := ih ht
      obtain ⟨hi, hci⟩ := List.getElem?_eq_some_iff.mp hc
      simp only at hi hci
      have hbefore : (children.take i).length = (keys.take i).length := by
        simp only [List.length_take]
        omega
      have hafter : (children.drop (i + 1)).length = (keys.drop i).length := by
        simp only [List.length_drop] at hlen ⊢
        omega
      refine ⟨.down ⟨page, children.take i, keys.take i, keys.drop i, children.drop (i + 1), hbefore, hafter⟩ rest,
        ?_, ?_⟩
      · simp only [fill, Frame.graft, Forest.single, List.append_nil, List.take_append_drop, List.append_assoc,
          List.singleton_append, ← hci, ← List.drop_eq_getElem_cons hi]
      · rw [path, List.length_take, Nat.min_eq_left (Nat.le_of_lt hi)]

end Trail

end Tablespace
