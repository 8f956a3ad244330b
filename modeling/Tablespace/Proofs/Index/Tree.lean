import Mathlib.Data.List.Flatten
import Tablespace.Index
import Tablespace.Proofs.Index.Weave

/-!
# Trees of pages

The pages of an index make a tree whose leaves all lie at one depth, and the
depth is part of its type. A trail leads from the root of a tree to a leaf and
keeps what it passes on either side, so that the leaf can be exchanged.
-/

namespace Tablespace

/-- Trees with keys between them. -/
structure Forest (α : Type) where
  keys : List Key
  children : List α
  length_eq : children.length = keys.length + 1

def Forest.single {α : Type} (t : α) : Forest α := ⟨[], [t], rfl⟩

def Forest.pair {α : Type} (left : α) (separator : Key) (right : α) : Forest α :=
  ⟨[separator], [left, right], rfl⟩

/-- An internal node: its page, and its children with the separators between them. -/
structure Inner (α : Type) extends Forest α where
  page : PageNum

/-- Trees whose leaves lie at a depth. -/
def Tree : Nat → Type
  | 0 => PageNum
  | h + 1 => Inner (Tree h)

namespace Tree

def root : {h : Nat} → Tree h → PageNum
  | 0, p => p
  | _ + 1, t => Inner.page t

def pages : {h : Nat} → Tree h → List PageNum
  | 0, p => [p]
  | _ + 1, t => Inner.page t :: (Inner.toForest t).children.flatMap pages

def leaves : {h : Nat} → Tree h → List PageNum
  | 0, p => [p]
  | _ + 1, t => (Inner.toForest t).children.flatMap leaves

/-- The separators of all internal nodes from left to right: one between each two leaves. -/
def seps : {h : Nat} → Tree h → List Key
  | 0, _ => []
  | _ + 1, t => weave (Inner.toForest t).keys ((Inner.toForest t).children.map seps)

/-- The nodes hold the tree. -/
def Stored (nodes : List Node) : {h : Nat} → Tree h → Prop
  | 0, p => ∃ l, nodes[p.toNat]? = some (.leaf l)
  | _ + 1, t =>
    nodes[(Inner.page t).toNat]?
        = some (.internal ⟨(Inner.toForest t).keys, (Inner.toForest t).children.map root⟩)
      ∧ ∀ c ∈ (Inner.toForest t).children, Stored nodes c

end Tree

namespace Forest

variable {h : Nat}

def pages (g : Forest (Tree h)) : List PageNum := g.children.flatMap Tree.pages

def leaves (g : Forest (Tree h)) : List PageNum := g.children.flatMap Tree.leaves

def seps (g : Forest (Tree h)) : List Key := weave g.keys (g.children.map Tree.seps)

def Stored (nodes : List Node) (g : Forest (Tree h)) : Prop := ∀ c ∈ g.children, c.Stored nodes

def toInternal (g : Forest (Tree h)) : Internal := ⟨g.keys, g.children.map Tree.root⟩

def under (g : Forest (Tree h)) (page : PageNum) : Tree (h + 1) := Inner.mk g page

theorem pages_single (t : Tree h) : (single t).pages = t.pages := by simp [single, pages]

theorem leaves_single (t : Tree h) : (single t).leaves = t.leaves := by simp [single, leaves]

theorem seps_single (t : Tree h) : (single t).seps = t.seps := by simp [single, seps, weave, Weave.after]

variable (g : Forest (Tree h)) (page : PageNum)

@[simp] theorem root_under : (g.under page).root = page := rfl

@[simp] theorem pages_under : (g.under page).pages = page :: g.pages := rfl

@[simp] theorem leaves_under : (g.under page).leaves = g.leaves := rfl

@[simp] theorem seps_under : (g.under page).seps = g.seps := rfl

theorem stored_under {nodes : List Node} : (g.under page).Stored nodes
    ↔ nodes[page.toNat]? = some (.internal g.toInternal) ∧ g.Stored nodes := Iff.rfl

end Forest

namespace Tree

variable {h : Nat} {nodes nodes' : List Node}

theorem exists_under (t : Tree (h + 1)) : ∃ (g : Forest (Tree h)) (page : PageNum), t = g.under page :=
  ⟨Inner.toForest t, Inner.page t, rfl⟩

theorem root_mem_pages (t : Tree h) : t.root ∈ t.pages := by
  cases h with
  | zero => exact List.mem_singleton.mpr rfl
  | succ h => exact List.mem_cons_self

theorem leaves_sublist (t : Tree h) : t.leaves.Sublist t.pages := by
  induction h with
  | zero => exact List.Sublist.refl _
  | succ h ih =>
    obtain ⟨g, page, rfl⟩ := exists_under t
    exact (List.Sublist.flatMap_right g.children fun c _ => ih c).cons page

/-- A path through a tree is no longer than the tree has pages. -/
theorem height_lt (t : Tree h) : h < t.pages.length := by
  induction h with
  | zero => exact Nat.one_pos
  | succ h ih =>
    obtain ⟨⟨keys, children, hlen⟩, page, rfl⟩ := exists_under t
    cases children with
    | nil => simp at hlen
    | cons c children =>
      have := ih c
      simp only [Forest.pages_under, Forest.pages, List.flatMap_cons, List.length_cons, List.length_append]
      omega

theorem Stored.congr {t : Tree h} (ht : t.Stored nodes)
    (hsame : ∀ p ∈ t.pages, nodes'[p.toNat]? = nodes[p.toNat]?) : t.Stored nodes' := by
  induction h with
  | zero =>
    obtain ⟨l, hl⟩ := ht
    exact ⟨l, (hsame _ (List.mem_singleton.mpr rfl)).trans hl⟩
  | succ h ih =>
    obtain ⟨g, page, rfl⟩ := exists_under t
    obtain ⟨hpage, hg⟩ := ht
    refine ⟨(hsame page List.mem_cons_self).trans hpage, ?_⟩
    intro c hc
    apply ih (hg c hc)
    intro p hp
    exact hsame p (List.mem_cons_of_mem _ (List.mem_flatMap.mpr ⟨c, hc, hp⟩))

theorem Stored.lt_length {t : Tree h} (ht : t.Stored nodes) : ∀ p ∈ t.pages, p.toNat < nodes.length := by
  induction h with
  | zero =>
    intro p hp
    obtain ⟨l, hl⟩ := ht
    obtain rfl := List.mem_singleton.mp hp
    exact (List.getElem?_eq_some_iff.mp hl).1
  | succ h ih =>
    intro p hp
    obtain ⟨g, page, rfl⟩ := exists_under t
    obtain ⟨hpage, hg⟩ := ht
    rcases List.mem_cons.mp hp with rfl | hp
    · exact (List.getElem?_eq_some_iff.mp hpage).1
    · obtain ⟨c, hc, hp⟩ := List.mem_flatMap.mp hp
      exact ih (hg c hc) p hp

end Tree

theorem Tree.length_leaves {h : Nat} (t : Tree h) : t.leaves.length = t.seps.length + 1 := by
  induction h with
  | zero => rfl
  | succ h ih =>
    obtain ⟨⟨keys, children, hlen⟩, page, rfl⟩ := t.exists_under
    cases children with
    | nil => simp at hlen
    | cons c children =>
      have hrest := Weave.length_after ih (show children.length = keys.length by simpa using hlen)
      have := ih c
      simp only [Forest.leaves_under, Forest.seps_under, Forest.leaves, Forest.seps, List.map_cons, weave,
        List.flatMap_cons, List.length_append]
      omega

theorem Forest.Stored.congr {h : Nat} {nodes nodes' : List Node} {g : Forest (Tree h)} (hg : g.Stored nodes)
    (hsame : ∀ p ∈ g.pages, nodes'[p.toNat]? = nodes[p.toNat]?) : g.Stored nodes' := by
  intro c hc
  apply (hg c hc).congr
  intro p hp
  exact hsame p (List.mem_flatMap.mpr ⟨c, hc, hp⟩)

/-! ## Trails -/

/-- An internal node without one of its children. -/
structure Frame (α : Type) where
  page : PageNum
  childrenBefore : List α
  keysBefore : List Key
  keysAfter : List Key
  childrenAfter : List α
  before_eq : childrenBefore.length = keysBefore.length
  after_eq : childrenAfter.length = keysAfter.length

def Frame.graft {α : Type} (frame : Frame α) (g : Forest α) : Forest α where
  keys := frame.keysBefore ++ g.keys ++ frame.keysAfter
  children := frame.childrenBefore ++ g.children ++ frame.childrenAfter
  length_eq := by
    simp only [List.length_append, frame.before_eq, frame.after_eq, g.length_eq]
    omega

namespace Frame

variable {h : Nat} (frame : Frame (Tree h)) (g : Forest (Tree h))

theorem pages_graft : (frame.graft g).pages
    = frame.childrenBefore.flatMap Tree.pages ++ g.pages ++ frame.childrenAfter.flatMap Tree.pages := by
  simp [graft, Forest.pages]

theorem leaves_graft : (frame.graft g).leaves
    = frame.childrenBefore.flatMap Tree.leaves ++ g.leaves ++ frame.childrenAfter.flatMap Tree.leaves := by
  simp [graft, Forest.leaves]

theorem seps_graft : (frame.graft g).seps
    = Weave.before (frame.childrenBefore.map Tree.seps) frame.keysBefore ++ g.seps
      ++ Weave.after frame.keysAfter (frame.childrenAfter.map Tree.seps) := by
  simp only [graft, Forest.seps, List.map_append]
  exact Weave.weave_graft (by simp [frame.before_eq]) (by simp [g.length_eq])

theorem toInternal_graft : (frame.graft g).toInternal
    = ⟨frame.keysBefore ++ g.keys ++ frame.keysAfter,
        frame.childrenBefore.map Tree.root ++ g.children.map Tree.root
          ++ frame.childrenAfter.map Tree.root⟩ := by
  simp [graft, Forest.toInternal]

theorem stored_graft {nodes : List Node} : (frame.graft g).Stored nodes
    ↔ (∀ c ∈ frame.childrenBefore, c.Stored nodes) ∧ g.Stored nodes
      ∧ ∀ c ∈ frame.childrenAfter, c.Stored nodes := by
  simp only [graft, Forest.Stored, List.mem_append]
  constructor
  · intro hc
    exact ⟨fun c h => hc c (.inl (.inl h)), fun c h => hc c (.inl (.inr h)), fun c h => hc c (.inr h)⟩
  · intro hc c h
    rcases h with (h | h) | h
    · exact hc.1 c h
    · exact hc.2.1 c h
    · exact hc.2.2 c h

end Frame

/-- A path from the root of a tree to a leaf, from the top. -/
inductive Trail : Nat → Type
  | leaf : Trail 0
  | down {h : Nat} (frame : Frame (Tree h)) (rest : Trail h) : Trail (h + 1)

namespace Trail

def fill : {h : Nat} → Trail h → PageNum → Tree h
  | _, .leaf, p => p
  | _, .down frame rest, p => (frame.graft (.single (rest.fill p))).under frame.page

/-- The pages of the internal nodes on the way. -/
def pages : {h : Nat} → Trail h → List PageNum
  | _, .leaf => []
  | _, .down frame rest => frame.page :: rest.pages

def leavesBefore : {h : Nat} → Trail h → List PageNum
  | _, .leaf => []
  | _, .down frame rest => frame.childrenBefore.flatMap Tree.leaves ++ rest.leavesBefore

def leavesAfter : {h : Nat} → Trail h → List PageNum
  | _, .leaf => []
  | _, .down frame rest => rest.leavesAfter ++ frame.childrenAfter.flatMap Tree.leaves

def sepsBefore : {h : Nat} → Trail h → List Key
  | _, .leaf => []
  | _, .down frame rest =>
    Weave.before (frame.childrenBefore.map Tree.seps) frame.keysBefore ++ rest.sepsBefore

def sepsAfter : {h : Nat} → Trail h → List Key
  | _, .leaf => []
  | _, .down frame rest =>
    rest.sepsAfter ++ Weave.after frame.keysAfter (frame.childrenAfter.map Tree.seps)

variable {h : Nat}

theorem leaves_fill (t : Trail h) (p : PageNum) :
    (t.fill p).leaves = t.leavesBefore ++ p :: t.leavesAfter := by
  induction t with
  | leaf => rfl
  | down frame rest ih =>
    rw [fill, Forest.leaves_under, Frame.leaves_graft, Forest.leaves_single, ih]
    simp [leavesBefore, leavesAfter]

theorem pages_subset (t : Trail h) (p : PageNum) : ∀ r ∈ t.pages, r ∈ (t.fill p).pages := by
  induction t with
  | leaf => simp [pages]
  | down frame rest ih =>
    intro r hr
    rw [fill, Forest.pages_under, Frame.pages_graft, Forest.pages_single]
    rcases List.mem_cons.mp hr with rfl | hr
    · exact List.mem_cons_self
    · simp [ih r hr]

theorem internal {nodes : List Node} {t : Trail h} {p : PageNum} (ht : (t.fill p).Stored nodes) :
    ∀ r ∈ t.pages, ∃ n, nodes[r.toNat]? = some (.internal n) := by
  induction t with
  | leaf => simp [pages]
  | down frame rest ih =>
    intro r hr
    obtain ⟨hpage, hg⟩ := (Forest.stored_under _ _).mp ht
    rcases List.mem_cons.mp hr with rfl | hr
    · exact ⟨_, hpage⟩
    · exact ih (((frame.stored_graft _).mp hg).2.1 _ (List.mem_singleton.mpr rfl)) r hr

theorem seps_fill (t : Trail h) (p : PageNum) : (t.fill p).seps = t.sepsBefore ++ t.sepsAfter := by
  induction t with
  | leaf => rfl
  | down frame rest ih =>
    rw [fill, Forest.seps_under, Frame.seps_graft, Forest.seps_single, ih]
    simp [sepsBefore, sepsAfter]

theorem length_leavesBefore (t : Trail h) : t.leavesBefore.length = t.sepsBefore.length := by
  induction t with
  | leaf => rfl
  | down frame rest ih =>
    rw [leavesBefore, sepsBefore, List.length_append, List.length_append, ih,
      Weave.length_before Tree.length_leaves frame.before_eq]

theorem length_leavesAfter (t : Trail h) : t.leavesAfter.length = t.sepsAfter.length := by
  induction t with
  | leaf => rfl
  | down frame rest ih =>
    rw [leavesAfter, sepsAfter, List.length_append, List.length_append, ih,
      Weave.length_after Tree.length_leaves frame.after_eq]

end Trail

end Tablespace
