import Mathlib.Data.List.Chain
import Tablespace.Proofs.Index.Paths

/-!
# Fences

Each leaf of an index lies between two separators, the nearest on either side
of the path that leads to it, whichever nodes they come from. They are the last
separator in front of the leaf and the first behind it.
-/

namespace Tablespace

structure Fences where
  low : Option Key
  high : Option Key

namespace Fences

/-- Whether a key lies between the fences and may lie on the lower. -/
def HoldsFrom (b : Fences) (x : Key) : Prop := (∀ l ∈ b.low, l ≤ x) ∧ ∀ u ∈ b.high, x < u

/-- Whether a key lies between the fences and may lie on the upper. -/
def HoldsUpTo (b : Fences) (x : Key) : Prop := (∀ l ∈ b.low, l < x) ∧ ∀ u ∈ b.high, x ≤ u

end Fences

/-- The nearest separators on either side of a path from a page. -/
def fences (look : PageNum → Option Node) : PageNum → List Nat → Fences
  | _, [] => ⟨none, none⟩
  | p, i :: path =>
    match look p with
    | some (.internal n) =>
      let inner := (n.children[i]?.map fun child => fences look child path).getD ⟨none, none⟩
      ⟨inner.low.or (n.keys.take i).getLast?, inner.high.or n.keys[i]?⟩
    | _ => ⟨none, none⟩

theorem fences_internal {look : PageNum → Option Node} {p child : PageNum} {n : Internal} {i : Nat} {path : List Nat}
    (h : look p = some (.internal n)) (hchild : n.children[i]? = some child) :
    fences look p (i :: path) = ⟨(fences look child path).low.or (n.keys.take i).getLast?,
      (fences look child path).high.or n.keys[i]?⟩ := by
  simp only [fences, h, hchild, Option.map_some, Option.getD_some]

/-- The lower fence comes from the page above the leaf, the upper from the root. -/
example : fences (held [.internal ⟨[.int 5], [1, 2]⟩, .internal ⟨[.int 3], [3, 4]⟩, .internal ⟨[], [5]⟩,
    .leaf {}, .leaf {}, .leaf {}]) 0 [0, 1] = ⟨some (.int 3), some (.int 5)⟩ := rfl

/-- The second page is a child of the first. -/
def IsChild (look : PageNum → Option Node) (p q : PageNum) : Prop :=
  ∃ n, look p = some (.internal n) ∧ q ∈ n.children

namespace Trail

variable {h : Nat} {nodes : List Node}

theorem fences_fill {trail : Trail h} {p : PageNum} (ht : (trail.fill p).Stored nodes) :
    fences (held nodes) (trail.fill p).root trail.path = ⟨trail.sepsBefore.getLast?, trail.sepsAfter.head?⟩ := by
  induction trail with
  | leaf => rfl
  | down frame rest ih =>
    obtain ⟨hpage, hg⟩ := (Forest.stored_under _ _).mp ht
    have hrest := ih (((frame.stored_graft _).mp hg).2.1 _ (List.mem_singleton.mpr rfl))
    have hchild : (frame.graft (.single (rest.fill p))).toInternal.children[frame.childrenBefore.length]?
        = some (rest.fill p).root := by
      rw [Frame.toInternal_graft]
      simp [Forest.single]
    have hbefore : (frame.childrenBefore.map Tree.seps).length = frame.keysBefore.length := by
      rw [List.length_map, frame.before_eq]
    have hafter : (frame.childrenAfter.map Tree.seps).length = frame.keysAfter.length := by
      rw [List.length_map, frame.after_eq]
    rw [fill, path, Forest.root_under, fences_internal hpage hchild, hrest, sepsBefore, sepsAfter, List.getLast?_append,
      List.head?_append, Weave.getLast?_before hbefore, Weave.head?_after hafter, Frame.toInternal_graft]
    simp [Forest.single, frame.before_eq, List.getElem?_append_right, List.head?_eq_getElem?]

/-! ## The pages on the way -/

theorem head?_pages (trail : Trail h) (p : PageNum) : (trail.pages ++ [p]).head? = some (trail.fill p).root := by
  cases trail with
  | leaf => rfl
  | down frame rest => rfl

theorem isChain_pages {trail : Trail h} {p : PageNum} (ht : (trail.fill p).Stored nodes) :
    (trail.pages ++ [p]).IsChain (IsChild (held nodes)) := by
  induction trail with
  | leaf => exact .singleton p
  | down frame rest ih =>
    obtain ⟨hpage, hg⟩ := (Forest.stored_under _ _).mp ht
    have hrest := ih (((frame.stored_graft _).mp hg).2.1 _ (List.mem_singleton.mpr rfl))
    rw [pages, List.cons_append, List.isChain_cons, head?_pages rest p]
    refine ⟨?_, hrest⟩
    intro q hq
    refine ⟨_, hpage, ?_⟩
    rw [Frame.toInternal_graft, ← Option.mem_some_iff.mp hq]
    simp [Forest.single]

end Trail

end Tablespace
