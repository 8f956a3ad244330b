import Tablespace.Proofs.Index.Halving
import Tablespace.Proofs.Index.Nodes
import Tablespace.Proofs.Index.Tree

/-!
# Descents

A descent goes at every node to the child behind the separators that pass a
test. Where the separators of the tree that pass come first, it ends at the
leaf behind the last of them.
-/

namespace Tablespace

namespace Index

variable {type : AttributeType} {choose : Internal → Nat} {test : Key → Bool} {nodes : List Node}

/-- The leaf at the boundary of a test, with the trail to it. -/
structure AtBoundary (test : Key → Bool) {h : Nat} (t : Tree h) (trail : Trail h) (p : PageNum) : Prop where
  fill_eq : trail.fill p = t
  before : ∀ s ∈ trail.sepsBefore, test s = true
  after : ∀ s ∈ trail.sepsAfter, test s = false

/-- A node without the child at the boundary of a test among its separators. -/
theorem exists_frame {α : Type} (g : Forest α) (page : PageNum)
    (hg : g.keys.Pairwise fun x y => test y = true → test x = true) :
    ∃ (frame : Frame α) (c : α), frame.page = page ∧ frame.graft (.single c) = g
      ∧ partitionPoint test g.keys = frame.childrenBefore.length
      ∧ (∀ s ∈ frame.keysBefore, test s = true) ∧ ∀ s ∈ frame.keysAfter, test s = false := by
  obtain ⟨keys, children, hlen⟩ := g
  obtain ⟨front, back, rfl, hfront, hback⟩ := exists_parts keys hg
  have hlt : front.length < children.length := by
    rw [hlen, List.length_append]
    omega
  have hbefore : (children.take front.length).length = front.length := by
    rw [List.length_take]
    omega
  have hafter : (children.drop (front.length + 1)).length = back.length := by
    rw [List.length_drop, hlen, List.length_append]
    omega
  refine ⟨⟨page, children.take front.length, front, back, children.drop (front.length + 1), hbefore, hafter⟩,
    children[front.length], rfl, ?_, ?_, hfront, hback⟩
  · simp [Frame.graft, Forest.single]
  · rw [hbefore]
    exact partitionPoint_append hfront hback

theorem exists_atBoundary {h : Nat} (t : Tree h)
    (hs : t.seps.Pairwise fun x y => test y = true → test x = true) :
    ∃ trail p, AtBoundary test t trail p
      ∧ ∀ choose : Internal → Nat, (∀ n, choose n = partitionPoint test n.keys) → ∀ type nodes limit,
        t.Stored nodes → h < limit → Looks type (descend type choose limit t.root) nodes (trail.pages, p) := by
  induction h with
  | zero =>
    refine ⟨.leaf, t, ⟨rfl, by simp [Trail.sepsBefore], by simp [Trail.sepsAfter]⟩, ?_⟩
    intro choose _ type nodes limit hstored hlimit
    obtain ⟨l, hl⟩ := hstored
    obtain ⟨limit, rfl⟩ : ∃ m, limit = m + 1 := ⟨limit - 1, by omega⟩
    unfold descend
    exact (looks_readNode hl).bind (Looks.pure _)
  | succ h ih =>
    obtain ⟨g, page, rfl⟩ := t.exists_under
    rw [Forest.seps_under] at hs
    have hkeys := hs.sublist (Weave.sublist_weave (by simp [g.length_eq]))
    obtain ⟨frame, c, rfl, rfl, hpoint, hfront, hback⟩ := exists_frame g page hkeys
    rw [Frame.seps_graft, Forest.seps_single] at hs
    obtain ⟨hs, hafter, -⟩ := List.pairwise_append.mp hs
    obtain ⟨hbefore, hc, -⟩ := List.pairwise_append.mp hs
    obtain ⟨rest, p, hrest, hlooks⟩ := ih c hc
    refine ⟨.down frame rest, p, ⟨?_, ?_, ?_⟩, ?_⟩
    · rw [Trail.fill, hrest.fill_eq]
    · intro s hs
      rw [Trail.sepsBefore, List.mem_append] at hs
      rcases hs with hs | hs
      · obtain ⟨k, hk, himp⟩ := Weave.exists_rel_key (fun _ => id) hbefore hs
        exact himp (hfront k hk)
      · exact hrest.before s hs
    · intro s hs
      rw [Trail.sepsAfter, List.mem_append] at hs
      rcases hs with hs | hs
      · exact hrest.after s hs
      · obtain ⟨k, hk, himp⟩ := Weave.exists_key_rel (fun _ => id) hafter hs
        have hfalse := hback k hk
        cases ht : test s with
        | false => rfl
        | true =>
          rw [himp ht] at hfalse
          cases hfalse
    · intro choose hchoose type nodes limit hstored hlimit
      obtain ⟨limit, rfl⟩ : ∃ m, limit = m + 1 := ⟨limit - 1, by omega⟩
      obtain ⟨hpage, hstored⟩ := Forest.stored_under .. |>.mp hstored
      obtain ⟨-, hstored, -⟩ := (frame.stored_graft _).mp hstored
      have hchild : (frame.graft (.single c)).toInternal.children.getD (choose (frame.graft (.single c)).toInternal) root
          = c.root := by
        rw [hchoose]
        simp only [Forest.toInternal, hpoint]
        simp [Frame.graft, Forest.single]
      have hdown := hlooks choose hchoose type nodes limit (hstored c (by simp [Forest.single])) (by omega)
      unfold descend
      refine (looks_readNode hpage).bind ?_
      simp only [hchild]
      exact hdown.bind (Looks.pure _)

end Index

end Tablespace
