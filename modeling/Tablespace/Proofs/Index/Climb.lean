import Tablespace.Proofs.Index.Growth
import Tablespace.Proofs.Index.Separator

/-!
# Climbs

When a leaf has parted, its new right half climbs the trail to the leaf: every
node on the way takes the separator from below, and parts in its turn if it
gets too large. Whatever the height at which this ends, the leaves of the tree
are the old ones with the new half behind its left half, and the separators are
the old ones with the new one between the two.
-/

namespace Tablespace

namespace Index

section
variable {h h' : Nat} {type : AttributeType} {frame : Frame (Tree h)} {rest trail : Trail h} {p q : PageNum}
  {s : Key} {nodes nodes₁ nodes₂ : List Node}

/-- A forest in the place of the tree to which the trail leads, with a leaf `q` and a separator
more. -/
structure Climbed (trail : Trail h) (p q : PageNum) (s : Key) (nodes : List Node) (g : Forest (Tree h'))
    (nodes₁ : List Node) : Prop where
  leaves_eq : g.leaves = trail.leavesBefore ++ p :: q :: trail.leavesAfter
  seps_eq : g.seps = trail.sepsBefore ++ s :: trail.sepsAfter
  pages_perm : g.pages.Perm ((trail.fill p).pages ++ q :: pagesFrom nodes.length nodes₁.length)
  stored : g.Stored nodes₁
  agree : Agree trail.pages nodes nodes₁

/-- What a climb has come to: it is over, or a second tree goes on to the parent. -/
inductive Grown (h : Nat) where
  | one (t : Tree h)
  | two (left : Tree h) (s : Key) (right : Tree h)

def Grown.forest : Grown h → Forest (Tree h)
  | .one t => .single t
  | .two left s right => .pair left s right

def Grown.root : Grown h → PageNum
  | .one t => t.root
  | .two left _ _ => left.root

def Grown.proceed (type : AttributeType) (above : List PageNum) : Grown h → IndexM Unit
  | .one _ => pure ()
  | .two left s right => addSeparator type s left.root right.root above

/-! ## One level -/

/-- A tree is stored where a climb starts, and the new leaf is not in it. -/
structure Ready (trail : Trail h) (p q : PageNum) (nodes : List Node) : Prop where
  stored : (trail.fill p).Stored nodes
  nodup : (trail.fill p).pages.Nodup
  leaf : ∃ l, nodes[q.toNat]? = some (.leaf l)
  apart : q ∉ (trail.fill p).pages

theorem Ready.down (hready : Ready (.down frame rest) p q nodes) : Ready rest p q nodes := by
  obtain ⟨hstored, hnodup, hleaf, hapart⟩ := hready
  rw [Trail.fill, Forest.pages_under, Frame.pages_graft, Forest.pages_single] at hnodup hapart
  refine ⟨?_, ?_, hleaf, ?_⟩
  · exact ((frame.stored_graft _).mp ((Forest.stored_under _ _).mp hstored).2).2.1 _ (List.mem_singleton.mpr rfl)
  · exact (List.nodup_append.mp (List.nodup_append.mp (List.nodup_cons.mp hnodup).2).1).2.1
  · intro hq
    exact hapart (by simp [hq])

/-- The other children of a node share no page with the child on the trail, nor with the node. -/
theorem Ready.siblings (hready : Ready (.down frame rest) p q nodes) :
    frame.page ∉ (rest.fill p).pages
      ∧ ∀ c ∈ frame.childrenBefore ++ frame.childrenAfter, c.Stored nodes
        ∧ ∀ r ∈ c.pages, r ∉ (rest.fill p).pages ∧ r ≠ frame.page := by
  obtain ⟨hstored, hnodup, -, -⟩ := hready
  obtain ⟨hbefore, -, hafter⟩ := (frame.stored_graft _).mp ((Forest.stored_under _ _).mp hstored).2
  rw [Trail.fill, Forest.pages_under, Frame.pages_graft, Forest.pages_single] at hnodup
  have hcount := List.nodup_iff_count.mp hnodup
  simp only [List.count_cons, List.count_append, beq_iff_eq] at hcount
  have hpos : ∀ {r : PageNum} {xs : List PageNum}, r ∈ xs → 1 ≤ xs.count r := List.count_pos_iff.mpr
  refine ⟨?_, ?_⟩
  · intro hmem
    have := hpos hmem
    have := hcount frame.page
    rw [if_pos rfl] at this
    omega
  · intro c hc
    refine ⟨(List.mem_append.mp hc).elim (hbefore c) (hafter c), ?_⟩
    intro r hr
    have hside : 1 ≤ (frame.childrenBefore.flatMap Tree.pages).count r
        + (frame.childrenAfter.flatMap Tree.pages).count r := by
      rcases List.mem_append.mp hc with hc | hc
      · exact Nat.le_add_right_of_le (hpos (List.mem_flatMap.mpr ⟨c, hc, hr⟩))
      · exact Nat.le_add_left_of_le (hpos (List.mem_flatMap.mpr ⟨c, hc, hr⟩))
    have hr' := hcount r
    refine ⟨?_, ?_⟩
    · intro hmem
      have := hpos hmem
      omega
    · intro heq
      rw [if_pos heq.symm] at hr'
      omega

/-- The node above a climb, with what the climb has come to in the place of the child. -/
structure Grafted (frame : Frame (Tree h)) (rest : Trail h) (p q : PageNum) (s : Key) (nodes : List Node)
    (g : Forest (Tree h)) (nodes₁ : List Node) : Prop where
  leaves_eq : g.leaves = (Trail.down frame rest).leavesBefore ++ p :: q :: (Trail.down frame rest).leavesAfter
  seps_eq : g.seps = (Trail.down frame rest).sepsBefore ++ s :: (Trail.down frame rest).sepsAfter
  pages_perm : (frame.page :: g.pages).Perm
    (((Trail.down frame rest).fill p).pages ++ q :: pagesFrom nodes.length nodes₁.length)
  stored : g.Stored nodes₁
  notMem : frame.page ∉ g.pages
  agree : Agree (Trail.down frame rest).pages nodes nodes₁

theorem Climbed.graft {g : Forest (Tree h)} (hready : Ready (.down frame rest) p q nodes)
    (hclimbed : Climbed rest p q s nodes g nodes₁) (hsize : nodes₁.length ≤ UInt32.size) :
    Grafted frame rest p q s nodes (frame.graft g) nodes₁ := by
  obtain ⟨hpage, hsiblings⟩ := hready.siblings
  have hpages : frame.page ∉ (frame.graft g).pages := by
    rw [Frame.pages_graft, List.mem_append, List.mem_append, not_or, not_or]
    refine ⟨⟨?_, ?_⟩, ?_⟩
    · intro hmem
      obtain ⟨c, hc, hr⟩ := List.mem_flatMap.mp hmem
      exact ((hsiblings c (List.mem_append_left _ hc)).2 _ hr).2 rfl
    · intro hmem
      rcases List.mem_append.mp (hclimbed.pages_perm.mem_iff.mp hmem) with hmem | hmem
      · exact hpage hmem
      · have hlt := hready.stored.lt_length frame.page List.mem_cons_self
        rcases List.mem_cons.mp hmem with heq | hmem
        · exact hready.apart (heq ▸ List.mem_cons_self)
        · have := ((mem_pagesFrom hsize).mp hmem).1
          omega
    · intro hmem
      obtain ⟨c, hc, hr⟩ := List.mem_flatMap.mp hmem
      exact ((hsiblings c (List.mem_append_right _ hc)).2 _ hr).2 rfl
  have hsib : ∀ c ∈ frame.childrenBefore ++ frame.childrenAfter, c.Stored nodes₁ := by
    intro c hc
    obtain ⟨hstored, hapart⟩ := hsiblings c hc
    apply hstored.congr
    intro r hr
    refine hclimbed.agree.getElem?_eq (hstored.lt_length r hr) ?_
    intro hmem
    exact (hapart r hr).1 (rest.pages_subset p r hmem)
  refine ⟨?_, ?_, ?_, ?_, hpages, ?_⟩
  · rw [Frame.leaves_graft, hclimbed.leaves_eq]
    simp [Trail.leavesBefore, Trail.leavesAfter]
  · rw [Frame.seps_graft, hclimbed.seps_eq]
    simp [Trail.sepsBefore, Trail.sepsAfter]
  · rw [Trail.fill, Forest.pages_under, Frame.pages_graft, Frame.pages_graft, Forest.pages_single,
      List.perm_iff_count]
    intro r
    have := hclimbed.pages_perm.count_eq r
    simp only [List.count_append, List.count_cons] at this ⊢
    omega
  · refine (frame.stored_graft g).mpr ⟨?_, hclimbed.stored, ?_⟩
    · exact fun c hc => hsib c (List.mem_append_left _ hc)
    · exact fun c hc => hsib c (List.mem_append_right _ hc)
  · exact hclimbed.agree.mono fun r hr => List.mem_cons_of_mem _ hr

theorem Grafted.climbed {g : Forest (Tree h)} {g' : Forest (Tree h')}
    (hg : Grafted frame rest p q s nodes g nodes₁) (hleaves : g'.leaves = g.leaves) (hseps : g'.seps = g.seps)
    (hpages : g'.pages.Perm (frame.page :: g.pages ++ pagesFrom nodes₁.length nodes₂.length))
    (hstored : g'.Stored nodes₂) (hagree : Agree [frame.page] nodes₁ nodes₂) :
    Climbed (.down frame rest) p q s nodes g' nodes₂ := by
  refine ⟨hleaves.trans hg.leaves_eq, hseps.trans hg.seps_eq, ?_, hstored, ?_⟩
  · refine (hpages.trans (hg.pages_perm.append_right _)).trans ?_
    rw [List.append_assoc, List.cons_append, pagesFrom_append hg.agree.length_le hagree.length_le]
  · refine hg.agree.trans (hagree.mono ?_)
    intro r hr
    rw [List.mem_singleton.mp hr]
    exact List.mem_cons_self

theorem added_graft {t left right : Tree h} {k : Key} (hroot : left.root = t.root)
    (hleft : ∀ c ∈ frame.childrenBefore, c.root ≠ t.root) :
    Internal.Added (frame.graft (.single t)).toInternal (frame.graft (.pair left k right)).toInternal
      left.root k right.root := by
  refine ⟨frame.keysBefore, frame.keysAfter, frame.childrenBefore.map Tree.root,
    frame.childrenAfter.map Tree.root, ?_, ?_, by simp [frame.before_eq], ?_⟩
  · simp [Frame.toInternal_graft, Forest.single, hroot]
  · simp [Frame.toInternal_graft, Forest.pair]
  · intro hmem
    obtain ⟨c, hc, heq⟩ := List.mem_map.mp hmem
    exact hleft c hc (heq.trans hroot)

theorem Ready.node (hready : Ready (.down frame rest) p q nodes) (hagree : Agree rest.pages nodes nodes₁) :
    nodes₁[frame.page.toNat]? = some (.internal (frame.graft (.single (rest.fill p))).toInternal)
      ∧ ∀ c ∈ frame.childrenBefore, c.root ≠ (rest.fill p).root := by
  obtain ⟨hpage, hsiblings⟩ := hready.siblings
  have hlt := hready.stored.lt_length frame.page List.mem_cons_self
  refine ⟨?_, ?_⟩
  · rw [hagree.getElem?_eq hlt fun hmem => hpage (rest.pages_subset p _ hmem)]
    exact ((Forest.stored_under _ _).mp hready.stored).1
  · intro c hc heq
    refine ((hsiblings c (List.mem_append_left _ hc)).2 c.root c.root_mem_pages).1 ?_
    rw [heq]
    exact (rest.fill p).root_mem_pages

section
variable {g : Forest (Tree h)} (hg : Grafted frame rest p q s nodes g nodes₁)
include hg

theorem Grafted.climbed_fits (hlt : frame.page.toNat < nodes₁.length) :
    Climbed (.down frame rest) p q s nodes (.single (g.under frame.page))
      (nodes₁.set frame.page.toNat (.internal g.toInternal)) := by
  have hagree : Agree [frame.page] nodes₁ (nodes₁.set frame.page.toNat (.internal g.toInternal)) :=
    (Agree.refl _ _).set (List.mem_singleton.mpr rfl) _
  refine hg.climbed (by simp [Forest.leaves_single]) (by simp [Forest.seps_single]) ?_ ?_ hagree
  · rw [List.length_set, pagesFrom_self, Forest.pages_single, Forest.pages_under, List.append_nil]
  · intro c hc
    rw [List.mem_singleton.mp hc]
    refine (Forest.stored_under _ _).mpr ⟨List.getElem?_set_self hlt, ?_⟩
    exact hg.stored.agree hagree fun r hr hmem => hg.notMem (List.mem_singleton.mp hmem ▸ hr)

variable {lower upper : Forest (Tree h)} {promoted : Key} (hsplits : g.Splits lower promoted upper)
include hsplits

/-- The node above parts: its lower half stays in place and the upper half gets a page. -/
theorem Grafted.climbed_parted (hlt : frame.page.toNat < nodes₁.length) (hsize : nodes₁.length < UInt32.size) :
    Climbed (.down frame rest) p q s nodes
      (.pair (lower.under frame.page) promoted (upper.under (UInt32.ofNat nodes₁.length)))
      (parted nodes₁ frame.page lower.toInternal upper.toInternal) := by
  have hagree : Agree [frame.page] nodes₁ (parted nodes₁ frame.page lower.toInternal upper.toInternal) :=
    ((Agree.refl _ _).append _).set (List.mem_singleton.mpr rfl) _
  have hstored := hg.stored.agree hagree fun r hr hmem => hg.notMem (List.mem_singleton.mp hmem ▸ hr)
  obtain ⟨hlower, hupper⟩ := hsplits.stored hstored
  refine hg.climbed (Forest.leaves_pair_under hsplits) (Forest.seps_pair_under hsplits) ?_ ?_ hagree
  · rw [parted, List.length_set, List.length_append, List.length_singleton, pagesFrom_succ]
    exact Forest.pages_pair_under hsplits
  · intro c hc
    rcases List.mem_cons.mp hc with rfl | hc
    · refine (Forest.stored_under _ _).mpr ⟨List.getElem?_set_self ?_, hlower⟩
      rw [List.length_append]
      omega
    · rw [List.mem_singleton.mp hc]
      refine (Forest.stored_under _ _).mpr ⟨?_, hupper⟩
      rw [parted, UInt32.toNat_ofNat_of_lt' hsize, List.getElem?_set_ne (by omega),
        List.getElem?_concat_length]

/-- The root parts: both halves get pages, and the root stays in place above them. -/
theorem Grafted.climbed_raised (hlt : frame.page.toNat < nodes₁.length) (hsize : nodes₁.length + 1 < UInt32.size) :
    Climbed (.down frame rest) p q s nodes
      (.single ((Forest.pair (lower.under (UInt32.ofNat nodes₁.length)) promoted
        (upper.under (UInt32.ofNat (nodes₁.length + 1)))).under frame.page))
      (raised nodes₁ frame.page lower.toInternal promoted upper.toInternal) := by
  have hagree : Agree [frame.page] nodes₁
      (raised nodes₁ frame.page lower.toInternal promoted upper.toInternal) :=
    (((Agree.refl _ _).append _).append _).set (List.mem_singleton.mpr rfl) _
  have hstored := hg.stored.agree hagree fun r hr hmem => hg.notMem (List.mem_singleton.mp hmem ▸ hr)
  obtain ⟨hlower, hupper⟩ := hsplits.stored hstored
  refine hg.climbed ?_ ?_ ?_ ?_ hagree
  · rw [Forest.leaves_single, Forest.leaves_under, Forest.leaves_pair_under hsplits]
  · rw [Forest.seps_single, Forest.seps_under, Forest.seps_pair_under hsplits]
  · have := @Forest.pages_pair_under _ _ _ _ _ (UInt32.ofNat nodes₁.length)
      (UInt32.ofNat (nodes₁.length + 1)) hsplits
    rw [raised, List.length_set, List.length_append, List.length_append, List.length_singleton,
      List.length_singleton, pagesFrom_two, Forest.pages_single, Forest.pages_under, List.cons_append, List.perm_cons,
      List.perm_iff_count]
    intro r
    have := this.count_eq r
    simp only [List.count_append, List.count_cons, List.count_nil] at this ⊢
    omega
  · intro c hc
    rw [List.mem_singleton.mp hc]
    refine (Forest.stored_under _ _).mpr ⟨List.getElem?_set_self ?_, ?_⟩
    · rw [List.length_append, List.length_append]
      omega
    · intro c hc
      rcases List.mem_cons.mp hc with rfl | hc
      · refine (Forest.stored_under _ _).mpr ⟨?_, hlower⟩
        rw [raised, UInt32.toNat_ofNat_of_lt' (by omega), List.getElem?_set_ne (by omega),
          List.getElem?_append_left (by simp), List.getElem?_concat_length]
      · rw [List.mem_singleton.mp hc]
        refine (Forest.stored_under _ _).mpr ⟨?_, hupper⟩
        have hlast : nodes₁.length + 1 = (nodes₁ ++ [Node.internal lower.toInternal]).length := by simp
        rw [raised, UInt32.toNat_ofNat_of_lt' hsize, List.getElem?_set_ne (by omega), hlast,
          List.getElem?_concat_length]

end

/-! ## All levels -/

/-- At one parent a climb ends, or the parent parts. A parent that parts hands its upper half on, and
the root keeps both halves below it. -/
theorem climb_parent {g : Grown h} (hready : Ready (.down frame rest) p q nodes)
    (hclimbed : Climbed rest p q s nodes g.forest nodes₁) (hrooted : g.root = (rest.fill p).root)
    (hkeys : ∀ k ∈ g.forest.keys, k.Sound type) (hsound : ∀ n ∈ nodes, n.Sound type)
    (hsize : nodes₁.length + 1 < UInt32.size) :
    (∃ (t : Tree (h + 1)) (nodes₂ : List Node), t.root = frame.page
      ∧ Climbed (.down frame rest) p q s nodes (.single t) nodes₂ ∧ nodes₂.length = nodes₁.length
      ∧ ∀ above, Leads type (g.proceed type (frame.page :: above)) nodes₁ () nodes₂)
    ∨ ∃ (lower : Forest (Tree h)) (promoted : Key) (upper : Forest (Tree h)), promoted.Sound type
      ∧ Climbed (.down frame rest) p q s nodes
        (.pair (lower.under frame.page) promoted (upper.under (UInt32.ofNat nodes₁.length)))
        (parted nodes₁ frame.page lower.toInternal upper.toInternal)
      ∧ Climbed (.down frame rest) p q s nodes
        (.single ((Forest.pair (lower.under (UInt32.ofNat nodes₁.length)) promoted
          (upper.under (UInt32.ofNat (nodes₁.length + 1)))).under frame.page))
        (raised nodes₁ frame.page lower.toInternal promoted upper.toInternal)
      ∧ (frame.page ≠ root → ∀ above nodes₂,
        Leads type (addSeparator type promoted frame.page (UInt32.ofNat nodes₁.length) above)
          (parted nodes₁ frame.page lower.toInternal upper.toInternal) () nodes₂ →
        Leads type (g.proceed type (frame.page :: above)) nodes₁ () nodes₂)
      ∧ (frame.page = root → ∀ above, Leads type (g.proceed type (frame.page :: above)) nodes₁ ()
        (raised nodes₁ frame.page lower.toInternal promoted upper.toInternal)) := by
  have hgrafted := hclimbed.graft hready (by omega)
  obtain ⟨hnode, hleft⟩ := hready.node hclimbed.agree
  obtain ⟨hlt, -⟩ := List.getElem?_eq_some_iff.mp hnode
  cases g with
  | one t =>
    have hsame : (frame.graft (.single t)).toInternal = (frame.graft (.single (rest.fill p))).toInternal := by
      rw [Frame.toInternal_graft, Frame.toInternal_graft]
      simp [Forest.single, show t.root = (rest.fill p).root from hrooted]
    refine .inl ⟨(frame.graft (.single t)).under frame.page, nodes₁, rfl, ?_, rfl,
      fun above => (Looks.pure ()).leads⟩
    refine hgrafted.climbed (by simp [Grown.forest, Forest.leaves_single])
      (by simp [Grown.forest, Forest.seps_single]) ?_ ?_ (Agree.refl _ _)
    · rw [pagesFrom_self, List.append_nil, Grown.forest, Forest.pages_single]
      exact List.Perm.refl _
    · intro c hc
      rw [List.mem_singleton.mp hc]
      refine (Forest.stored_under _ _).mpr ⟨?_, hgrafted.stored⟩
      rw [hsame]
      exact hnode
  | two left k right =>
    have hadded := @added_graft _ frame (rest.fill p) left right k hrooted hleft
    have hk : k.Sound type := hkeys k (List.mem_singleton.mpr rfl)
    have hn : (frame.graft (.single (rest.fill p))).toInternal.Sound type :=
      hsound (.internal _) (List.mem_of_getElem? ((Forest.stored_under _ _).mp hready.stored).1)
    by_cases hfits : (frame.graft (.pair left k right)).toInternal.fits
    · exact .inl ⟨(frame.graft (.pair left k right)).under frame.page, _, rfl, hgrafted.climbed_fits hlt,
        List.length_set, fun above => leads_addSeparator_fits hnode hadded hk hfits⟩
    · obtain ⟨l, promoted, u, hsplit, hparted, hl, hpromoted, hu⟩ := hadded.exists_parted hn hk hfits
      obtain ⟨lower, upper, rfl, rfl, hsplits⟩ := Forest.exists_splits hparted
      exact .inr ⟨lower, promoted, upper, hpromoted, hgrafted.climbed_parted hsplits hlt (by omega),
        hgrafted.climbed_raised hsplits hlt hsize,
        fun hne above nodes₂ => leads_addSeparator_parted hnode hadded hfits hsplit hl hu hne,
        fun heq above => leads_addSeparator_root hnode hadded hfits hsplit hl hu heq hpromoted⟩

theorem exists_climbed {trail : Trail h} (hready : Ready trail p q nodes) (hroot : root ∉ trail.pages)
    (hsound : ∀ n ∈ nodes, n.Sound type) (hs : s.Sound type) (hsize : nodes.length + h < UInt32.size) :
    ∃ (g : Grown h) (nodes₁ : List Node), Climbed trail p q s nodes g.forest nodes₁
      ∧ g.root = (trail.fill p).root ∧ (∀ k ∈ g.forest.keys, k.Sound type)
      ∧ nodes₁.length ≤ nodes.length + h
      ∧ ∀ above nodes₂, Leads type (g.proceed type above) nodes₁ () nodes₂ →
        Leads type (addSeparator type s p q (trail.pages.reverse ++ above)) nodes () nodes₂ := by
  induction trail with
  | leaf =>
    refine ⟨.two p s q, nodes, ⟨rfl, rfl, ?_, ?_, Agree.refl _ _⟩, rfl, by simpa [Grown.forest, Forest.pair],
      Nat.le_refl _, fun above nodes₂ hgo => hgo⟩
    · rw [pagesFrom_self]
      exact List.Perm.refl _
    · intro c hc
      rcases List.mem_cons.mp hc with rfl | hc
      · exact hready.stored
      · rw [List.mem_singleton.mp hc]
        exact hready.leaf
  | @down h frame rest ih =>
    obtain ⟨g, nodes₁, hclimbed, hrooted, hkeys, hlen, hgo⟩ :=
      ih hready.down (fun hmem => hroot (List.mem_cons_of_mem _ hmem)) (by omega)
    have hpath : ∀ above : List PageNum, (Trail.down frame rest).pages.reverse ++ above
        = rest.pages.reverse ++ frame.page :: above := by simp [Trail.pages]
    simp only [hpath]
    rcases climb_parent hready hclimbed hrooted hkeys hsound (by omega) with
      ⟨t, nodes₂, ht, hclimbed₂, hlen₂, hends⟩ | ⟨lower, promoted, upper, hpromoted, hclimbed₂, -, hgoes, -⟩
    · refine ⟨.one t, nodes₂, hclimbed₂, ht, by simp [Grown.forest, Forest.single], by omega, ?_⟩
      intro above nodes₃ hover
      have hboth : Leads type (g.proceed type (frame.page :: above) >>= fun _ => pure ()) nodes₁ () nodes₃ :=
        (hends above).bind hover
      rw [bind_pure_unit] at hboth
      exact hgo _ _ hboth
    · refine ⟨.two (lower.under frame.page) promoted (upper.under (UInt32.ofNat nodes₁.length)), _, hclimbed₂,
        rfl, by simpa [Grown.forest, Forest.pair], ?_, ?_⟩
      · rw [parted, List.length_set, List.length_append, List.length_singleton]
        omega
      · intro above nodes₃ hover
        exact hgo _ _ (hgoes (fun heq => hroot (heq ▸ List.mem_cons_self)) above nodes₃ hover)

theorem exists_grown {trail : Trail (h + 1)} (hready : Ready trail p q nodes)
    (hrooted : (trail.fill p).root = root) (hsound : ∀ n ∈ nodes, n.Sound type) (hs : s.Sound type)
    (hsize : nodes.length + h + 1 < UInt32.size) :
    ∃ (h' : Nat) (t : Tree (h' + 1)) (nodes₁ : List Node), t.root = root
      ∧ Climbed trail p q s nodes (.single t) nodes₁ ∧ nodes₁.length ≤ nodes.length + h + 2
      ∧ Leads type (addSeparator type s p q trail.pages.reverse) nodes () nodes₁ := by
  cases trail with
  | down frame rest =>
    have hpage : frame.page = root := hrooted
    have hroot : root ∉ rest.pages := by
      rw [← hpage]
      exact fun hmem => hready.siblings.1 (rest.pages_subset p _ hmem)
    obtain ⟨g, nodes₁, hclimbed, hgroot, hkeys, hlen, hgo⟩ :=
      exists_climbed hready.down hroot hsound hs (by omega)
    have hpath : (Trail.down frame rest).pages.reverse = rest.pages.reverse ++ [frame.page] := by
      simp [Trail.pages]
    rw [hpath]
    rcases climb_parent hready hclimbed hgroot hkeys hsound (by omega) with
      ⟨t, nodes₂, ht, hclimbed₂, hlen₂, hends⟩ | ⟨lower, promoted, upper, -, -, hclimbed₂, -, hraises⟩
    · exact ⟨h, t, nodes₂, ht.trans hpage, hclimbed₂, by omega, hgo _ _ (hends [])⟩
    · refine ⟨h + 1, _, _, ?_, hclimbed₂, ?_, hgo _ _ (hraises hpage [])⟩
      · exact hpage
      · rw [raised, List.length_set, List.length_append, List.length_append, List.length_singleton]
        exact Nat.add_le_add_right hlen 2

end

end Index

end Tablespace
