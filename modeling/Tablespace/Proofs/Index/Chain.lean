import Tablespace.Proofs.Index.Tree

/-!
# Chains of leaves

The leaves of an index, each a page and its entries, make a chain: every leaf
has the pages before and behind it for its neighbours. The chain of a list of
leaves falls apart wherever the list does.
-/

namespace Tablespace

abbrev Shelf := PageNum × List Entry

def firstPage (ls : List Shelf) : Option PageNum := ls.head?.map Prod.fst

def lastPage (ls : List Shelf) : Option PageNum := ls.getLast?.map Prod.fst

/-- The nodes hold the leaves, linked to one another and to what lies before and behind them. -/
def Chain (nodes : List Node) : Option PageNum → List Shelf → Option PageNum → Prop
  | _, [], _ => True
  | prev, l :: ls, next =>
    nodes[l.1.toNat]? = some (.leaf ⟨l.2, prev, (firstPage ls).or next⟩) ∧ Chain nodes (some l.1) ls next

section
variable {nodes nodes₁ : List Node} {prev prev' next : Option PageNum} {before ls after : List Shelf}
  {p q : PageNum} {es left right : List Entry}

theorem chain_append : Chain nodes prev (before ++ after) next
    ↔ Chain nodes prev before ((firstPage after).or next)
      ∧ Chain nodes ((lastPage before).or prev) after next := by
  induction before generalizing prev with
  | nil => simp [Chain, lastPage]
  | cons l before ih =>
    have hfirst : (firstPage (before ++ after)).or next = (firstPage before).or ((firstPage after).or next) := by
      cases before <;> simp [firstPage]
    have hlast : (lastPage (l :: before)).or prev = (lastPage before).or (some l.1) := by
      rw [lastPage, lastPage, List.getLast?_cons]
      cases before.getLast? <;> simp
    rw [List.cons_append, Chain, Chain, hfirst, hlast, ih, and_assoc]

theorem chain_around : Chain nodes none (before ++ (p, es) :: after) none
    ↔ Chain nodes none before (some p)
      ∧ nodes[p.toNat]? = some (.leaf ⟨es, lastPage before, firstPage after⟩)
      ∧ Chain nodes (some p) after none := by
  rw [chain_append, Chain]
  simp [firstPage]

theorem Chain.congr (h : Chain nodes prev ls next)
    (hsame : ∀ p ∈ ls.map Prod.fst, nodes₁[p.toNat]? = nodes[p.toNat]?) : Chain nodes₁ prev ls next := by
  induction ls generalizing prev with
  | nil => trivial
  | cons l ls ih =>
    refine ⟨(hsame l.1 List.mem_cons_self).trans h.1, ih h.2 ?_⟩
    intro p hp
    exact hsame p (List.mem_cons_of_mem _ hp)

theorem Chain.leaf (h : Chain nodes prev ls next) : ∀ p ∈ ls.map Prod.fst, ∃ l, nodes[p.toNat]? = some (.leaf l) := by
  induction ls generalizing prev with
  | nil => simp
  | cons l ls ih =>
    intro p hp
    rcases List.mem_cons.mp hp with rfl | hp
    · exact ⟨_, h.1⟩
    · exact ih h.2 p hp

theorem Chain.lt_length (h : Chain nodes prev ls next) {p : PageNum} (hp : p ∈ ls.map Prod.fst) :
    p.toNat < nodes.length := by
  obtain ⟨l, hl⟩ := h.leaf p hp
  exact (List.getElem?_eq_some_iff.mp hl).1

/-! ## Changes -/

theorem Chain.set (h : Chain nodes prev ls next) (hp : p ∉ ls.map Prod.fst) (n : Node) :
    Chain (nodes.set p.toNat n) prev ls next := by
  apply h.congr
  intro r hr
  refine List.getElem?_set_ne ?_
  intro heq
  exact hp (UInt32.toNat_inj.mp heq ▸ hr)

theorem Chain.append (h : Chain nodes prev ls next) (more : List Node) :
    Chain (nodes ++ more) prev ls next := by
  apply h.congr
  intro r hr
  exact List.getElem?_append_left (h.lt_length hr)

theorem Chain.set_entries (h : Chain nodes none (before ++ (p, es) :: after) none)
    (hnodup : ((before ++ (p, es) :: after).map Prod.fst).Nodup) (es' : List Entry) :
    Chain (nodes.set p.toNat (.leaf ⟨es', lastPage before, firstPage after⟩)) none
      (before ++ (p, es') :: after) none := by
  obtain ⟨hbefore, hleaf, hafter⟩ := chain_around.mp h
  simp only [List.map_append, List.map_cons, List.nodup_append, List.nodup_cons] at hnodup
  obtain ⟨-, ⟨hpafter, -⟩, hpbefore⟩ := hnodup
  refine chain_around.mpr ⟨hbefore.set ?_ _, ?_, hafter.set hpafter _⟩
  · intro hmem
    exact hpbefore p hmem p List.mem_cons_self rfl
  · exact List.getElem?_set_self (List.getElem?_eq_some_iff.mp hleaf).1

def relinked (nodes : List Node) (prev : Option PageNum) : List Shelf → List Node
  | [] => nodes
  | l :: ls => nodes.set l.1.toNat (.leaf ⟨l.2, prev, firstPage ls⟩)

theorem length_relinked : (relinked nodes prev ls).length = nodes.length := by
  cases ls <;> simp [relinked]

theorem Chain.of_relinked (h : Chain nodes prev ls none) (hnodup : (ls.map Prod.fst).Nodup) :
    Chain (relinked nodes prev' ls) prev' ls none := by
  cases ls with
  | nil => trivial
  | cons l ls =>
    refine ⟨?_, h.2.set (List.nodup_cons.mp hnodup).1 _⟩
    rw [Option.or_none]
    exact List.getElem?_set_self (List.getElem?_eq_some_iff.mp h.1).1

theorem getElem?_relinked (hp : p ∉ ls.map Prod.fst) : (relinked nodes prev ls)[p.toNat]? = nodes[p.toNat]? := by
  cases ls with
  | nil => rfl
  | cons l ls =>
    refine List.getElem?_set_ne ?_
    intro heq
    exact hp (UInt32.toNat_inj.mp heq ▸ List.mem_cons_self)

/-- The nodes when a leaf has parted and its right half is on a new page behind it. -/
def leafParted (nodes : List Node) (before : List Shelf) (p : PageNum) (left right : List Entry)
    (after : List Shelf) : List Node :=
  (relinked nodes (some (UInt32.ofNat nodes.length)) after
    ++ [Node.leaf ⟨right, some p, firstPage after⟩]).set p.toNat
      (.leaf ⟨left, lastPage before, some (UInt32.ofNat nodes.length)⟩)

theorem length_leafParted : (leafParted nodes before p left right after).length = nodes.length + 1 := by
  rw [leafParted, List.length_set, List.length_append, length_relinked, List.length_singleton]

theorem Chain.of_leafParted (h : Chain nodes none (before ++ (p, es) :: after) none)
    (hnodup : ((before ++ (p, es) :: after).map Prod.fst).Nodup) (hsize : nodes.length < UInt32.size)
    (left right : List Entry) :
    Chain (leafParted nodes before p left right after) none
      (before ++ (p, left) :: (UInt32.ofNat nodes.length, right) :: after) none := by
  obtain ⟨hbefore, hleaf, hafter⟩ := chain_around.mp h
  obtain ⟨hlt, -⟩ := List.getElem?_eq_some_iff.mp hleaf
  simp only [List.map_append, List.map_cons, List.nodup_append, List.nodup_cons] at hnodup
  obtain ⟨-, ⟨hpafter, hafterNodup⟩, hdisjoint⟩ := hnodup
  have hlength : nodes.length = (relinked nodes (some (UInt32.ofNat nodes.length)) after).length :=
    length_relinked.symm
  refine chain_around.mpr ⟨?_, ?_, ?_, ?_⟩
  · apply hbefore.congr
    intro r hr
    have hrp : p.toNat ≠ r.toNat := by
      intro heq
      exact hdisjoint r hr p List.mem_cons_self (UInt32.toNat_inj.mp heq).symm
    rw [leafParted, List.getElem?_set_ne hrp,
      List.getElem?_append_left (by rw [← hlength]; exact hbefore.lt_length hr), getElem?_relinked]
    intro hmem
    exact hdisjoint r hr r (List.mem_cons_of_mem _ hmem) rfl
  · rw [leafParted, List.getElem?_set_self (by rw [List.length_append, ← hlength]; omega)]
    rfl
  · have hq : (UInt32.ofNat nodes.length).toNat = nodes.length := UInt32.toNat_ofNat_of_lt' hsize
    rw [leafParted, hq, List.getElem?_set_ne (by omega), Option.or_none,
      List.getElem?_append_right (Nat.le_of_eq hlength.symm), ← hlength, Nat.sub_self]
    rfl
  · exact ((hafter.of_relinked hafterNodup).append _).set hpafter _

end

/-! ## Trees over a chain -/

/-- Internal nodes stay as they are and leaves stay leaves. -/
structure KeepsTree (nodes nodes₁ : List Node) : Prop where
  internal : ∀ (p : PageNum) n, nodes[p.toNat]? = some (.internal n) → nodes₁[p.toNat]? = some (.internal n)
  leaf : ∀ (p : PageNum) l, nodes[p.toNat]? = some (.leaf l) → ∃ l₁, nodes₁[p.toNat]? = some (.leaf l₁)

namespace KeepsTree

variable {nodes nodes₁ nodes₂ : List Node} {p : PageNum} {l : Leaf}

theorem refl (nodes : List Node) : KeepsTree nodes nodes := ⟨fun _ _ h => h, fun _ l h => ⟨l, h⟩⟩

theorem set (h : KeepsTree nodes nodes₁) (hp : nodes[p.toNat]? = some (.leaf l)) (l' : Leaf) :
    KeepsTree nodes (nodes₁.set p.toNat (.leaf l')) where
  internal r n hr := by
    have hne : p.toNat ≠ r.toNat := by
      intro heq
      rw [heq, hr] at hp
      cases hp
    rw [List.getElem?_set_ne hne]
    exact h.internal r n hr
  leaf r l₁ hr := by
    obtain ⟨l₂, hl₂⟩ := h.leaf r l₁ hr
    by_cases heq : p.toNat = r.toNat
    · rw [heq, List.getElem?_set_self (List.getElem?_eq_some_iff.mp hl₂).1]
      exact ⟨l', rfl⟩
    · rw [List.getElem?_set_ne heq]
      exact ⟨l₂, hl₂⟩

theorem append (h : KeepsTree nodes nodes₁) (more : List Node) : KeepsTree nodes (nodes₁ ++ more) where
  internal r n hr := by
    have := h.internal r n hr
    rwa [List.getElem?_append_left (List.getElem?_eq_some_iff.mp this).1]
  leaf r l hr := by
    obtain ⟨l₁, hl₁⟩ := h.leaf r l hr
    exact ⟨l₁, by rwa [List.getElem?_append_left (List.getElem?_eq_some_iff.mp hl₁).1]⟩

theorem stored {h : Nat} {t : Tree h} (hkeeps : KeepsTree nodes nodes₁) (ht : t.Stored nodes) :
    t.Stored nodes₁ := by
  induction h with
  | zero =>
    obtain ⟨l, hl⟩ := ht
    exact hkeeps.leaf _ l hl
  | succ h ih =>
    obtain ⟨g, page, rfl⟩ := t.exists_under
    obtain ⟨hpage, hg⟩ := ht
    exact ⟨hkeeps.internal _ _ hpage, fun c hc => ih (hg c hc)⟩

end KeepsTree

theorem keepsTree_leafParted {nodes : List Node} {before after : List Shelf} {p : PageNum}
    {es left right : List Entry} (h : Chain nodes none (before ++ (p, es) :: after) none) :
    KeepsTree nodes (leafParted nodes before p left right after) := by
  obtain ⟨-, hleaf, hafter⟩ := chain_around.mp h
  refine KeepsTree.set (KeepsTree.append ?_ _) hleaf _
  cases after with
  | nil => exact KeepsTree.refl nodes
  | cons l after => exact (KeepsTree.refl nodes).set hafter.1 _

end Tablespace
