import Tablespace.Proofs.Index.Internal
import Tablespace.Proofs.Index.Tree

/-!
# Growth

A file grows by pages at its end, and a step of an insert changes few of the
others. A forest that parts in two keeps its leaves and separators in order,
with one of the separators between the two.
-/

namespace Tablespace

/-! ## Pages -/

/-- The numbers of the pages that are added when a file grows from `a` pages to `b`. -/
def pagesFrom (a b : Nat) : List PageNum := (List.range' a (b - a)).map UInt32.ofNat

theorem pagesFrom_self (a : Nat) : pagesFrom a a = [] := by simp [pagesFrom]

theorem pagesFrom_append {a b c : Nat} (hab : a ≤ b) (hbc : b ≤ c) : pagesFrom a b ++ pagesFrom b c = pagesFrom a c := by
  have hrange : List.range' a (b - a) ++ List.range' b (c - b) = List.range' a (c - a) := by
    have := @List.range'_append_1 a (b - a) (c - b)
    rwa [show a + (b - a) = b by omega, show b - a + (c - b) = c - a by omega] at this
  rw [pagesFrom, pagesFrom, pagesFrom, ← List.map_append, hrange]

theorem pagesFrom_succ (a : Nat) : pagesFrom a (a + 1) = [UInt32.ofNat a] := by simp [pagesFrom]

theorem pagesFrom_two (a : Nat) : pagesFrom a (a + 1 + 1) = [UInt32.ofNat a, UInt32.ofNat (a + 1)] := by
  rw [← pagesFrom_append (Nat.le_succ a) (Nat.le_succ (a + 1)), pagesFrom_succ, pagesFrom_succ]
  rfl

theorem mem_pagesFrom {a b : Nat} {p : PageNum} (hb : b ≤ UInt32.size) :
    p ∈ pagesFrom a b ↔ a ≤ p.toNat ∧ p.toNat < b := by
  simp only [pagesFrom, List.mem_map, List.mem_range'_1]
  constructor
  · intro h
    obtain ⟨i, hi, rfl⟩ := h
    rw [UInt32.toNat_ofNat_of_lt' (by omega)]
    omega
  · intro h
    exact ⟨p.toNat, by omega, UInt32.ofNat_toNat⟩

theorem nodup_pagesFrom {a b : Nat} (hb : b ≤ UInt32.size) : (pagesFrom a b).Nodup := by
  rw [pagesFrom, List.Nodup, List.pairwise_map]
  have hrange : (List.range' a (b - a)).Nodup := List.nodup_range'
  apply hrange.imp_of_mem
  intro i j hi hj hne heq
  rw [List.mem_range'_1] at hi hj
  have := congrArg UInt32.toNat heq
  rw [UInt32.toNat_ofNat_of_lt' (by omega), UInt32.toNat_ofNat_of_lt' (by omega)] at this
  exact hne this

/-- The lists agree on the pages of the first but for some of them. -/
structure Agree (off : List PageNum) (nodes nodes₁ : List Node) : Prop where
  length_le : nodes.length ≤ nodes₁.length
  same : ∀ i, i < nodes.length → (∀ p ∈ off, p.toNat ≠ i) → nodes₁[i]? = nodes[i]?

namespace Agree

variable {off : List PageNum} {nodes nodes₁ nodes₂ : List Node} {p : PageNum} {n : Node}

theorem refl (off : List PageNum) (nodes : List Node) : Agree off nodes nodes := ⟨Nat.le_refl _, fun _ _ _ => rfl⟩

theorem trans (h₁ : Agree off nodes nodes₁) (h₂ : Agree off nodes₁ nodes₂) : Agree off nodes nodes₂ where
  length_le := Nat.le_trans h₁.length_le h₂.length_le
  same i hi hoff := (h₂.same i (Nat.lt_of_lt_of_le hi h₁.length_le) hoff).trans (h₁.same i hi hoff)

theorem mono {off' : List PageNum} (h : Agree off nodes nodes₁) (hsub : ∀ p ∈ off, p ∈ off') :
    Agree off' nodes nodes₁ :=
  ⟨h.length_le, fun i hi hoff => h.same i hi fun p hp => hoff p (hsub p hp)⟩

theorem set (h : Agree off nodes nodes₁) (hp : p ∈ off) (n : Node) :
    Agree off nodes (nodes₁.set p.toNat n) where
  length_le := by
    rw [List.length_set]
    exact h.length_le
  same i hi hoff := by
    rw [List.getElem?_set_ne (hoff p hp)]
    exact h.same i hi hoff

theorem append (h : Agree off nodes nodes₁) (more : List Node) : Agree off nodes (nodes₁ ++ more) where
  length_le := by
    rw [List.length_append]
    exact Nat.le_add_right_of_le h.length_le
  same i hi hoff := by
    rw [List.getElem?_append_left (Nat.lt_of_lt_of_le hi h.length_le)]
    exact h.same i hi hoff

theorem getElem?_eq (h : Agree off nodes nodes₁) (hlt : p.toNat < nodes.length) (hp : p ∉ off) :
    nodes₁[p.toNat]? = nodes[p.toNat]? := by
  apply h.same _ hlt
  intro r hr heq
  exact hp (UInt32.toNat_inj.mp heq ▸ hr)

end Agree

theorem Forest.Stored.agree {h : Nat} {g : Forest (Tree h)} {off : List PageNum} {nodes nodes₁ : List Node}
    (hg : g.Stored nodes) (hagree : Agree off nodes nodes₁) (hoff : ∀ p ∈ g.pages, p ∉ off) :
    g.Stored nodes₁ := by
  apply hg.congr
  intro p hp
  obtain ⟨c, hc, hpc⟩ := List.mem_flatMap.mp hp
  exact hagree.getElem?_eq ((hg c hc).lt_length p hpc) (hoff p hp)

/-! ## Forests in two -/

namespace Forest

variable {h : Nat} {g lower upper : Forest (Tree h)} {promoted : Key}

structure Splits (g lower : Forest (Tree h)) (promoted : Key) (upper : Forest (Tree h)) : Prop where
  keys_eq : g.keys = lower.keys ++ promoted :: upper.keys
  children_eq : g.children = lower.children ++ upper.children

theorem Splits.pages_eq (hg : g.Splits lower promoted upper) : g.pages = lower.pages ++ upper.pages := by
  rw [pages, hg.children_eq, List.flatMap_append]
  rfl

theorem Splits.leaves_eq (hg : g.Splits lower promoted upper) : g.leaves = lower.leaves ++ upper.leaves := by
  rw [leaves, hg.children_eq, List.flatMap_append]
  rfl

theorem Splits.seps_eq (hg : g.Splits lower promoted upper) :
    g.seps = lower.seps ++ promoted :: upper.seps := by
  have hupper : upper.children.map Tree.seps ≠ [] := by
    intro hnil
    have := upper.length_eq
    rw [List.map_eq_nil_iff] at hnil
    simp [hnil] at this
  rw [seps, hg.keys_eq, hg.children_eq, List.map_append, Weave.weave_split (by simp [lower.length_eq]) hupper]
  rfl

theorem Splits.stored (hg : g.Splits lower promoted upper) {nodes : List Node} (hstored : g.Stored nodes) :
    lower.Stored nodes ∧ upper.Stored nodes := by
  constructor
  · intro c hc
    exact hstored c (by rw [hg.children_eq]; exact List.mem_append_left _ hc)
  · intro c hc
    exact hstored c (by rw [hg.children_eq]; exact List.mem_append_right _ hc)

theorem exists_splits {l u : Internal} (hparted : Internal.Parted g.toInternal l promoted u) :
    ∃ lower upper : Forest (Tree h), lower.toInternal = l ∧ upper.toInternal = u
      ∧ g.Splits lower promoted upper := by
  obtain ⟨low, up, hchildren, hlow, hup⟩ := List.map_eq_append_iff.mp hparted.children_eq
  have hlowlen : low.length = l.keys.length + 1 := by
    rw [← hparted.lower_length, ← hlow, List.length_map]
  have huplen : up.length = u.keys.length + 1 := by
    rw [← hparted.upper_length, ← hup, List.length_map]
  refine ⟨⟨l.keys, low, hlowlen⟩, ⟨u.keys, up, huplen⟩, ?_, ?_, hparted.keys_eq, hchildren⟩
  · rw [toInternal, hlow]
  · rw [toInternal, hup]

variable {page q : PageNum}

theorem pages_pair_under (hg : g.Splits lower promoted upper) :
    (pair (lower.under page) promoted (upper.under q)).pages.Perm (page :: g.pages ++ [q]) := by
  have hpages : (pair (lower.under page) promoted (upper.under q)).pages
      = page :: lower.pages ++ q :: upper.pages := by simp [pair, pages]
  rw [hpages, hg.pages_eq, List.perm_iff_count]
  intro x
  simp only [List.count_append, List.count_cons, List.count_nil]
  omega

theorem leaves_pair_under (hg : g.Splits lower promoted upper) :
    (pair (lower.under page) promoted (upper.under q)).leaves = g.leaves := by
  rw [hg.leaves_eq]
  simp [pair, leaves]

theorem seps_pair_under (hg : g.Splits lower promoted upper) :
    (pair (lower.under page) promoted (upper.under q)).seps = g.seps := by
  rw [hg.seps_eq]
  simp [pair, seps, weave, Weave.after]

end Forest

end Tablespace
