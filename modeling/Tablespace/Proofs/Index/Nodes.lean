import Tablespace.Index
import Tablespace.Proofs.Index.NodePage
import Tablespace.Proofs.Run

/-!
# Index files as lists of nodes

An index file shows a list of nodes when each of its pages holds one of them.
A computation leads from one list to another when it does so on every file
that shows the first.
-/

namespace Tablespace

open Access

/-- The pages of the file hold the nodes, and the nodes are sound. -/
structure PagedFile.ShowsNodes (type : AttributeType) (f : PagedFile) (nodes : List Node) : Prop where
  length_eq : f.pages.length = nodes.length
  page : ∀ (i : Nat) pg n, f.pages[i]? = some pg → nodes[i]? = some n → NodePage.Shows type pg.bytes n
  sound : ∀ n ∈ nodes, n.Sound type

namespace Index

section
variable {α β : Type} {type : AttributeType} {nodes nodes₁ nodes₂ : List Node} {a : α} {b : β}
  {e : IndexError}

/-- On every file of the nodes the computation succeeds with `a` and leaves a file of `nodes₁`. -/
def Leads (type : AttributeType) (work : IndexM α) (nodes : List Node) (a : α) (nodes₁ : List Node) :
    Prop :=
  ∀ f : PagedFile, f.ShowsNodes type nodes → ∃ f₁, Does work f a f₁ ∧ f₁.ShowsNodes type nodes₁

/-- On every file of the nodes the computation succeeds with `a` and leaves the file as it was. -/
def Looks (type : AttributeType) (work : IndexM α) (nodes : List Node) (a : α) : Prop :=
  ∀ f : PagedFile, f.ShowsNodes type nodes → Does work f a f

theorem Looks.leads {work : IndexM α} (h : Looks type work nodes a) : Leads type work nodes a nodes :=
  fun f hf => ⟨f, h f hf, hf⟩

theorem Looks.pure (a : α) : Looks type (pure a) nodes a := fun f _ => Does.pure f a

theorem Looks.of_ok {x : Except IndexError α} (h : x = .ok a) : Looks type (liftM x) nodes a :=
  fun _ _ => does_liftExcept h

theorem Looks.bind {x : IndexM α} {k : α → IndexM β} (hx : Looks type x nodes a)
    (hk : Looks type (k a) nodes b) : Looks type (x >>= k) nodes b :=
  fun f hf => (hx f hf).bind (hk f hf)

theorem Leads.bind {x : IndexM α} {k : α → IndexM β} (hx : Leads type x nodes a nodes₁)
    (hk : Leads type (k a) nodes₁ b nodes₂) : Leads type (x >>= k) nodes b nodes₂ := by
  intro f hf
  obtain ⟨f₁, hdoes₁, hf₁⟩ := hx f hf
  obtain ⟨f₂, hdoes₂, hf₂⟩ := hk f₁ hf₁
  exact ⟨f₂, hdoes₁.bind hdoes₂, hf₂⟩

theorem Looks.leads_bind {x : IndexM α} {k : α → IndexM β} (hx : Looks type x nodes a)
    (hk : Leads type (k a) nodes b nodes₁) : Leads type (x >>= k) nodes b nodes₁ :=
  hx.leads.bind hk

end

variable {type : AttributeType} {nodes : List Node} {page : PageNum} {n : Node}

/-! ## Reading -/

theorem looks_pageCount : Looks type (liftM pageCount : IndexM PageNum) nodes (UInt32.ofNat nodes.length) := by
  intro f hf
  rw [← hf.length_eq]
  exact Does.adaptExcept IndexError.file (does_pageCount f)

theorem does_readNode {f : PagedFile} {pg : Page} (hpg : f.pages[page.toNat]? = some pg)
    (hn : NodePage.toNode pg.bytes type page = .ok n) : Does (readNode type page) f n f :=
  (Does.adaptExcept IndexError.file (does_readPage hpg)).bind (does_liftExcept hn)

theorem looks_readNode (h : nodes[page.toNat]? = some n) : Looks type (readNode type page) nodes n := by
  intro f hf
  obtain ⟨hlt, -⟩ := List.getElem?_eq_some_iff.mp h
  have hpg := List.getElem?_eq_getElem (hf.length_eq ▸ hlt)
  exact does_readNode hpg ((hf.page _ _ _ hpg h).toNode_eq page)

theorem looks_readLeaf {l : Leaf} (h : nodes[page.toNat]? = some (.leaf l)) :
    Looks type (readLeaf type page) nodes l :=
  (looks_readNode h).bind (Looks.pure l)

theorem looks_readInternal {n : Internal} (h : nodes[page.toNat]? = some (.internal n)) :
    Looks type (readInternal type page) nodes n :=
  (looks_readNode h).bind (Looks.pure n)

/-! ## Writing -/

theorem leads_writeNode (n : Node) (h : page.toNat < nodes.length) (hn : n.Sound type) :
    Leads type (writeNode page n) nodes () (nodes.set page.toNat n) := by
  intro f hf
  obtain ⟨b, hb⟩ := NodePage.ofNode_shows hn
  have hdoes := does_writePage (hf.length_eq ▸ h) hb.length_eq
  refine ⟨_, (does_liftExcept hb.ofNode_eq).bind (Does.adaptExcept IndexError.file hdoes), ?_, ?_, ?_⟩
  · simp [PagedFile.replace, hf.length_eq]
  · intro i pg m hpg hm
    simp only [PagedFile.replace] at hpg
    by_cases hi : page.toNat = i
    · subst hi
      rw [List.getElem?_set_self (hf.length_eq ▸ h), Option.some.injEq] at hpg
      rw [List.getElem?_set_self h, Option.some.injEq] at hm
      subst hpg hm
      exact hb
    · rw [List.getElem?_set_ne hi] at hpg hm
      exact hf.page i pg m hpg hm
  · intro m hm
    rcases List.mem_or_eq_of_mem_set hm with hm | rfl
    · exact hf.sound m hm
    · exact hn

theorem leads_appendNode (n : Node) (hn : n.Sound type) :
    Leads type (appendNode n) nodes (UInt32.ofNat nodes.length) (nodes ++ [n]) := by
  intro f hf
  obtain ⟨b, hb⟩ := NodePage.ofNode_shows hn
  have hdoes := does_appendPage f hb.length_eq
  rw [hf.length_eq] at hdoes
  refine ⟨_, (does_liftExcept hb.ofNode_eq).bind (Does.adaptExcept IndexError.file hdoes), ?_, ?_, ?_⟩
  · simp [PagedFile.append, hf.length_eq]
  · intro i pg m hpg hm
    simp only [PagedFile.append] at hpg
    rcases Nat.lt_or_ge i nodes.length with hi | hi
    · rw [List.getElem?_append_left (hf.length_eq ▸ hi)] at hpg
      rw [List.getElem?_append_left hi] at hm
      exact hf.page i pg m hpg hm
    · obtain ⟨hlt, -⟩ := List.getElem?_eq_some_iff.mp hm
      obtain rfl : i = nodes.length := by
        rw [List.length_append, List.length_singleton] at hlt
        omega
      rw [← hf.length_eq, List.getElem?_concat_length, Option.some.injEq] at hpg
      rw [List.getElem?_concat_length, Option.some.injEq] at hm
      subst hpg hm
      exact hb
  · intro m hm
    rcases List.mem_append.mp hm with hm | hm
    · exact hf.sound m hm
    · obtain rfl := List.mem_singleton.mp hm
      exact hn

end Index

end Tablespace
