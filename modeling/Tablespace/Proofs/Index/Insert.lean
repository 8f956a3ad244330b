import Tablespace.Proofs.Index.Climb
import Tablespace.Proofs.Index.Stands

/-!
# Inserts

An insert puts its entry behind all entries up to its key. If the leaf gets too
large it parts, the right half goes to a new page behind it in the chain, and
its first key climbs the tree as the separator between the halves.
-/

namespace Tablespace

open Access

/-- The entries with one more, behind all up to its key. -/
def place (k : Key) (id : RecordId) (es : List Entry) : List Entry :=
  es.takeWhile (fun e => !k.precedes e.key) ++ ⟨k, id⟩ :: es.dropWhile (fun e => !k.precedes e.key)

section
variable {k : Key} {id : RecordId} {front back : List Entry}

theorem place_append (hfront : ∀ e ∈ front, e.key ≤ k) (hback : ∀ e ∈ back, k < e.key) :
    place k id (front ++ back) = front ++ ⟨k, id⟩ :: back := by
  have hpass : ∀ e ∈ front, (!k.precedes e.key) = true := by
    intro e he
    rw [Bool.not_eq_true', Key.precedes_eq_false_iff]
    exact hfront e he
  have htake : back.takeWhile (fun e => !k.precedes e.key) = [] := by
    cases back with
    | nil => rfl
    | cons e back => simp [Key.precedes_iff.mpr (hback e List.mem_cons_self)]
  have hdrop : back.dropWhile (fun e => !k.precedes e.key) = back := by
    cases back with
    | nil => rfl
    | cons e back => simp [Key.precedes_iff.mpr (hback e List.mem_cons_self)]
  rw [place, List.takeWhile_append_of_pos hpass, List.dropWhile_append_of_pos hpass, htake, hdrop,
    List.append_nil]

theorem pairwise_insert {front back : List Key} (h : (front ++ back).Pairwise (· ≤ ·))
    (hfront : ∀ x ∈ front, x ≤ k) (hback : ∀ x ∈ back, k ≤ x) : (front ++ k :: back).Pairwise (· ≤ ·) := by
  obtain ⟨hf, hb, hcross⟩ := List.pairwise_append.mp h
  refine List.pairwise_append.mpr ⟨hf, List.pairwise_cons.mpr ⟨hback, hb⟩, ?_⟩
  intro x hx y hy
  rcases List.mem_cons.mp hy with rfl | hy
  · exact hfront x hx
  · exact hcross x hx y hy

/-- The key of an element can stand once more before it. -/
theorem pairwise_repeat {front back : List Key} (h : (front ++ k :: back).Pairwise (· ≤ ·)) :
    (front ++ k :: k :: back).Pairwise (· ≤ ·) := by
  obtain ⟨-, hback, hcross⟩ := List.pairwise_append.mp h
  apply pairwise_insert h (fun x hx => hcross x hx k List.mem_cons_self)
  intro x hx
  rcases List.mem_cons.mp hx with rfl | hx
  · exact le_refl x
  · exact (List.pairwise_cons.mp hback).1 x hx

end

namespace Index

variable {type : AttributeType} {nodes : List Node} {ls before after : List Shelf} {p : PageNum}
  {es : List Entry} {k : Key} {id : RecordId}

/-! ## Parting a leaf -/

theorem leads_relink {α : Type} {work : Unit → IndexM α} {a : α} {nodes₂ : List Node}
    (hafter : Chain nodes (some p) after none) (hsound : ∀ n ∈ nodes, n.Sound type)
    {q : PageNum} (hq : q.toNat < NodePage.topBit)
    (hgo : Leads type (work ()) (relinked nodes (some q) after) a nodes₂) :
    Leads type
      (match firstPage after with
        | some next => do
          let neighbour ← readLeaf type next
          work (← writeNode next (.leaf { neighbour with prev := some q }))
        | none => work ())
      nodes a nodes₂ := by
  cases after with
  | nil => exact hgo
  | cons l after =>
    obtain ⟨hl, -⟩ := hafter
    obtain ⟨hlt, -⟩ := List.getElem?_eq_some_iff.mp hl
    have hs : Leaf.Sound type _ := hsound _ (List.mem_of_getElem? hl)
    rw [Option.or_none] at hl hs
    have hs' : Leaf.Sound type ⟨l.2, some q, firstPage after⟩ := by
      refine ⟨hs.fits, hs.key, ?_, hs.next⟩
      intro r hr
      cases hr
      exact hq
    exact (looks_readLeaf hl).leads_bind ((leads_writeNode (.leaf _) hlt hs').bind hgo)

theorem leads_splitLeaf (hchain : Chain nodes none (before ++ (p, es) :: after) none)
    (hsound : ∀ n ∈ nodes, n.Sound type) (hsize : nodes.length < NodePage.topBit) {es' : List Entry}
    (hexceeds : Leaf.Overfull es') (hkey : ∀ e ∈ es', e.key.Sound type) :
    ∃ (left : List Entry) (first : Entry) (right : List Entry), es' = left ++ first :: right
      ∧ Leads type (splitLeaf type p ⟨es', lastPage before, firstPage after⟩) nodes
        (first.key, UInt32.ofNat nodes.length) (leafParted nodes before p left (first :: right) after) := by
  obtain ⟨hpos, hlt, hfits⟩ := hexceeds.parts_splitPoint
  obtain ⟨-, hleaf, hafter⟩ := chain_around.mp hchain
  obtain ⟨hp, -⟩ := List.getElem?_eq_some_iff.mp hleaf
  have hold : Leaf.Sound type ⟨es, lastPage before, firstPage after⟩ := hsound _ (List.mem_of_getElem? hleaf)
  have hq : (UInt32.ofNat nodes.length).toNat < NodePage.topBit := by
    rw [UInt32.toNat_ofNat_of_lt' (Nat.lt_trans hsize (by decide))]
    exact hsize
  have hdrop : es'.drop (Leaf.splitPoint es')
      = es'[Leaf.splitPoint es'] :: es'.drop (Leaf.splitPoint es' + 1) :=
    List.drop_eq_getElem_cons hlt
  have hcut : es' = es'.take (Leaf.splitPoint es') ++ es'.drop (Leaf.splitPoint es') :=
    (List.take_append_drop _ _).symm
  generalize hleft : es'.take (Leaf.splitPoint es') = left at hcut
  generalize hfirst : es'[Leaf.splitPoint es'] = first at hdrop
  generalize hright : es'.drop (Leaf.splitPoint es' + 1) = right at hdrop
  unfold Leaf.fitsParted at hfits
  rw [← List.map_take, ← List.map_drop, hleft, hdrop, Bool.and_eq_true] at hfits
  rw [hdrop] at hcut
  have hleftSound : Leaf.Sound type ⟨left, lastPage before, some (UInt32.ofNat nodes.length)⟩ := by
    refine ⟨hfits.1, ?_, hold.prev, ?_⟩
    · intro e he
      exact hkey e (hcut ▸ List.mem_append_left _ he)
    · intro r hr
      cases hr
      exact hq
  have hrightSound : Leaf.Sound type ⟨first :: right, some p, firstPage after⟩ := by
    refine ⟨hfits.2, ?_, ?_, hold.next⟩
    · intro e he
      exact hkey e (hcut ▸ List.mem_append_right _ he)
    · intro r hr
      cases hr
      exact Nat.lt_trans hp hsize
  have hsplit : Leaf.split ⟨es', lastPage before, firstPage after⟩
      = (⟨left, lastPage before, firstPage after⟩, ⟨first :: right, none, none⟩) := by
    rw [Leaf.split, hleft, hdrop]
  refine ⟨left, first, right, hcut, ?_⟩
  unfold splitLeaf
  rw [hsplit]
  refine looks_pageCount.leads_bind (leads_relink hafter hsound hq ?_)
  refine (leads_appendNode (.leaf _) hrightSound).bind ?_
  refine (leads_writeNode (.leaf _) ?_ hleftSound).bind (Looks.pure _).leads
  rw [List.length_append, length_relinked]
  exact Nat.lt_add_right 1 hp

/-! ## Inserting -/

section
variable {h : Nat} {t : Tree (h + 1)} {trail : Trail (h + 1)} {left right : List Entry} {first : Entry}
  (hstands : Stands nodes t ls) (hloc : Located t ls trail before p es after)
  (hsize : nodes.length < UInt32.size)
include hstands hloc hsize

theorem ready_leafParted (left : List Entry) (first : Entry) (right : List Entry) : Ready trail p (UInt32.ofNat nodes.length)
    (leafParted nodes before p left (first :: right) after) := by
  have hchain := hstands.chain
  have hnodup := hstands.nodup_leaves (Nat.le_of_lt hsize)
  rw [hloc.leaves_eq] at hchain hnodup
  refine ⟨?_, ?_, ?_, ?_⟩
  · rw [hloc.fill_eq]
    exact (keepsTree_leafParted hchain).stored hstands.stored
  · rw [hloc.fill_eq]
    exact hstands.nodup (Nat.le_of_lt hsize)
  · exact (hchain.of_leafParted hnodup hsize left (first :: right)).leaf _ (by simp)
  · rw [hloc.fill_eq]
    intro hmem
    have := hstands.stored.lt_length _ hmem
    rw [UInt32.toNat_ofNat_of_lt' hsize] at this
    exact Nat.lt_irrefl _ this

theorem stands_of_climbed {h' : Nat} {t₁ : Tree (h' + 1)} {nodes₁ : List Node} (hroot : t₁.root = root)
    (hclimbed : Climbed trail p (UInt32.ofNat nodes.length) first.key
      (leafParted nodes before p left (first :: right) after) (.single t₁) nodes₁)
    (hsorted : (line t.seps (before ++ (p, left ++ first :: right) :: after)).Pairwise (· ≤ ·)) :
    Stands nodes₁ t₁ (before ++ (p, left) :: (UInt32.ofNat nodes.length, first :: right) :: after) := by
  have hready := ready_leafParted hstands hloc hsize left first right
  have hchain := hstands.chain
  have hnodup := hstands.nodup_leaves (Nat.le_of_lt hsize)
  rw [hloc.leaves_eq] at hchain hnodup
  have hlen := hclimbed.agree.length_le
  have hperm := hclimbed.pages_perm
  have hleaves := hclimbed.leaves_eq
  have hseps := hclimbed.seps_eq
  rw [length_leafParted] at hlen
  rw [length_leafParted, Forest.pages_single] at hperm
  rw [Forest.leaves_single] at hleaves
  rw [Forest.seps_single] at hseps
  refine ⟨hroot, hclimbed.stored t₁ (List.mem_singleton.mpr rfl), ?_, ?_, ?_, ?_⟩
  · apply hperm.trans
    rw [hloc.fill_eq]
    refine (hstands.pages_perm.append_right _).trans ?_
    rw [← List.singleton_append, ← pagesFrom_succ, pagesFrom_append (Nat.le_succ _) hlen,
      pagesFrom_append (Nat.zero_le _) (Nat.le_of_succ_le hlen)]
  · rw [hleaves, ← hloc.before_eq, ← hloc.after_eq]
    simp
  · -- The climb changes internal nodes only.
    have hparted := hchain.of_leafParted hnodup hsize left (first :: right)
    apply hparted.congr
    intro r hr
    refine hclimbed.agree.getElem?_eq (hparted.lt_length hr) ?_
    intro hmem
    obtain ⟨n, hn⟩ := Trail.internal hready.stored r hmem
    obtain ⟨l, hl⟩ := hparted.leaf r hr
    rw [hl] at hn
    cases hn
  · rw [hloc.line_entries] at hsorted
    rw [hseps, hloc.line_parted]
    have := @pairwise_repeat first.key
      (Weave.before (before.map keysOf) trail.sepsBefore ++ left.map Entry.key)
      (right.map Entry.key ++ Weave.after trail.sepsAfter (after.map keysOf)) (by simpa using hsorted)
    simpa using this

end

/-! ## Where an entry lands -/

/-- The leaf where a key belongs, and the entries of the leaf up to the key and past it. -/
structure Landing {h : Nat} (t : Tree (h + 1)) (ls : List Shelf) (k : Key) (trail : Trail (h + 1))
    (before : List Shelf) (p : PageNum) (front back : List Entry) (after : List Shelf) : Prop where
  located : Located t ls trail before p (front ++ back) after
  sepsBefore_le : ∀ s ∈ trail.sepsBefore, s ≤ k
  lt_sepsAfter : ∀ s ∈ trail.sepsAfter, k < s
  front_le : ∀ e ∈ front, e.key ≤ k
  lt_back : ∀ e ∈ back, k < e.key

theorem exists_landing {h : Nat} {t : Tree (h + 1)} (hstands : Stands nodes t ls)
    (hsize : nodes.length < UInt32.size) (type : AttributeType) (k : Key) :
    ∃ trail before p front back after, Landing t ls k trail before p front back after
      ∧ Looks type (pathTo type k) nodes (trail.pages, p) := by
  have hdown : ∀ s r : Key, s ≤ r → (!k.precedes r) = true → (!k.precedes s) = true := by
    intro s r hsr hr
    rw [Bool.not_eq_true', Key.precedes_eq_false_iff] at hr ⊢
    exact le_trans hsr hr
  obtain ⟨trail, before, p, es, after, hloc, hpass, hfail, hlooks⟩ := hstands.exists_located hdown
  obtain ⟨front, back, rfl, hfront, hback⟩ := Leaf.exists_front_upTo (hloc.sorted_leaf hstands) k
  refine ⟨trail, before, p, front, back, after, ⟨hloc, ?_, ?_, hfront, hback⟩,
    hlooks _ (fun _ => rfl) hsize type⟩
  · intro s hs
    have := hpass s hs
    rwa [Bool.not_eq_true', Key.precedes_eq_false_iff] at this
  · intro s hs
    have := hfail s hs
    rwa [Bool.not_eq_false', Key.precedes_iff] at this

section
variable {h : Nat} {t : Tree (h + 1)} {trail : Trail (h + 1)} {front back : List Entry}
  (hstands : Stands nodes t ls) (hland : Landing t ls k trail before p front back after)
include hstands hland

theorem sorted_line_insert (id : RecordId) :
    (line t.seps (before ++ (p, front ++ ⟨k, id⟩ :: back) :: after)).Pairwise (· ≤ ·) := by
  have hsorted := hstands.sorted
  rw [hland.located.line_eq] at hsorted
  rw [hland.located.line_entries]
  have := @pairwise_insert k (Weave.before (before.map keysOf) trail.sepsBefore ++ front.map Entry.key)
    (back.map Entry.key ++ Weave.after trail.sepsAfter (after.map keysOf)) (by simpa using hsorted) ?_ ?_
  · simpa using this
  · intro x hx
    rcases List.mem_append.mp hx with hx | hx
    · obtain ⟨s, hs, hxs⟩ := hland.located.exists_le_sep hstands x hx
      exact le_trans hxs (hland.sepsBefore_le s hs)
    · obtain ⟨e, he, rfl⟩ := List.mem_map.mp hx
      exact hland.front_le e he
  · intro x hx
    rcases List.mem_append.mp hx with hx | hx
    · obtain ⟨e, he, rfl⟩ := List.mem_map.mp hx
      exact le_of_lt (hland.lt_back e he)
    · obtain ⟨s, hs, hsx⟩ := hland.located.exists_sep_le hstands x hx
      exact le_trans (le_of_lt (hland.lt_sepsAfter s hs)) hsx

theorem place_entriesOf (id : RecordId) :
    place k id (entriesOf ls) = entriesOf before ++ (front ++ ⟨k, id⟩ :: back) ++ entriesOf after := by
  have hall : entriesOf ls = (entriesOf before ++ front) ++ (back ++ entriesOf after) := by
    rw [hland.located.leaves_eq, entriesOf_around]
    simp
  rw [hall, place_append]
  · simp
  · intro e he
    rcases List.mem_append.mp he with he | he
    · obtain ⟨s, hs, hes⟩ := hland.located.key_before hstands he
      exact le_trans hes (hland.sepsBefore_le s hs)
    · exact hland.front_le e he
  · intro e he
    rcases List.mem_append.mp he with he | he
    · exact hland.lt_back e he
    · obtain ⟨s, hs, hse⟩ := hland.located.key_after hstands he
      exact lt_of_lt_of_le (hland.lt_sepsAfter s hs) hse

end

/-! ## Inserting -/

theorem sound_key_insert {front back : List Entry} {prev next : Option PageNum}
    (hold : Leaf.Sound type ⟨front ++ back, prev, next⟩) (hk : k.Sound type) (id : RecordId) :
    ∀ e ∈ front ++ ⟨k, id⟩ :: back, e.key.Sound type := by
  intro e he
  rcases List.mem_append.mp he with he | he
  · exact hold.key e (List.mem_append_left _ he)
  · rcases List.mem_cons.mp he with rfl | he
    · exact hk
    · exact hold.key e (List.mem_append_right _ he)

theorem overfull_insert {front back : List Entry} {prev next : Option PageNum} (hfront : ∀ e ∈ front, e.key ≤ k)
    (hback : ∀ e ∈ back, k < e.key) (hold : Leaf.Sound type ⟨front ++ back, prev, next⟩) (hk : k.Sound type)
    (hexceeds : ¬ (⟨front ++ ⟨k, id⟩ :: back, prev, next⟩ : Leaf).fits) :
    Leaf.Overfull (front ++ ⟨k, id⟩ :: back) := by
  have hkey := sound_key_insert hold hk id
  have hinsert := @Leaf.insert_eq ⟨front ++ back, prev, next⟩ k id front back rfl hfront hback
  have hoverfull := @Leaf.overfull_of_insert ⟨front ++ back, prev, next⟩ k id hold.fits
  rw [hinsert] at hoverfull
  exact hoverfull ((Bool.not_eq_true _).mp hexceeds) fun e he => (hkey e he).size_le

section
variable {f : PagedFile} {h : Nat} {t : Tree (h + 1)} {trail : Trail (h + 1)} {front back : List Entry}
  (hf : f.ShowsNodes type nodes) (hstands : Stands nodes t (before ++ (p, front ++ back) :: after))
  (hland : Landing t (before ++ (p, front ++ back) :: after) k trail before p front back after)
include hf hstands hland

theorem sound_landing : Leaf.Sound type ⟨front ++ back, lastPage before, firstPage after⟩ :=
  hf.sound _ (List.mem_of_getElem? (hland.located.node_eq hstands))

variable (hsize : nodes.length < NodePage.topBit)
include hsize

theorem leads_insert_fits (hk : k.Sound type) (id : RecordId)
    (hfits : (⟨front ++ ⟨k, id⟩ :: back, lastPage before, firstPage after⟩ : Leaf).fits = true) :
    ∃ nodes₁,
      Leads type (writeNode p (.leaf ⟨front ++ ⟨k, id⟩ :: back, lastPage before, firstPage after⟩)) nodes () nodes₁
        ∧ Stands nodes₁ t (before ++ (p, front ++ ⟨k, id⟩ :: back) :: after) ∧ nodes₁.length = nodes.length := by
  have hold := sound_landing hf hstands hland
  have hleaf := hland.located.node_eq hstands
  have hnew : Leaf.Sound type ⟨front ++ ⟨k, id⟩ :: back, lastPage before, firstPage after⟩ :=
    ⟨hfits, sound_key_insert hold hk id, hold.prev, hold.next⟩
  have hsize' : nodes.length ≤ UInt32.size := Nat.le_of_lt (Nat.lt_trans hsize (by decide))
  exact ⟨_, leads_writeNode (.leaf _) (List.getElem?_eq_some_iff.mp hleaf).1 hnew,
    hstands.set_entries hsize' (sorted_line_insert hstands hland id), List.length_set⟩

theorem leads_insert_parted (hk : k.Sound type) (id : RecordId)
    (hexceeds : ¬ (⟨front ++ ⟨k, id⟩ :: back, lastPage before, firstPage after⟩ : Leaf).fits) :
    ∃ (nodes₁ : List Node) (h₁ : Nat) (t₁ : Tree (h₁ + 1)) (ls₁ : List Shelf),
      Leads type (do
        let parted ← splitLeaf type p ⟨front ++ ⟨k, id⟩ :: back, lastPage before, firstPage after⟩
        addSeparator type parted.1 p parted.2 trail.pages.reverse) nodes () nodes₁
      ∧ Stands nodes₁ t₁ ls₁
      ∧ entriesOf ls₁ = entriesOf before ++ (front ++ ⟨k, id⟩ :: back) ++ entriesOf after
      ∧ nodes₁.length ≤ nodes.length + h + 3 := by
  have hold := sound_landing hf hstands hland
  have hsize' : nodes.length < UInt32.size := Nat.lt_trans hsize (by decide)
  obtain ⟨left, first, right, hcut, hsplit⟩ := leads_splitLeaf hstands.chain hf.sound hsize
    (overfull_insert hland.front_le hland.lt_back hold hk hexceeds) (sound_key_insert hold hk id)
  obtain ⟨f₁, -, hf₁⟩ := hsplit f hf
  have hfirst : first.key.Sound type := by
    apply sound_key_insert hold hk id first
    rw [hcut]
    simp
  have hroot : (trail.fill p).root = root := by
    rw [hland.located.fill_eq]
    exact hstands.root_eq
  have hroom : (leafParted nodes before p left (first :: right) after).length + h + 1 < UInt32.size := by
    have := hstands.height_lt
    rw [length_leafParted]
    simp only [NodePage.topBit] at hsize
    simp only [UInt32.size]
    omega
  obtain ⟨h₁, t₁, nodes₁, hroot₁, hclimbed, hlen₁, hclimb⟩ := exists_grown
    (ready_leafParted hstands hland.located hsize' left first right) hroot hf₁.sound hfirst (by omega)
  have hsorted := sorted_line_insert hstands hland id
  rw [hcut] at hsorted
  refine ⟨nodes₁, h₁, t₁, _, hsplit.bind hclimb,
    stands_of_climbed hstands hland.located hsize' hroot₁ hclimbed hsorted, ?_, ?_⟩
  · rw [hcut]
    simp [entriesOf]
  · rw [length_leafParted] at hlen₁
    omega

end

/-- An insert adds a page for each level at most, and two for the root, so that a file becomes no longer
than twice its length and a page. -/
theorem does_insert {a : Attribute} {key : Bytes} {h : Nat} {t : Tree (h + 1)} {f : PagedFile}
    (hf : f.ShowsNodes a.type nodes) (hstands : Stands nodes t ls) (hsize : nodes.length < NodePage.topBit)
    (hkey : Key.ofBytesBounded a key = .ok k) (id : RecordId) :
    ∃ (f₁ : PagedFile) (nodes₁ : List Node) (h₁ : Nat) (t₁ : Tree (h₁ + 1)) (ls₁ : List Shelf),
      Does (insert a key id) f () f₁ ∧ f₁.ShowsNodes a.type nodes₁ ∧ Stands nodes₁ t₁ ls₁
        ∧ entriesOf ls₁ = place k id (entriesOf ls) ∧ nodes₁.length ≤ 2 * nodes.length + 1 := by
  have hk := Key.sound_of_ofBytesBounded hkey
  obtain ⟨trail, before, p, front, back, after, hland, hpath⟩ :=
    exists_landing hstands (Nat.lt_trans hsize (by decide)) a.type k
  obtain rfl := hland.located.leaves_eq
  have hinsert := @Leaf.insert_eq ⟨front ++ back, lastPage before, firstPage after⟩ k id front back rfl
    hland.front_le hland.lt_back
  have hstart : ∀ nodes₁, Leads a.type
      (if (⟨front ++ ⟨k, id⟩ :: back, lastPage before, firstPage after⟩ : Leaf).fits then
        writeNode p (.leaf ⟨front ++ ⟨k, id⟩ :: back, lastPage before, firstPage after⟩)
      else do
        let parted ← splitLeaf a.type p ⟨front ++ ⟨k, id⟩ :: back, lastPage before, firstPage after⟩
        addSeparator a.type parted.1 p parted.2 trail.pages.reverse) nodes () nodes₁ →
      Leads a.type (insert a key id) nodes () nodes₁ := by
    intro nodes₁ hgo
    have hread : Looks a.type (readLeaf a.type p) nodes ⟨front ++ back, lastPage before, firstPage after⟩ :=
      looks_readLeaf (hland.located.node_eq hstands)
    unfold insert
    refine (Looks.of_ok hkey).leads_bind (hpath.leads_bind (hread.leads_bind ?_))
    rw [hinsert]
    exact hgo
  rw [place_entriesOf hstands hland id]
  by_cases hfits : (⟨front ++ ⟨k, id⟩ :: back, lastPage before, firstPage after⟩ : Leaf).fits
  · obtain ⟨nodes₁, hwrite, hstands₁, hlen⟩ := leads_insert_fits hf hstands hland hsize hk id hfits
    obtain ⟨f₁, hdoes, hf₁⟩ := hstart nodes₁ (by rwa [if_pos hfits]) f hf
    exact ⟨f₁, nodes₁, h, t, _, hdoes, hf₁, hstands₁, entriesOf_around _ _ _ _, by omega⟩
  · obtain ⟨nodes₁, h₁, t₁, ls₁, hpart, hstands₁, hentries, hlen⟩ :=
      leads_insert_parted hf hstands hland hsize hk id hfits
    obtain ⟨f₁, hdoes, hf₁⟩ := hstart nodes₁ (by rwa [if_neg hfits]) f hf
    have hheight := hstands.height_lt
    exact ⟨f₁, nodes₁, h₁, t₁, ls₁, hdoes, hf₁, hstands₁, hentries, by omega⟩

end Index

end Tablespace
