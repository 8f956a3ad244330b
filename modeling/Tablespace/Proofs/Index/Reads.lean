import Tablespace.Proofs.Index.Shape

/-!
# How far traversals go

A file of any content is read no further than its pages go. A computation may
read so many pages, each read takes one of them, and what it has not used is
left for what follows.
-/

namespace Tablespace

namespace Access

section
variable {ε ε' α β : Type} {f : PagedFile} {n m : Nat} {post : α → PagedFile → Nat → Prop}

/-- On `f` the computation reads at most `n` pages. If it succeeds, the postcondition holds of its
value, of the file that it leaves and of a number of pages that are left to read. -/
def Spends (f : PagedFile) (n : Nat) (work : EStateM ε Access α) (post : α → PagedFile → Nat → Prop) : Prop :=
  ∀ c, (∃ a f' c' left, work ⟨some f, c⟩ = .ok a ⟨some f', c'⟩ ∧ c'.reads + left ≤ c.reads + n ∧ post a f' left)
    ∨ ∃ e s, work ⟨some f, c⟩ = .error e s ∧ s.counters.reads ≤ c.reads + n

theorem Spends.pure {a : α} (h : post a f n) : Spends f n (pure a : EStateM ε Access α) post :=
  fun c => .inl ⟨a, f, c, n, rfl, Nat.le_refl _, h⟩

theorem Spends.throw (e : ε) : Spends f n (throw e : EStateM ε Access α) post :=
  fun _ => .inr ⟨e, _, rfl, Nat.le_add_right _ _⟩

theorem Spends.bind {work : EStateM ε Access α} {k : α → EStateM ε Access β} {post' : β → PagedFile → Nat → Prop}
    (h : Spends f n work post) (hk : ∀ a f' left, post a f' left → Spends f' left (k a) post') :
    Spends f n (work >>= k) post' := by
  intro c
  rcases h c with ⟨a, f', c', left, hrun, hle, hpost⟩ | ⟨e, s, hrun, hle⟩
  · rw [run_bind hrun]
    rcases hk a f' left hpost c' with ⟨b, f'', c'', left', hrun', hle', hpost'⟩ | ⟨e, s, hrun', hle'⟩
    · exact .inl ⟨b, f'', c'', left', hrun', Nat.le_trans hle' hle, hpost'⟩
    · exact .inr ⟨e, s, hrun', Nat.le_trans hle' hle⟩
  · exact .inr ⟨e, s, run_bind_error hrun, hle⟩

theorem Spends.mono {work : EStateM ε Access α} {post' : α → PagedFile → Nat → Prop} (h : Spends f n work post)
    (hpost : ∀ a f' left, post a f' left → ∃ left' ≤ left, post' a f' left') : Spends f n work post' := by
  intro c
  rcases h c with ⟨a, f', c', left, hrun, hle, hp⟩ | hfail
  · obtain ⟨left', hless, hp'⟩ := hpost a f' left hp
    exact .inl ⟨a, f', c', left', hrun, by omega, hp'⟩
  · exact .inr hfail

/-- What a computation may not read itself is left behind it. -/
theorem Spends.frame {work : EStateM ε Access α} (h : Spends f n work post) (m : Nat) :
    Spends f (n + m) work fun a f' left => ∃ rest, left = rest + m ∧ post a f' rest := by
  intro c
  rcases h c with ⟨a, f', c', left, hrun, hle, hp⟩ | ⟨e, s, hrun, hle⟩
  · exact .inl ⟨a, f', c', left + m, hrun, by omega, left, rfl, hp⟩
  · exact .inr ⟨e, s, hrun, by omega⟩

theorem Spends.adaptExcept {work : EStateM ε Access α} {g : ε → ε'} (h : Spends f n work post) :
    Spends f n (EStateM.adaptExcept g work) post := by
  intro c
  rcases h c with ⟨a, f', c', left, hrun, hle, hp⟩ | ⟨e, s, hrun, hle⟩
  · exact .inl ⟨a, f', c', left, by simp only [EStateM.adaptExcept, hrun], hle, hp⟩
  · exact .inr ⟨g e, s, by simp only [EStateM.adaptExcept, hrun], hle⟩

theorem spends_liftExcept (x : Except ε α) : Spends f n (liftM x : EStateM ε Access α)
    fun a f' left => f' = f ∧ left = n ∧ x = .ok a := by
  cases x with
  | ok a => exact Spends.pure ⟨rfl, rfl, rfl⟩
  | error e => exact Spends.throw e

theorem spends_get : Spends f n (get : EStateM ε Access Access)
    fun s f' left => f' = f ∧ left = n ∧ s.file = some f :=
  fun c => .inl ⟨⟨some f, c⟩, f, c, n, rfl, Nat.le_refl _, rfl, rfl, rfl⟩

/-! ## Pages -/

theorem spends_pageCount : Spends f n pageCount
    fun count f' left => f' = f ∧ left = n ∧ count = UInt32.ofNat f.pages.length :=
  fun c => .inl ⟨_, f, c, n, run_pageCount, Nat.le_refl _, rfl, rfl, rfl⟩

theorem spends_readPage (page : PageNum) : Spends f (n + 1) (readPage page)
    fun b f' left => f' = f ∧ left = n ∧ ∃ pg, f.pages[page.toNat]? = some pg ∧ b = pg.bytes := by
  intro c
  rcases readPage_cases page pageSize f c with ⟨-, pg, hpg, hrun⟩ | ⟨-, e, hrun⟩
  · exact .inl ⟨_, f, _, n, hrun, by simp only; omega, rfl, rfl, pg, hpg, rfl⟩
  · exact .inr ⟨e, _, hrun, Nat.le_add_right _ _⟩

theorem spends_writePage (page : PageNum) (b : Bytes) :
    Spends f n (writePage page b) fun _ _ left => left = n := by
  intro c
  rcases writePage_cases page b f c with ⟨-, hb, hrun⟩ | ⟨-, e, hrun⟩
  · exact .inl ⟨_, _, _, n, hrun, Nat.le_refl _, rfl⟩
  · exact .inr ⟨e, _, hrun, Nat.le_add_right _ _⟩

theorem spends_appendPage (b : Bytes) : Spends f n (appendPage b) fun _ _ left => left = n := by
  intro c
  rcases appendPage_cases b f c with ⟨hb, hrun⟩ | ⟨-, e, hrun⟩
  · exact .inl ⟨_, _, _, n, hrun, Nat.le_refl _, rfl⟩
  · exact .inr ⟨e, _, hrun, Nat.le_add_right _ _⟩

end

end Access

namespace Index

open Access

section
variable {f : PagedFile} {n : Nat} {type : AttributeType} {k : Key} {id : RecordId}

/-! ## Nodes -/

theorem spends_count : Spends f n (liftM pageCount : IndexM PageNum)
    fun count f' left => f' = f ∧ left = n ∧ count = UInt32.ofNat f.pages.length :=
  spends_pageCount.adaptExcept

theorem spends_readNode (type : AttributeType) (page : PageNum) : Spends f (n + 1) (readNode type page)
    fun node f' left => f' = f ∧ left = n ∧ nodeAt type f page = some node := by
  refine (spends_readPage page).adaptExcept.bind ?_
  rintro b f' left ⟨rfl, rfl, pg, hpg, rfl⟩
  refine (spends_liftExcept _).mono ?_
  rintro node f' left ⟨rfl, rfl, hnode⟩
  refine ⟨_, Nat.le_refl _, rfl, rfl, ?_⟩
  rw [nodeAt, hpg, Option.bind_some, hnode]
  rfl

theorem spends_readLeaf (type : AttributeType) (page : PageNum) : Spends f (n + 1) (readLeaf type page)
    fun l f' left => f' = f ∧ left = n ∧ nodeAt type f page = some (.leaf l) := by
  refine (spends_readNode type page).bind ?_
  rintro (l | i) f' left ⟨rfl, rfl, hnode⟩
  · exact Spends.pure ⟨rfl, rfl, hnode⟩
  · exact Spends.throw _

theorem spends_readInternal (type : AttributeType) (page : PageNum) : Spends f (n + 1) (readInternal type page)
    fun i f' left => f' = f ∧ left = n ∧ nodeAt type f page = some (.internal i) := by
  refine (spends_readNode type page).bind ?_
  rintro (l | i) f' left ⟨rfl, rfl, hnode⟩
  · exact Spends.throw _
  · exact Spends.pure ⟨rfl, rfl, hnode⟩

theorem spends_writeNode (page : PageNum) (node : Node) :
    Spends f n (writeNode page node) fun _ _ left => left = n := by
  refine (spends_liftExcept _).bind ?_
  rintro b f' left ⟨rfl, rfl, -⟩
  exact (spends_writePage page b).adaptExcept

theorem spends_appendNode (node : Node) : Spends f n (appendNode node) fun _ _ left => left = n := by
  refine (spends_liftExcept _).bind ?_
  rintro b f' left ⟨rfl, rfl, -⟩
  exact (spends_appendPage b).adaptExcept

/-! ## Descents -/

/-- A descent reads a node for each page of its path, and the leaf. -/
theorem spends_descend (type : AttributeType) (choose : Internal → Nat) (limit : Nat) (page : PageNum) :
    Spends f limit (descend type choose limit page) fun r f' left => f' = f
      ∧ r.1.length + 1 + left = limit ∧ ∃ l, nodeAt type f r.2 = some (.leaf l) := by
  induction limit generalizing page with
  | zero => exact Spends.throw _
  | succ limit ih =>
    refine (spends_readNode type page).bind ?_
    rintro (l | i) f' left ⟨rfl, rfl, hnode⟩
    · exact Spends.pure ⟨rfl, Nat.add_comm _ _, l, hnode⟩
    · refine (ih _).bind ?_
      rintro ⟨path, leaf⟩ f' left' ⟨rfl, hlen, hleaf⟩
      refine Spends.pure ⟨rfl, ?_, hleaf⟩
      simp only [List.length_cons] at hlen ⊢
      omega

/-- How many pages of the file can be named. -/
def countOf (f : PagedFile) : Nat := (UInt32.ofNat f.pages.length).toNat

theorem spends_descendFromRoot (type : AttributeType) (choose : Internal → Nat) :
    Spends f (countOf f + 1) (descendFromRoot type choose) fun r f' left => f' = f
      ∧ r.1.length + 1 + left = countOf f + 1 ∧ ∃ l, nodeAt type f r.2 = some (.leaf l) := by
  refine spends_count.bind ?_
  rintro count f' left ⟨rfl, rfl, rfl⟩
  exact spends_descend type choose _ root

/-! ## Operations -/

theorem spends_pathTo (type : AttributeType) (k : Key) : Spends f (countOf f + 1) (pathTo type k)
    fun r f' _ => f' = f ∧ r.1.length ≤ countOf f := by
  refine (spends_descendFromRoot type _).mono ?_
  rintro r f' _ ⟨rfl, hlen, -⟩
  exact ⟨_, Nat.le_refl _, rfl, by omega⟩

theorem spends_leafOf (type : AttributeType) (choose : Internal → Nat) : Spends f (countOf f + 1)
    (do return (← descendFromRoot type choose).2 : IndexM PageNum) fun _ f' _ => f' = f := by
  refine (spends_descendFromRoot type choose).bind ?_
  rintro r f' left ⟨rfl, -⟩
  exact Spends.pure rfl

theorem spends_lowerLeaf (type : AttributeType) (k : Key) :
    Spends f (countOf f + 1) (lowerLeaf type k) fun _ f' _ => f' = f :=
  spends_leafOf type _

theorem spends_firstLeaf (type : AttributeType) :
    Spends f (countOf f + 1) (firstLeaf type) fun _ f' _ => f' = f :=
  spends_leafOf type _

theorem spends_search (a : Attribute) (key : Bytes) :
    Spends f (countOf f + 1) (search a key) fun _ f' _ => f' = f := by
  refine (spends_liftExcept _).bind ?_
  rintro k f' left ⟨rfl, rfl, -⟩
  refine (spends_pathTo a.type k).bind ?_
  rintro r f' left ⟨rfl, -⟩
  exact Spends.pure rfl

theorem spends_splitLeaf (type : AttributeType) (page : PageNum) (l : Leaf) :
    Spends f (n + 1) (splitLeaf type page l) fun _ _ left => n ≤ left := by
  unfold splitLeaf
  cases hsplit : l.split with | mk left right =>
  dsimp only
  cases hfirst : right.entries.head? with
  | none => exact Spends.throw _
  | some first =>
    refine spends_count.bind ?_
    rintro rightPage f₁ _ ⟨rfl, rfl, -⟩
    -- Behind the neighbour no more is read.
    have hrest : ∀ (f₂ : PagedFile) m, n ≤ m → Spends f₂ m (do
        let _ ← appendNode (.leaf { right with prev := some page, next := l.next })
        writeNode page (.leaf { left with next := some rightPage })
        return (first.key, rightPage)) fun _ _ left => n ≤ left := by
      intro f₂ m hm
      refine (spends_appendNode _).bind ?_
      rintro _ f₃ _ rfl
      refine (spends_writeNode page _).bind ?_
      rintro _ f₄ _ rfl
      exact Spends.pure hm
    cases hnext : l.next with
    | none =>
      rw [hnext] at hrest
      exact hrest f₁ _ (Nat.le_succ n)
    | some next =>
      rw [hnext] at hrest
      refine (spends_readLeaf type next).bind ?_
      rintro neighbour f₂ _ ⟨rfl, rfl, -⟩
      refine (spends_writeNode next _).bind ?_
      rintro _ f₃ _ rfl
      exact hrest f₃ _ (Nat.le_refl _)

/-- The climb reads each parent on the path once. -/
theorem spends_addSeparator (type : AttributeType) (path : List PageNum) :
    ∀ (f : PagedFile) (separator : Key) (left right : PageNum),
      Spends f (path.length + n) (addSeparator type separator left right path) fun _ _ _ => True := by
  induction path with
  | nil => exact fun _ _ _ _ => Spends.throw _
  | cons parent above ih =>
    intro f separator left right
    rw [List.length_cons, Nat.add_right_comm]
    refine (spends_readInternal type parent).bind ?_
    rintro i f₁ _ ⟨rfl, rfl, -⟩
    dsimp only
    cases hindex : i.children.findIdx? (· = left) with
    | none => exact Spends.throw _
    | some index =>
      dsimp only
      split
      · exact (spends_writeNode parent _).mono fun _ _ left _ => ⟨left, Nat.le_refl _, trivial⟩
      · cases hparted : (i.insertChild index separator right).split? with
        | none => exact Spends.throw _
        | some parts =>
          obtain ⟨lower, promoted, upper⟩ := parts
          dsimp only
          split
          · refine (spends_appendNode _).bind ?_
            rintro lowerPage f₂ _ rfl
            refine (spends_appendNode _).bind ?_
            rintro upperPage f₃ _ rfl
            exact (spends_writeNode root _).mono fun _ _ left _ => ⟨left, Nat.le_refl _, trivial⟩
          · refine (spends_appendNode _).bind ?_
            rintro upperPage f₂ _ rfl
            refine (spends_writeNode parent _).bind ?_
            rintro _ f₃ _ rfl
            exact ih f₃ promoted parent upperPage

theorem spends_insert (a : Attribute) (key : Bytes) (id : RecordId) :
    Spends f (2 * countOf f + 3) (insert a key id) fun _ _ _ => True := by
  refine (spends_liftExcept _).bind ?_
  rintro k f₁ left ⟨rfl, rfl, -⟩
  rw [show 2 * countOf f₁ + 3 = countOf f₁ + 1 + (countOf f₁ + 2) by omega]
  refine ((spends_pathTo a.type k).frame _).bind ?_
  rintro ⟨path, page⟩ f₂ left ⟨rest, rfl, rfl, hpath⟩
  dsimp only at hpath ⊢
  rw [show rest + (countOf f₂ + 2) = rest + countOf f₂ + 1 + 1 from rfl]
  refine (spends_readLeaf a.type page).bind ?_
  rintro l f₃ left ⟨rfl, rfl, -⟩
  split
  · exact (spends_writeNode page _).mono fun _ _ left _ => ⟨left, Nat.le_refl _, trivial⟩
  · refine (spends_splitLeaf a.type page _).bind ?_
    rintro ⟨separator, right⟩ f₄ left hleft
    -- The climb has as much to read as the path is long, by the bound of the descent.
    obtain ⟨more, rfl⟩ : ∃ m, left = path.reverse.length + m := ⟨left - path.length, by
      rw [List.length_reverse]
      omega⟩
    exact spends_addSeparator a.type path.reverse f₄ separator page right

theorem spends_removeFromChain (type : AttributeType) (k : Key) (id : RecordId) (limit : Nat) (page : PageNum) :
    Spends f limit (removeFromChain type k id limit page) fun _ _ _ => True := by
  induction limit generalizing page with
  | zero => exact Spends.pure trivial
  | succ limit ih =>
    refine (spends_readLeaf type page).bind ?_
    rintro l f₁ left ⟨rfl, rfl, -⟩
    cases hremove : l.remove? k id with
    | some l' =>
      refine (spends_writeNode page _).bind ?_
      rintro _ f₂ left rfl
      exact Spends.pure trivial
    | none =>
      dsimp only
      split
      · split
        · exact Spends.pure trivial
        · exact ih _
      · exact Spends.pure trivial

theorem spends_delete (a : Attribute) (key : Bytes) (id : RecordId) :
    Spends f (countOf f + 1 + countOf f) (delete a key id) fun _ _ _ => True := by
  refine (spends_liftExcept _).bind ?_
  rintro k f₁ left ⟨rfl, rfl, -⟩
  refine spends_count.bind ?_
  rintro limit f₂ left ⟨rfl, rfl, rfl⟩
  refine ((spends_lowerLeaf a.type k).frame _).bind ?_
  rintro page f₃ left ⟨rest, rfl, rfl⟩
  rw [Nat.add_comm]
  refine ((spends_removeFromChain a.type k id _ page).frame rest).bind ?_
  rintro (_ | _) f₄ left -
  · exact Spends.throw _
  · exact Spends.pure trivial

end

end Index

end Tablespace
