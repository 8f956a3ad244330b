import Tablespace.Proofs.Index.Stands

/-!
# Deletes

A delete looks along the chain from the first leaf that may hold its key, past
empty leaves too, and takes out the first entry that matches. It stops at the
first leaf whose last key is past the key, because nothing behind it matches.
-/

namespace Tablespace

open Access

theorem Entry.not_matches_of_lt {k : Key} {id : RecordId} {e : Entry} (h : e.key < k) :
    e.matches k id = false := by
  rw [Entry.matches, Leaf.not_ties_of_lt h, Bool.false_and]

theorem Entry.not_matches_of_gt {k : Key} {id : RecordId} {e : Entry} (h : k < e.key) :
    e.matches k id = false := by
  rw [Entry.matches, Leaf.not_ties_of_gt h, Bool.false_and]

namespace Index

variable {type : AttributeType} {nodes : List Node} {ls before done after : List Shelf} {p : PageNum}
  {es : List Entry} {k : Key} {id : RecordId}

/-! ## Along the chain -/

theorem sound_eraseP {prev next : Option PageNum} (h : Leaf.Sound type ⟨es, prev, next⟩)
    (test : Entry → Bool) : Leaf.Sound type ⟨es.eraseP test, prev, next⟩ := by
  refine ⟨?_, ?_, h.prev, h.next⟩
  · have hfits := Leaf.fits_iff.mp h.fits
    have := totalSize_sublist ((List.eraseP_sublist (p := test) (l := es)).map Leaf.entrySize)
    rw [Leaf.fits_iff]
    simp only at hfits ⊢
    omega
  · exact fun e he => h.key e (List.mem_of_mem_eraseP he)

section
variable (hchain : Chain nodes none (done ++ (p, es) :: after) none) (hsorted : Sorted es) (limit : Nat)
include hchain hsorted

theorem leads_removeFromChain (hsound : ∀ n ∈ nodes, n.Sound type)
    (hany : es.any (Entry.matches k id) = true) :
    Leads type (removeFromChain type k id (limit + 1) p) nodes true
      (nodes.set p.toNat (.leaf ⟨es.eraseP (Entry.matches k id), lastPage done, firstPage after⟩)) := by
  obtain ⟨-, hleaf, -⟩ := chain_around.mp hchain
  have hremove := @Leaf.remove?_eq ⟨es, lastPage done, firstPage after⟩ k id hsorted
  rw [if_pos hany] at hremove
  have hs : Leaf.Sound type ⟨es, lastPage done, firstPage after⟩ := hsound _ (List.mem_of_getElem? hleaf)
  unfold removeFromChain
  refine (looks_readLeaf hleaf).leads_bind ?_
  simp only [hremove]
  exact (leads_writeNode (.leaf _) (List.getElem?_eq_some_iff.mp hleaf).1 (sound_eraseP hs _)).bind
    (Looks.pure true).leads

theorem looks_removeFromChain (hnone : es.any (Entry.matches k id) = false)
    (hend : after = [] ∨ (es.getLast?.any fun e => k.precedes e.key) = true) :
    Looks type (removeFromChain type k id (limit + 1) p) nodes false := by
  obtain ⟨-, hleaf, -⟩ := chain_around.mp hchain
  have hremove := @Leaf.remove?_eq ⟨es, lastPage done, firstPage after⟩ k id hsorted
  rw [if_neg (by rw [hnone]; exact Bool.false_ne_true)] at hremove
  unfold removeFromChain
  refine (looks_readLeaf hleaf).bind ?_
  simp only [hremove]
  rcases hend with rfl | hpast
  · exact Looks.pure false
  · cases after with
    | nil => exact Looks.pure false
    | cons l after =>
      simp only [firstPage, List.head?_cons, Option.map_some, hpast, if_true]
      exact Looks.pure false

end

theorem removeFromChain_next {l : Shelf} (hchain : Chain nodes none (done ++ (p, es) :: l :: after) none)
    (hsorted : Sorted es) (limit : Nat) (hnone : es.any (Entry.matches k id) = false)
    (hpast : (es.getLast?.any fun e => k.precedes e.key) = false) :
    (∀ b nodes₁, Leads type (removeFromChain type k id limit l.1) nodes b nodes₁ →
      Leads type (removeFromChain type k id (limit + 1) p) nodes b nodes₁)
    ∧ ∀ b, Looks type (removeFromChain type k id limit l.1) nodes b →
      Looks type (removeFromChain type k id (limit + 1) p) nodes b := by
  obtain ⟨-, hleaf, -⟩ := chain_around.mp hchain
  rw [show firstPage (l :: after) = some l.1 from rfl] at hleaf
  have hremove := @Leaf.remove?_eq ⟨es, lastPage done, some l.1⟩ k id hsorted
  rw [if_neg (by rw [hnone]; exact Bool.false_ne_true)] at hremove
  constructor
  · intro b nodes₁ hgo
    unfold removeFromChain
    refine (looks_readLeaf hleaf).leads_bind ?_
    simp only [hremove, hpast, Bool.false_eq_true, if_false]
    exact hgo
  · intro b hgo
    unfold removeFromChain
    refine (looks_readLeaf hleaf).bind ?_
    simp only [hremove, hpast, Bool.false_eq_true, if_false]
    exact hgo

/-- What comes of looking along the chain: the first leaf with a matching entry loses it, or no
leaf has one. -/
theorem removeFromChain_cases {limit : Nat}
    (hchain : Chain nodes none (done ++ (p, es) :: after) none) (hsound : ∀ n ∈ nodes, n.Sound type)
    (hsorted : Sorted (entriesOf ((p, es) :: after))) (hlimit : after.length < limit) (k : Key)
    (id : RecordId) :
    (∃ mid q fs rest, (p, es) :: after = mid ++ (q, fs) :: rest
      ∧ (∀ e ∈ entriesOf mid, e.matches k id = false) ∧ fs.any (Entry.matches k id) = true
      ∧ Leads type (removeFromChain type k id limit p) nodes true
        (nodes.set q.toNat (.leaf ⟨fs.eraseP (Entry.matches k id), lastPage (done ++ mid), firstPage rest⟩)))
    ∨ (∀ e ∈ entriesOf ((p, es) :: after), e.matches k id = false)
      ∧ Looks type (removeFromChain type k id limit p) nodes false := by
  induction after generalizing done p es limit with
  | nil =>
    obtain ⟨limit, rfl⟩ : ∃ m, limit = m + 1 := ⟨limit - 1, by rw [List.length_nil] at hlimit; omega⟩
    have hes : Sorted es := by simpa [entriesOf] using hsorted
    cases hany : es.any (Entry.matches k id) with
    | true =>
      refine .inl ⟨[], p, es, [], rfl, by simp [entriesOf], hany, ?_⟩
      rw [List.append_nil]
      exact leads_removeFromChain hchain hes limit hsound hany
    | false =>
      refine .inr ⟨?_, looks_removeFromChain hchain hes limit hany (.inl rfl)⟩
      simpa [entriesOf] using List.any_eq_false.mp hany
  | cons l after ih =>
    obtain ⟨limit, rfl⟩ : ∃ m, limit = m + 1 := ⟨limit - 1, by omega⟩
    have hall : entriesOf ((p, es) :: l :: after) = es ++ entriesOf (l :: after) := by
      simp [entriesOf]
    rw [hall] at hsorted
    obtain ⟨hes, hrest, hcross⟩ := List.pairwise_append.mp hsorted
    cases hany : es.any (Entry.matches k id) with
    | true =>
      refine .inl ⟨[], p, es, l :: after, rfl, by simp [entriesOf], hany, ?_⟩
      rw [List.append_nil]
      exact leads_removeFromChain hchain hes limit hsound hany
    | false =>
      have hhere : ∀ e ∈ es, e.matches k id = false := by simpa using List.any_eq_false.mp hany
      cases hpast : es.getLast?.any fun e => k.precedes e.key with
      | true =>
        refine .inr ⟨?_, looks_removeFromChain hchain hes limit hany (.inr hpast)⟩
        obtain ⟨last, hlast, hk⟩ := (Option.any_eq_true _ _).mp hpast
        rw [hall]
        intro e he
        rcases List.mem_append.mp he with he | he
        · exact hhere e he
        · have hle : last.key ≤ e.key := hcross last (List.mem_of_getLast? hlast) e he
          exact Entry.not_matches_of_gt (lt_of_lt_of_le (Key.precedes_iff.mp hk) hle)
      | false =>
        have hsplit : done ++ (p, es) :: l :: after = (done ++ [(p, es)]) ++ l :: after := by simp
        obtain ⟨hleads, hlooks⟩ := @removeFromChain_next type _ _ _ _ _ k id l hchain hes limit hany hpast
        rw [hsplit] at hchain
        rcases @ih (done ++ [(p, es)]) l.1 l.2 limit hchain hrest (by simpa using hlimit) with
          ⟨mid, q, fs, rest, heq, hmid, hfs, hgo⟩ | ⟨hno, hgo⟩
        · refine .inl ⟨(p, es) :: mid, q, fs, rest, by rw [List.cons_append, ← heq], ?_, hfs, ?_⟩
          · intro e he
            rw [entriesOf, List.flatMap_cons] at he
            exact (List.mem_append.mp he).elim (hhere e) (hmid e)
          · rw [List.append_assoc, List.singleton_append] at hgo
            exact hleads _ _ hgo
        · refine .inr ⟨?_, hlooks _ hgo⟩
          rw [hall]
          intro e he
          exact (List.mem_append.mp he).elim (hhere e) (hno e)

/-! ## Deleting -/

theorem sorted_line_eraseP {h : Nat} {t : Tree (h + 1)} {q : PageNum} {fs : List Entry}
    (hstands : Stands nodes t (before ++ (q, fs) :: after)) (test : Entry → Bool) :
    (line t.seps (before ++ (q, fs.eraseP test) :: after)).Pairwise (· ≤ ·) := by
  have hlen := hstands.length_eq
  refine hstands.sorted.sublist ?_
  rw [line, line, List.map_append, List.map_append, List.map_cons, List.map_cons]
  refine Weave.weave_sublist ?_ (List.Sublist.map Entry.key List.eraseP_sublist)
  rw [List.length_append, List.length_cons] at hlen
  rw [List.length_map, List.length_map]
  omega

theorem delete_cases {a : Attribute} {key : Bytes} {h : Nat} {t : Tree (h + 1)} {f : PagedFile}
    (hf : f.ShowsNodes a.type nodes) (hstands : Stands nodes t ls) (hsize : nodes.length < UInt32.size)
    (hkey : Key.ofBytesBounded a key = .ok k) (id : RecordId) :
    ((entriesOf ls).any (Entry.matches k id) = true
      ∧ ∃ f₁ nodes₁ ls₁, Does (delete a key id) f () f₁ ∧ f₁.ShowsNodes a.type nodes₁
        ∧ nodes₁.length = nodes.length ∧ Stands nodes₁ t ls₁
        ∧ entriesOf ls₁ = (entriesOf ls).eraseP (Entry.matches k id))
    ∨ (entriesOf ls).any (Entry.matches k id) = false
      ∧ Refuses (delete a key id) f (.entryNotFound k.display id) := by
  obtain ⟨trail, done, p, es, after, hloc, hpass, -, hlower⟩ := hstands.exists_lowerLeaf hsize a.type k
  have hdone := hloc.lt_of_before hstands hpass
  obtain rfl := hloc.leaves_eq
  have hcount : (UInt32.ofNat nodes.length).toNat = nodes.length := UInt32.toNat_ofNat_of_lt' hsize
  have hlimit : after.length < nodes.length := by
    have := hstands.leaves_le
    rw [List.length_append, List.length_cons] at this
    omega
  have hbefore : ∀ e ∈ entriesOf done, e.matches k id = false :=
    fun e he => Entry.not_matches_of_lt (hdone e he)
  have hall : entriesOf (done ++ (p, es) :: after) = entriesOf done ++ entriesOf ((p, es) :: after) := by
    simp [entriesOf]
  have hsorted := hstands.sorted_entries
  rw [hall] at hsorted
  rcases removeFromChain_cases hstands.chain hf.sound (List.pairwise_append.mp hsorted).2.1 hlimit k id with
    ⟨mid, q, fs, rest, heq, hmid, hfs, hgo⟩ | ⟨hno, hgo⟩
  · obtain ⟨f₁, hdoes, hf₁⟩ := hgo f hf
    rw [heq, ← List.append_assoc] at hstands hall ⊢
    have hnone : ∀ e ∈ entriesOf (done ++ mid), ¬ e.matches k id = true := by
      intro e he
      rw [entriesOf, List.flatMap_append] at he
      rw [Bool.not_eq_true]
      exact (List.mem_append.mp he).elim (hbefore e) (hmid e)
    refine .inl ⟨?_, f₁, _, _, ?_, hf₁, List.length_set,
      hstands.set_entries (Nat.le_of_lt hsize) (sorted_line_eraseP hstands _), ?_⟩
    · rw [entriesOf_around, List.any_append, List.any_append, hfs, Bool.or_true, Bool.true_or]
    · unfold delete
      refine (Looks.of_ok hkey f hf).bind ((looks_pageCount f hf).bind ((hlower f hf).bind ?_))
      rw [hcount]
      exact hdoes.bind (Does.pure f₁ ())
    · obtain ⟨e, he, hmatch⟩ := List.any_eq_true.mp hfs
      rw [entriesOf_around, entriesOf_around, List.append_assoc, List.append_assoc,
        List.eraseP_append_right _ hnone, List.eraseP_append_left hmatch _ he]
  · refine .inr ⟨?_, ?_⟩
    · rw [hall, List.any_eq_false]
      intro e he
      rw [Bool.not_eq_true]
      exact (List.mem_append.mp he).elim (hbefore e) (hno e)
    · unfold delete
      refine (Looks.of_ok hkey f hf).bind_fails ((looks_pageCount f hf).bind_fails ((hlower f hf).bind_fails ?_))
      rw [hcount]
      exact (hgo f hf).bind_fails (Fails.throw f _)

end Index

end Tablespace
