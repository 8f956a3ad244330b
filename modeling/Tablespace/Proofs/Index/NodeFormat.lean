import Tablespace.Proofs.Index.NodePage

/-!
# The format of node pages

Nodes and node pages determine each other. A node is written if and only if
it fits, and is read back from its page. What is read from a buffer, whatever
the buffer holds, is written as the used bytes of that buffer with zeros
behind them: a reader accepts nothing that a writer would put another way.
-/

namespace Tablespace

open LittleEndian (ofUInt32 toUInt32)

section
variable {type : AttributeType} {offset : Nat} {b rest : Bytes}

/-! ## Items -/

/-- The bytes that a key is cut off from begin with those of the key. -/
theorem Key.cut_eq_ok {k : Key} (h : cut type offset b = .ok (k, rest)) :
    k.HasType type ∧ b = k.encode ++ rest := by
  unfold cut at h
  cases hcut : b.cut? 4 with
  | none =>
    rw [hcut] at h
    cases h
  | some parts =>
    obtain ⟨word, tail⟩ := parts
    obtain ⟨rfl, hword⟩ := Bytes.cut?_eq_some_iff.mp hcut
    rw [hcut] at h
    cases type with
    | int =>
      cases h
      exact ⟨rfl, by simp [ofContent, encode, LittleEndian.ofUInt32_toUInt32 hword]⟩
    | real =>
      cases h
      exact ⟨rfl, by simp [ofContent, encode, LittleEndian.ofUInt32_toUInt32 hword]⟩
    | varchar =>
      cases htext : tail.cut? (toUInt32 word).toNat with
      | none =>
        simp only [htext] at h
        cases h
      | some parts =>
        obtain ⟨text, tail'⟩ := parts
        obtain ⟨rfl, hlen⟩ := Bytes.cut?_eq_some_iff.mp htext
        simp only [htext] at h
        cases h
        refine ⟨rfl, ?_⟩
        rw [encode, counted, hlen, UInt32.ofNat_toNat, LittleEndian.ofUInt32_toUInt32 hword,
          List.append_assoc]

namespace NodePage

theorem cutWord_eq_ok {w : UInt32} (h : cutWord offset b = .ok (w, rest)) : b = ofUInt32 w ++ rest := by
  unfold cutWord at h
  cases hcut : b.cut? 4 with
  | none =>
    rw [hcut] at h
    cases h
  | some parts =>
    obtain ⟨word, tail⟩ := parts
    obtain ⟨rfl, hword⟩ := Bytes.cut?_eq_some_iff.mp hcut
    rw [hcut] at h
    cases h
    rw [LittleEndian.ofUInt32_toUInt32 hword]

theorem cutEntry_eq_ok {e : Entry} (h : cutEntry type offset b = .ok (e, rest)) :
    e.key.HasType type ∧ b = (entryParts e).flatten ++ rest := by
  unfold cutEntry at h
  obtain ⟨⟨key, _⟩, hkey, h⟩ := bind_eq_ok_iff.mp h
  obtain ⟨⟨page, _⟩, hpage, h⟩ := bind_eq_ok_iff.mp h
  obtain ⟨⟨slot, _⟩, hslot, h⟩ := bind_eq_ok_iff.mp h
  by_cases hsmall : slot.toNat < UInt16.size
  · simp only [hsmall, if_true] at h
    cases h
    obtain ⟨htype, rfl⟩ := Key.cut_eq_ok (mapError_eq_ok_iff.mp hkey)
    obtain rfl := cutWord_eq_ok (mapError_eq_ok_iff.mp hpage)
    obtain rfl := cutWord_eq_ok (mapError_eq_ok_iff.mp hslot)
    have hword : slot.toUInt16.toUInt32 = slot := by
      apply UInt32.toNat_inj.mp
      rw [UInt16.toNat_toUInt32, UInt32.toNat_toUInt16]
      exact Nat.mod_eq_of_lt hsmall
    exact ⟨htype, by simp [entryParts, hword]⟩
  · simp only [hsmall, if_false] at h
    cases h

theorem cutChild_eq_ok {item : Key × PageNum} (h : cutChild type offset b = .ok (item, rest)) :
    item.1.HasType type ∧ b = (childParts item.1 item.2).flatten ++ rest := by
  unfold cutChild at h
  obtain ⟨⟨key, _⟩, hkey, h⟩ := bind_eq_ok_iff.mp h
  obtain ⟨⟨child, _⟩, hchild, h⟩ := bind_eq_ok_iff.mp h
  cases h
  obtain ⟨htype, rfl⟩ := Key.cut_eq_ok (mapError_eq_ok_iff.mp hkey)
  obtain rfl := cutWord_eq_ok (mapError_eq_ok_iff.mp hchild)
  exact ⟨htype, by simp [childParts]⟩

/-- Items are cut off until nothing is left, so they account for every byte. -/
theorem cutAll_eq_ok {α : Type} {cutItem : Nat → Bytes → Except NodeFault (α × Bytes)}
    {size : α → Nat} {encode : α → Bytes} {P : α → Prop}
    (hcut : ∀ offset b x rest, cutItem offset b = .ok (x, rest) → P x ∧ b = encode x ++ rest)
    (hne : ∀ x, 0 < (encode x).length) :
    ∀ {fuel offset : Nat} {b : Bytes} {xs : List α}, b.length ≤ fuel →
      cutAll cutItem size fuel offset b = .ok xs → (∀ x ∈ xs, P x) ∧ b = xs.flatMap encode := by
  intro fuel
  induction fuel with
  | zero =>
    intro offset b xs hfuel h
    obtain rfl := List.length_eq_zero_iff.mp (Nat.le_zero.mp hfuel)
    cases h
    exact ⟨by simp, rfl⟩
  | succ fuel ih =>
    intro offset b xs hfuel h
    cases b with
    | nil =>
      cases h
      exact ⟨by simp, rfl⟩
    | cons byte b =>
      unfold cutAll at h
      obtain ⟨⟨x, rest⟩, hx, h⟩ := bind_eq_ok_iff.mp h
      obtain ⟨ys, hys, h⟩ := bind_eq_ok_iff.mp h
      cases h
      obtain ⟨hP, hb⟩ := hcut _ _ _ _ hx
      have hshorter : rest.length ≤ fuel := by
        have := congrArg List.length hb
        have := hne x
        rw [List.length_append] at *
        omega
      obtain ⟨hPs, rfl⟩ := ih hshorter hys
      exact ⟨List.forall_mem_cons.mpr ⟨hP, hPs⟩, by rw [hb, List.flatMap_cons]⟩

theorem sibling_eq_ok {word : UInt32} {p : Option PageNum} (h : sibling word = .ok p) :
    p.getD noSibling = word ∧ ∀ q, p = some q → q.toNat < topBit := by
  unfold sibling at h
  split at h
  · cases h
    exact ⟨Eq.symm ‹_›, by simp⟩
  · split at h
    · cases h
      refine ⟨rfl, ?_⟩
      rintro q ⟨⟩
      assumption
    · cases h

/-! ## Nodes -/

theorem toLeaf_eq_ok {l : Leaf} (hlen : 8 ≤ b.length) (h : toLeaf type b = .ok l) :
    l.Formed type ∧ b = (ofUInt32 (l.prev.getD noSibling) ++ ofUInt32 (l.next.getD noSibling))
      ++ (l.entries.flatMap entryParts).flatten := by
  unfold toLeaf at h
  obtain ⟨prev, hprev, h⟩ := bind_eq_ok_iff.mp h
  obtain ⟨next, hnext, h⟩ := bind_eq_ok_iff.mp h
  obtain ⟨entries, hentries, h⟩ := bind_eq_ok_iff.mp h
  cases h
  obtain ⟨hprevWord, hprev⟩ := sibling_eq_ok hprev
  obtain ⟨hnextWord, hnext⟩ := sibling_eq_ok hnext
  obtain ⟨htype, hrest⟩ := cutAll_eq_ok (P := fun e => e.key.HasType type)
    (fun _ _ _ _ => cutEntry_eq_ok) (fun e => by rw [length_entryParts, Leaf.entrySize]; omega)
    (Nat.le_refl _) hentries
  refine ⟨⟨htype, hprev, hnext⟩, ?_⟩
  rw [hprevWord, hnextWord, LittleEndian.ofUInt32_toUInt32 (by rw [List.length_take]; omega),
    LittleEndian.ofUInt32_toUInt32 (by rw [List.length_take, List.length_drop]; omega),
    flatten_flatMap, ← hrest, ← List.take_add, List.take_append_drop]

theorem toInternal_eq_ok {n : Internal} (hlen : 4 ≤ b.length) (h : toInternal type b = .ok n) :
    ∃ (first : PageNum) (items : List (Key × PageNum)),
      n = ⟨items.map Prod.fst, first :: items.map Prod.snd⟩
      ∧ (∀ item ∈ items, item.1.HasType type)
      ∧ b = ofUInt32 first
        ++ (List.zipWith childParts (items.map Prod.fst) (items.map Prod.snd)).flatten.flatten := by
  unfold toInternal at h
  obtain ⟨items, hitems, h⟩ := bind_eq_ok_iff.mp h
  cases h
  obtain ⟨htype, hrest⟩ := cutAll_eq_ok (P := fun item => item.1.HasType type)
    (fun _ _ _ _ => cutChild_eq_ok) (fun item => by rw [length_childParts, Internal.keySize]; omega)
    (Nat.le_refl _) hitems
  refine ⟨_, items, rfl, htype, ?_⟩
  rw [LittleEndian.ofUInt32_toUInt32 (by rw [List.length_take]; omega), zipWith_childParts,
    flatten_flatMap, ← hrest, List.take_append_drop]

/-! ## Pages -/

/-- A page is what a buffer holds up to `stop` and zeros, if the first word of the buffer is that
of the page and the bytes behind the word are the header and the body. -/
theorem pageOf_eq {flag stop : Nat} {word : UInt32} {header body : Bytes}
    (hword : b.uint32At 0 = .ok word) (hflag : word.toNat = flag + stop) (hstart : 4 ≤ stop)
    (hstop : stop ≤ b.length) (hused : (b.take stop).drop 4 = header ++ body) :
    4 + header.length + body.length = stop
      ∧ pageOf flag header body = b.take stop ++ Bytes.zeros (pageSize - stop) := by
  have hlength : 4 + header.length + body.length = stop := by
    have := congrArg List.length hused
    rw [List.length_drop, List.length_take, List.length_append] at this
    omega
  have hfirst : LittleEndian.ofNat 4 (flag + stop) = (b.take stop).take 4 := by
    rw [Bytes.uint32At, Bytes.slice_of_le (by omega)] at hword
    cases hword
    rw [← hflag, ← ofUInt32, LittleEndian.ofUInt32_toUInt32 (by simp; omega), List.drop_zero,
      List.take_take, Nat.min_eq_left hstart]
  refine ⟨hlength, ?_⟩
  rw [pageOf, hlength, hfirst, List.append_assoc (List.take 4 _), ← hused, List.take_append_drop]

section
variable {stop : Nat} {word : UInt32} (hword : b.uint32At 0 = .ok word) (hpage : stop ≤ pageSize)
  (hstop : stop ≤ b.length)
include hword hpage hstop

theorem ofLeaf_of_toLeaf {l : Leaf} (hflag : word.toNat = topBit + stop) (hstart : 12 ≤ stop)
    (h : toLeaf type ((b.take stop).drop 4) = .ok l) :
    l.Formed type ∧ ofLeaf l = .ok (b.take stop ++ Bytes.zeros (pageSize - stop)) := by
  have hlen : 8 ≤ ((b.take stop).drop 4).length := by
    rw [List.length_drop, List.length_take]
    omega
  obtain ⟨hformed, hused⟩ := toLeaf_eq_ok hlen h
  obtain ⟨hend, heq⟩ := pageOf_eq hword hflag (by omega) hstop hused
  have hfits := Nat.le_trans (Nat.le_of_eq hend) hpage
  exact ⟨hformed, (assemble_eq hfits).trans (congrArg Except.ok heq)⟩

theorem ofInternal_of_toInternal {n : Internal} (hflag : word.toNat = stop) (hstart : 8 ≤ stop)
    (h : toInternal type ((b.take stop).drop 4) = .ok n) :
    n.Formed type ∧ ofInternal n = .ok (b.take stop ++ Bytes.zeros (pageSize - stop)) := by
  have hlen : 4 ≤ ((b.take stop).drop 4).length := by
    rw [List.length_drop, List.length_take]
    omega
  obtain ⟨first, items, rfl, htype, hused⟩ := toInternal_eq_ok hlen h
  obtain ⟨hend, heq⟩ := pageOf_eq hword (hflag.trans (Nat.zero_add stop).symm) (by omega) hstop hused
  have hfits := Nat.le_trans (Nat.le_of_eq hend) hpage
  refine ⟨⟨?_, by simp⟩, (assemble_eq hfits).trans (congrArg Except.ok heq)⟩
  intro k hk
  obtain ⟨item, hitem, rfl⟩ := List.mem_map.mp hk
  exact htype item hitem

end

/-- What is read from a buffer is written as the buffer up to the end of its used bytes. -/
theorem ofNode_of_toNode {page : PageNum} {n : Node} (h : toNode b type page = .ok n) :
    n.Formed type ∧ ∃ word stop, b.uint32At 0 = .ok word ∧ stop = word.toNat % topBit
      ∧ stop ≤ b.length ∧ stop ≤ pageSize
      ∧ ofNode n = .ok (b.take stop ++ Bytes.zeros (pageSize - stop)) := by
  unfold toNode at h
  obtain ⟨word, hword, h⟩ := bind_eq_ok_iff.mp h
  replace hword := mapError_eq_ok_iff.mp hword
  obtain ⟨stop, hmod⟩ : ∃ stop, stop = word.toNat % topBit := ⟨_, rfl⟩
  simp only [← hmod] at h
  have hlt : word.toNat < topBit + topBit := word.toNat_lt
  by_cases hleaf : topBit ≤ word.toNat
  · simp only [hleaf, if_true] at h
    split at h
    · cases h
    rename_i hrange
    rw [Leaf.headerSize] at hrange
    obtain ⟨l, hl, h⟩ := bind_eq_ok_iff.mp (mapError_eq_ok_iff.mp h)
    cases h
    have hflag : word.toNat = topBit + stop := by
      rw [hmod, Nat.mod_eq_sub_mod hleaf, Nat.mod_eq_of_lt (by omega)]
      omega
    obtain ⟨hformed, heq⟩ := ofLeaf_of_toLeaf hword (by omega) (by omega) hflag (by omega) hl
    exact ⟨hformed, word, stop, hword, hmod, by omega, by omega, heq⟩
  · simp only [hleaf, if_false] at h
    split at h
    · cases h
    rename_i hrange
    rw [Internal.headerSize] at hrange
    obtain ⟨i, hi, h⟩ := bind_eq_ok_iff.mp (mapError_eq_ok_iff.mp h)
    cases h
    have hflag : word.toNat = stop := by
      rw [hmod, Nat.mod_eq_of_lt (by omega)]
    obtain ⟨hformed, heq⟩ := ofInternal_of_toInternal hword (by omega) (by omega) hflag (by omega) hi
    exact ⟨hformed, word, stop, hword, hmod, by omega, by omega, heq⟩

/-- Only the parts that fit are laid out. -/
theorem fits_of_layOut {parts : List Bytes} : ∀ {offset : Nat} {body : Bytes}, offset ≤ pageSize →
    layOut offset parts = .ok body → offset + parts.flatten.length ≤ pageSize := by
  induction parts with
  | nil =>
    intro offset body hoffset _
    simpa using hoffset
  | cons part parts ih =>
    intro offset body _ h
    unfold layOut at h
    by_cases hpart : offset + part.length ≤ pageSize
    · rw [if_pos hpart] at h
      obtain ⟨_, hrest, -⟩ := bind_eq_ok_iff.mp h
      have := ih hpart hrest
      rw [List.flatten_cons, List.length_append]
      omega
    · rw [if_neg hpart] at h
      cases h

theorem fits_of_assemble {flag : Nat} {header out : Bytes} {parts : List Bytes}
    (hheader : 4 + header.length ≤ pageSize) (h : assemble flag header parts = .ok out) :
    4 + header.length + parts.flatten.length ≤ pageSize := by
  unfold assemble at h
  obtain ⟨_, hbody, -⟩ := bind_eq_ok_iff.mp h
  exact fits_of_layOut hheader (mapError_eq_ok_iff.mp hbody)

theorem encodedSize_le_of_ofNode {n : Node} {out : Bytes} (hn : n.Formed type)
    (h : ofNode n = .ok out) : n.encodedSize ≤ pageSize := by
  cases n with
  | leaf l =>
    have hfits := fits_of_assemble (by simp [pageSize]) h
    rw [length_entries, List.length_append, LittleEndian.length_ofUInt32,
      LittleEndian.length_ofUInt32] at hfits
    exact hfits
  | internal n =>
    obtain ⟨first, items, rfl⟩ := exists_items hn.length_eq
    have hfits := fits_of_assemble (by simp [pageSize]) h
    rw [length_children, LittleEndian.length_ofUInt32] at hfits
    exact hfits

/-- A node of the type is written if and only if it fits, on a page that is read back as the node.
A node that is read from a buffer is written as a page that has the used bytes of the buffer, up
to the end that its first word holds, and zeros behind them. -/
theorem mutually_inverse (type : AttributeType) :
    (∀ n : Node, n.Formed type →
      ((∃ out, ofNode n = .ok out) ↔ n.encodedSize ≤ pageSize)
      ∧ ∀ out, ofNode n = .ok out → out.length = pageSize ∧ ∀ page, toNode out type page = .ok n)
    ∧ ∀ (b : Bytes) (page : PageNum) (n : Node), toNode b type page = .ok n →
      n.Formed type ∧ ∃ word stop out, b.uint32At 0 = .ok word ∧ stop = word.toNat % topBit
        ∧ ofNode n = .ok out ∧ out.length = pageSize
        ∧ stop ≤ b.length ∧ out.take stop = b.take stop
        ∧ out.drop stop = Bytes.zeros (pageSize - stop) := by
  constructor
  · intro n hn
    refine ⟨⟨?_, ?_⟩, ?_⟩
    · rintro ⟨out, hout⟩
      exact encodedSize_le_of_ofNode hn hout
    · intro hle
      obtain ⟨out, hout⟩ := exists_shows hn hle
      exact ⟨out, hout.ofNode_eq⟩
    · intro out hout
      obtain ⟨out', hshows⟩ := exists_shows hn (encodedSize_le_of_ofNode hn hout)
      cases hout.symm.trans hshows.ofNode_eq
      exact ⟨hshows.length_eq, hshows.toNode_eq⟩
  · intro b page n h
    obtain ⟨hn, word, stop, hword, hstop, hle, hpage, hout⟩ := ofNode_of_toNode h
    have htake : (b.take stop).length = stop := by
      rw [List.length_take]
      omega
    refine ⟨hn, word, stop, _, hword, hstop, hout, ?_, hle, List.take_left' htake,
      List.drop_left' htake⟩
    rw [List.length_append, htake, Bytes.length_zeros]
    omega

/-- A leaf with a key that is not a number, and a buffer with a byte behind its used ones. -/
theorem mutually_inverse_real :
    (∃ out, ofNode (.leaf ⟨[⟨.real ⟨0x7FC00001⟩, ⟨3, 2⟩⟩], none, some 9⟩) = .ok out
      ∧ ∀ page, toNode out .real page = .ok (.leaf ⟨[⟨.real ⟨0x7FC00001⟩, ⟨3, 2⟩⟩], none, some 9⟩))
    ∧ ∃ out, ofNode (.internal ⟨[.real ⟨0x80000000⟩], [5, 6]⟩) = .ok out
      ∧ out.take 16 = [16, 0, 0, 0, 5, 0, 0, 0, 0, 0, 0, 0x80, 6, 0, 0, 0] := by
  constructor
  · have hformed : Node.Formed .real (.leaf ⟨[⟨.real ⟨0x7FC00001⟩, ⟨3, 2⟩⟩], none, some 9⟩) :=
      ⟨by simp [Key.HasType], by simp, by simp [topBit]⟩
    obtain ⟨hiff, hread⟩ := (mutually_inverse .real).1 _ hformed
    obtain ⟨out, hout⟩ := hiff.mpr (by decide)
    exact ⟨out, hout, (hread out hout).2⟩
  · have hnode : toNode [16, 0, 0, 0, 5, 0, 0, 0, 0, 0, 0, 0x80, 6, 0, 0, 0, 1] .real 1
        = .ok (.internal ⟨[.real ⟨0x80000000⟩], [5, 6]⟩) := by rfl
    obtain ⟨-, word, stop, out, hword, rfl, hout, -, -, htake, -⟩ := (mutually_inverse .real).2 _ _ _ hnode
    cases hword
    exact ⟨out, hout, htake⟩

end NodePage

end

end Tablespace
