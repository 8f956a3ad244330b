import Tablespace.Index.NodePage
import Tablespace.Proofs.Index.Internal
import Tablespace.Proofs.Index.Leaf
import Tablespace.Proofs.Run
import Tablespace.Proofs.Window

/-!
# Nodes on pages

A node with keys of one type and neighbours whose numbers leave the top bit
free is written where it fits on a page, and read back as it was.
-/

namespace Tablespace

open LittleEndian (ofUInt32 toUInt32)

/-! ## Keys -/

namespace Key

def HasType (type : AttributeType) : Key → Prop
  | .int _ => type = .int
  | .real _ => type = .real
  | .varchar _ => type = .varchar

/-- A key that an index of the type may hold. -/
structure Sound (type : AttributeType) (k : Key) : Prop where
  hasType : k.HasType type
  size_le : k.encodedSize ≤ maxSize

variable {type : AttributeType} {k : Key} {offset : Nat} {rest : Bytes}

theorem cut?_four {word : Bytes} (h : word.length = 4) : Bytes.cut? 4 (word ++ rest) = some (word, rest) :=
  Bytes.cut?_eq_some_iff.mpr ⟨rfl, h⟩

theorem cut_encode (htype : k.HasType type) (hsize : k.encodedSize ≤ pageSize) :
    cut type offset (k.encode ++ rest) = .ok (k, rest) := by
  cases k with
  | int i =>
    cases htype
    unfold cut
    simp only [encode, cut?_four (LittleEndian.length_ofUInt32 _)]
    simp [ofContent, pure, Except.pure]
  | real x =>
    cases htype
    unfold cut
    simp only [encode, cut?_four (LittleEndian.length_ofUInt32 _)]
    simp [ofContent, pure, Except.pure]
  | varchar b =>
    cases htype
    have hlen : (UInt32.ofNat b.length).toNat = b.length := by
      apply UInt32.toNat_ofNat_of_lt'
      simp only [encodedSize, pageSize] at hsize
      exact Nat.lt_of_le_of_lt (Nat.le_of_add_left_le hsize) (by decide)
    have hcut : Bytes.cut? b.length (b ++ rest) = some (b, rest) := Bytes.cut?_eq_some_iff.mpr ⟨rfl, rfl⟩
    unfold cut
    simp only [encode, counted, List.append_assoc, cut?_four (LittleEndian.length_ofUInt32 _),
      LittleEndian.toUInt32_ofUInt32, hlen, hcut]
    rfl

variable {a : Attribute} {b : Bytes}

/-- A key has the type of its attribute, and its buffer is the one that it was read from. -/
theorem ofBytes_eq (h : ofBytes a b = .ok k) : k.HasType a.type ∧ k.encode = b := by
  unfold ofBytes keyContent at h
  cases htype : a.type with
  | int =>
    rw [htype] at h
    by_cases hlen : b.length = 4
    · simp [hlen, ofContent] at h
      subst h
      exact ⟨rfl, by simp [encode, LittleEndian.ofUInt32_toUInt32 hlen]⟩
    · simp [hlen] at h
  | real =>
    rw [htype] at h
    by_cases hlen : b.length = 4
    · simp [hlen, ofContent] at h
      subst h
      exact ⟨rfl, by simp [encode, LittleEndian.ofUInt32_toUInt32 hlen]⟩
    · simp [hlen] at h
  | varchar =>
    rw [htype] at h
    cases hcut : b.cut? 4 with
    | none => simp [hcut] at h
    | some parts =>
      obtain ⟨word, text⟩ := parts
      obtain ⟨rfl, hword⟩ := Bytes.cut?_eq_some_iff.mp hcut
      by_cases hcount : text.length = (LittleEndian.toUInt32 word).toNat
      · simp only [hcut, hcount, if_true, true_and] at h
        split at h
        · cases h
        · cases h
          refine ⟨rfl, ?_⟩
          rw [ofContent, encode, counted, hcount, UInt32.ofNat_toNat, LittleEndian.ofUInt32_toUInt32 hword]
      · simp [hcut, hcount] at h

theorem ofBytes_counted {text : Bytes} (htype : a.type = .varchar) (hlen : text.length ≤ a.length.toNat) :
    ofBytes a (counted text) = .ok (.varchar text) := by
  have hsize : text.length < UInt32.size := Nat.lt_of_le_of_lt hlen a.length.toNat_lt
  unfold ofBytes keyContent
  simp only [htype, counted, cut?_four (LittleEndian.length_ofUInt32 _), LittleEndian.toUInt32_ofUInt32,
    UInt32.toNat_ofNat_of_lt' hsize, if_true, true_and, Nat.not_lt.mpr hlen, if_false]
  rfl

theorem ofBytesBounded_eq_ok_iff :
    ofBytesBounded a b = .ok k ↔ ofBytes a b = .ok k ∧ k.encodedSize ≤ maxSize := by
  unfold ofBytesBounded
  cases ofBytes a b with
  | error e => simp [bind, Except.bind]
  | ok l =>
    by_cases hsize : maxSize < l.encodedSize
    · simp only [bind, Except.bind, hsize, if_true, Except.ok.injEq]
      constructor
      · intro h
        cases h
      · intro h
        obtain ⟨rfl, hle⟩ := h
        exact absurd hsize (Nat.not_lt.mpr hle)
    · simp only [bind, Except.bind, hsize, if_false, pure, Except.pure, Except.ok.injEq]
      constructor
      · intro h
        subst h
        exact ⟨rfl, Nat.le_of_not_lt hsize⟩
      · exact And.left

theorem ofBytesBounded_of_large (h : ofBytes a b = .ok k) (hsize : maxSize < k.encodedSize) :
    ofBytesBounded a b = .error (.keyTooLarge k.encodedSize maxSize) := by
  unfold ofBytesBounded
  rw [h]
  simp only [bind, Except.bind, hsize, if_true]
  rfl

theorem sound_of_ofBytesBounded (h : ofBytesBounded a b = .ok k) : k.Sound a.type := by
  obtain ⟨hread, hsize⟩ := ofBytesBounded_eq_ok_iff.mp h
  exact ⟨(ofBytes_eq hread).1, hsize⟩

end Key

/-! ## Nodes -/

namespace Leaf

/-- A leaf of an index of the type, however many bytes it has. -/
structure Formed (type : AttributeType) (l : Leaf) : Prop where
  hasType : ∀ e ∈ l.entries, e.key.HasType type
  prev : ∀ p, l.prev = some p → p.toNat < NodePage.topBit
  next : ∀ p, l.next = some p → p.toNat < NodePage.topBit

structure Sound (type : AttributeType) (l : Leaf) : Prop where
  fits : l.fits = true
  key : ∀ e ∈ l.entries, e.key.Sound type
  prev : ∀ p, l.prev = some p → p.toNat < NodePage.topBit
  next : ∀ p, l.next = some p → p.toNat < NodePage.topBit

end Leaf

namespace Internal

/-- An internal node of an index of the type, however many bytes it has. -/
structure Formed (type : AttributeType) (n : Internal) : Prop where
  hasType : ∀ k ∈ n.keys, k.HasType type
  length_eq : n.children.length = n.keys.length + 1

structure Sound (type : AttributeType) (n : Internal) : Prop where
  fits : n.fits = true
  key : ∀ k ∈ n.keys, k.Sound type
  length_eq : n.children.length = n.keys.length + 1

end Internal

namespace Node

def encodedSize : Node → Nat
  | .leaf l => l.encodedSize
  | .internal n => n.encodedSize

def Formed (type : AttributeType) : Node → Prop
  | .leaf l => l.Formed type
  | .internal n => n.Formed type

def Sound (type : AttributeType) : Node → Prop
  | .leaf l => l.Sound type
  | .internal n => n.Sound type

variable {type : AttributeType} {n : Node}

theorem Sound.encodedSize_le (h : n.Sound type) : n.encodedSize ≤ pageSize := by
  cases n with
  | leaf l => exact of_decide_eq_true h.fits
  | internal n => exact of_decide_eq_true h.fits

theorem Sound.formed (h : n.Sound type) : n.Formed type := by
  cases n with
  | leaf l => exact ⟨fun e he => (h.key e he).hasType, h.prev, h.next⟩
  | internal n => exact ⟨fun k hk => (h.key k hk).hasType, h.length_eq⟩

end Node

namespace NodePage

variable {type : AttributeType} {offset : Nat} {rest : Bytes}

/-! ## Items -/

theorem cutWord_append (w : UInt32) : cutWord offset (ofUInt32 w ++ rest) = .ok (w, rest) := by
  unfold cutWord
  rw [Key.cut?_four (LittleEndian.length_ofUInt32 _)]
  simp

theorem cutEntry_append {e : Entry} (htype : e.key.HasType type)
    (hsize : e.key.encodedSize ≤ pageSize) :
    cutEntry type offset ((entryParts e).flatten ++ rest) = .ok (e, rest) := by
  have hparts : (entryParts e).flatten ++ rest
      = e.key.encode ++ (ofUInt32 e.id.page ++ (ofUInt32 e.id.slot.toUInt32 ++ rest)) := by
    simp [entryParts]
  have hslot : e.id.slot.toUInt32.toNat < UInt16.size := by
    rw [UInt16.toNat_toUInt32]
    exact e.id.slot.toNat_lt
  unfold cutEntry
  simp only [hparts, Key.cut_encode htype hsize, cutWord_append, mapError_ok, bind, Except.bind, hslot,
    if_true]
  simp [pure, Except.pure]

theorem cutChild_append {k : Key} {child : PageNum} (htype : k.HasType type)
    (hsize : k.encodedSize ≤ pageSize) :
    cutChild type offset ((childParts k child).flatten ++ rest) = .ok ((k, child), rest) := by
  have hparts : (childParts k child).flatten ++ rest = k.encode ++ (ofUInt32 child ++ rest) := by
    simp [childParts]
  unfold cutChild
  simp only [hparts, Key.cut_encode htype hsize, cutWord_append, mapError_ok, bind, Except.bind]
  rfl

theorem cutAll_flatMap {α : Type} (cutItem : Nat → Bytes → Except NodeFault (α × Bytes))
    (size : α → Nat) {encode : α → Bytes} {xs : List α}
    (h : ∀ x ∈ xs, ∀ offset rest, cutItem offset (encode x ++ rest) = .ok (x, rest))
    (hne : ∀ x ∈ xs, encode x ≠ []) (fuel : Nat) (hfuel : xs.length ≤ fuel) (offset : Nat) :
    cutAll cutItem size fuel offset (xs.flatMap encode) = .ok xs := by
  induction xs generalizing fuel offset with
  | nil =>
    cases fuel <;> rfl
  | cons x xs ih =>
    obtain ⟨fuel, rfl⟩ : ∃ m, fuel = m + 1 := ⟨fuel - 1, by rw [List.length_cons] at hfuel; omega⟩
    have hcut := h x (by simp) offset (xs.flatMap encode)
    have hrest := ih (fun y hy => h y (by simp [hy])) (fun y hy => hne y (by simp [hy])) fuel
      (by simpa using hfuel) (offset + size x)
    rw [List.flatMap_cons]
    cases hb : encode x ++ xs.flatMap encode with
    | nil => exact absurd (List.append_eq_nil_iff.mp hb).1 (hne x (by simp))
    | cons byte b =>
      unfold cutAll
      rw [← hb]
      simp only [hcut, bind, Except.bind, hrest]
      rfl

theorem length_le_flatMap {α : Type} {encode : α → Bytes} {xs : List α}
    (hne : ∀ x ∈ xs, encode x ≠ []) : xs.length ≤ (xs.flatMap encode).length := by
  induction xs with
  | nil => simp
  | cons x xs ih =>
    have := ih fun y hy => hne y (by simp [hy])
    have := List.length_pos_iff.mpr (hne x (by simp))
    rw [List.flatMap_cons, List.length_append, List.length_cons]
    omega

/-! ## Pages -/

theorem layOut_eq {parts : List Bytes} : ∀ {offset : Nat}, offset + parts.flatten.length ≤ pageSize →
    layOut offset parts = .ok parts.flatten := by
  induction parts with
  | nil => intros; rfl
  | cons part parts ih =>
    intro offset h
    rw [List.flatten_cons, List.length_append] at h
    unfold layOut
    rw [if_pos (by omega), ih (by omega)]
    rfl

/-- The bytes of a page of a first word, the rest of the header and a body. -/
def pageOf (flag : Nat) (header body : Bytes) : Bytes :=
  LittleEndian.ofNat 4 (flag + (4 + header.length + body.length)) ++ header ++ body
    ++ Bytes.zeros (pageSize - (4 + header.length + body.length))

theorem assemble_eq {flag : Nat} {header : Bytes} {parts : List Bytes}
    (h : 4 + header.length + parts.flatten.length ≤ pageSize) :
    assemble flag header parts = .ok (pageOf flag header parts.flatten) := by
  unfold assemble
  simp only [layOut_eq h, mapError_ok, bind, Except.bind]
  rfl

section
variable {header body : Bytes}

theorem used_pageOf (flag : Nat) :
    ((pageOf flag header body).take (4 + header.length + body.length)).drop 4 = header ++ body := by
  rw [pageOf, List.append_assoc, List.append_assoc, List.take_append, LittleEndian.length_ofNat,
    List.take_of_length_le (by rw [LittleEndian.length_ofNat]; omega), List.drop_append,
    LittleEndian.length_ofNat, List.drop_of_length_le (by simp), Nat.sub_self, List.drop_zero,
    List.nil_append, ← List.append_assoc, List.take_append_of_le_length (by rw [List.length_append]; omega),
    List.take_of_length_le (by rw [List.length_append]; omega)]

variable (h : 4 + header.length + body.length ≤ pageSize)
include h

theorem length_pageOf (flag : Nat) : (pageOf flag header body).length = pageSize := by
  simp only [pageOf, List.length_append, LittleEndian.length_ofNat, Bytes.length_zeros]
  omega

theorem uint32At_pageOf {flag : Nat} (hflag : flag ≤ topBit) :
    (pageOf flag header body).uint32At 0
      = .ok (UInt32.ofNat (flag + (4 + header.length + body.length))) := by
  have hsmall : flag + (4 + header.length + body.length) < UInt32.size := by
    simp only [topBit, pageSize] at hflag h
    exact Nat.lt_of_le_of_lt (Nat.add_le_add hflag h) (by decide)
  have hslice : (pageOf flag header body).slice 0 4
      = .ok (LittleEndian.ofNat 4 (flag + (4 + header.length + body.length))) := by
    refine Bytes.slice_eq_ok_iff.mpr ⟨by rw [length_pageOf h]; decide, ?_⟩
    rw [List.drop_zero, pageOf, List.append_assoc, List.append_assoc,
      List.take_append_of_le_length (by simp), List.take_of_length_le (by simp)]
  rw [Bytes.uint32At, hslice]
  simp only [Except.map, toUInt32, LittleEndian.toNat_ofNat, LittleEndian.range_four]
  rw [Nat.mod_eq_of_lt hsmall]

theorem toNode_pageOf_leaf {l : Leaf} (page : PageNum) (hheader : header.length = 8)
    (hl : toLeaf type (header ++ body) = .ok l) :
    toNode (pageOf topBit header body) type page = .ok (.leaf l) := by
  have hword : (UInt32.ofNat (topBit + (4 + header.length + body.length))).toNat
      = topBit + (4 + header.length + body.length) := by
    apply UInt32.toNat_ofNat_of_lt'
    simp only [topBit, pageSize] at h ⊢
    exact Nat.lt_of_le_of_lt (Nat.add_le_add_left h _) (by decide)
  have hstop : (topBit + (4 + header.length + body.length)) % topBit = 4 + header.length + body.length := by
    rw [Nat.add_mod_left]
    exact Nat.mod_eq_of_lt (Nat.lt_of_le_of_lt h (by decide))
  have hok : ¬ (4 + header.length + body.length < Leaf.headerSize
      ∨ pageSize < 4 + header.length + body.length
      ∨ (pageOf topBit header body).length < 4 + header.length + body.length) := by
    rw [length_pageOf h, Leaf.headerSize]
    omega
  unfold toNode
  simp only [uint32At_pageOf h (Nat.le_refl _), mapError_ok, bind, Except.bind, hword, hstop,
    Nat.le_add_right, if_true, hok, if_false, used_pageOf, hl]
  rfl

theorem toNode_pageOf_internal {n : Internal} (page : PageNum) (hheader : header.length = 4)
    (hn : toInternal type (header ++ body) = .ok n) :
    toNode (pageOf 0 header body) type page = .ok (.internal n) := by
  have hsmall : 4 + header.length + body.length < topBit := Nat.lt_of_le_of_lt h (by decide)
  have hword : (UInt32.ofNat (0 + (4 + header.length + body.length))).toNat
      = 4 + header.length + body.length := by
    rw [Nat.zero_add]
    exact UInt32.toNat_ofNat_of_lt' (Nat.lt_trans hsmall (by decide))
  have hok : ¬ (4 + header.length + body.length < Internal.headerSize
      ∨ pageSize < 4 + header.length + body.length
      ∨ (pageOf 0 header body).length < 4 + header.length + body.length) := by
    rw [length_pageOf h, Internal.headerSize]
    omega
  unfold toNode
  simp only [uint32At_pageOf h (Nat.zero_le _), mapError_ok, bind, Except.bind, hword,
    Nat.mod_eq_of_lt hsmall, Nat.not_le.mpr hsmall, if_false, hok, used_pageOf, hn]
  rfl

end

/-! ## Round trip -/

theorem sibling_getD {p : Option PageNum} (h : ∀ q, p = some q → q.toNat < topBit) :
    sibling (p.getD noSibling) = .ok p := by
  cases p with
  | none => rfl
  | some q =>
    have hq := h q rfl
    have hne : q ≠ noSibling := by
      intro heq
      subst heq
      exact absurd hq (by decide)
    rw [Option.getD_some, sibling, if_neg hne, if_pos hq]

theorem length_entryParts (e : Entry) : (entryParts e).flatten.length = Leaf.entrySize e := by
  simp [entryParts, Leaf.entrySize, Key.length_encode]

theorem length_childParts (k : Key) (child : PageNum) :
    (childParts k child).flatten.length = Internal.keySize k := by
  simp [childParts, Internal.keySize, Key.length_encode]

theorem flatten_flatMap {α : Type} (parts : α → List Bytes) (xs : List α) :
    (xs.flatMap parts).flatten = xs.flatMap fun x => (parts x).flatten := by
  induction xs with
  | nil => rfl
  | cons x xs ih => rw [List.flatMap_cons, List.flatten_append, ih, List.flatMap_cons]

theorem length_flatMap_eq {α : Type} {encode : α → Bytes} {size : α → Nat}
    (h : ∀ x, (encode x).length = size x) (xs : List α) :
    (xs.flatMap encode).length = totalSize (xs.map size) := by
  induction xs with
  | nil => rfl
  | cons x xs ih => rw [List.flatMap_cons, List.length_append, ih, h, List.map_cons, totalSize]

/-- A page holds a node: its bytes are those of the node, and they are read back as the node. -/
structure Shows (type : AttributeType) (b : Bytes) (n : Node) : Prop where
  ofNode_eq : ofNode n = .ok b
  length_eq : b.length = pageSize
  toNode_eq : ∀ page, toNode b type page = .ok n

theorem length_entries (es : List Entry) :
    (es.flatMap entryParts).flatten.length = totalSize (es.map Leaf.entrySize) := by
  rw [flatten_flatMap]
  exact length_flatMap_eq length_entryParts es

theorem ofLeaf_shows {l : Leaf} (h : l.Formed type) (hle : l.encodedSize ≤ pageSize) :
    ∃ b, Shows type b (.leaf l) := by
  have hfits : 4 + (ofUInt32 (l.prev.getD noSibling) ++ ofUInt32 (l.next.getD noSibling)).length
      + (l.entries.flatMap entryParts).flatten.length ≤ pageSize := by
    rw [length_entries, List.length_append, LittleEndian.length_ofUInt32,
      LittleEndian.length_ofUInt32]
    exact hle
  have hsize : ∀ e ∈ l.entries, e.key.encodedSize ≤ pageSize := by
    intro e he
    have hentry : e.key.encodedSize + 8 ≤ totalSize (l.entries.map Leaf.entrySize) :=
      le_totalSize (List.mem_map_of_mem he)
    rw [Leaf.encodedSize] at hle
    omega
  have hne : ∀ e ∈ l.entries, (entryParts e).flatten ≠ [] := by
    intro e _ hnil
    have := length_entryParts e
    rw [hnil, Leaf.entrySize, List.length_nil] at this
    omega
  have hread : toLeaf type (ofUInt32 (l.prev.getD noSibling) ++ ofUInt32 (l.next.getD noSibling)
      ++ (l.entries.flatMap entryParts).flatten) = .ok l := by
    have hcut := cutAll_flatMap (cutEntry type) Leaf.entrySize
      (fun e he _ _ => cutEntry_append (h.hasType e he) (hsize e he)) hne _ (length_le_flatMap hne) Leaf.headerSize
    unfold toLeaf
    rw [List.append_assoc, List.take_left' (LittleEndian.length_ofUInt32 _),
      List.drop_left' (LittleEndian.length_ofUInt32 _),
      List.take_left' (LittleEndian.length_ofUInt32 _), ← List.append_assoc,
      List.drop_left' (by simp), flatten_flatMap]
    simp only [LittleEndian.toUInt32_ofUInt32, sibling_getD h.prev, sibling_getD h.next, hcut, bind,
      Except.bind]
    rfl
  exact ⟨_, assemble_eq hfits, length_pageOf hfits _,
    fun page => toNode_pageOf_leaf hfits page (by simp) hread⟩

/-- A node with one child more than separators is a first child and separators, each with the
child to its right. -/
theorem exists_items {n : Internal} (h : n.children.length = n.keys.length + 1) :
    ∃ (first : PageNum) (items : List (Key × PageNum)),
      n = ⟨items.map Prod.fst, first :: items.map Prod.snd⟩ := by
  obtain ⟨keys, children⟩ := n
  cases children with
  | nil => simp at h
  | cons first rest =>
    have hsame : rest.length = keys.length := by simpa using h
    refine ⟨first, keys.zip rest, ?_⟩
    rw [List.map_fst_zip (Nat.le_of_eq hsame.symm), List.map_snd_zip (Nat.le_of_eq hsame)]

theorem zipWith_childParts (items : List (Key × PageNum)) :
    (List.zipWith childParts (items.map Prod.fst) (items.map Prod.snd)).flatten
      = items.flatMap fun item => childParts item.1 item.2 := by
  induction items with
  | nil => rfl
  | cons item items ih =>
    rw [List.map_cons, List.map_cons, List.zipWith_cons_cons, List.flatten_cons, ih, List.flatMap_cons]

theorem length_children (items : List (Key × PageNum)) :
    (List.zipWith childParts (items.map Prod.fst) (items.map Prod.snd)).flatten.flatten.length
      = totalSize ((items.map Prod.fst).map Internal.keySize) := by
  rw [zipWith_childParts, flatten_flatMap, List.map_map]
  exact length_flatMap_eq (fun item => length_childParts item.1 item.2) items

theorem ofInternal_shows {n : Internal} (h : n.Formed type) (hle : n.encodedSize ≤ pageSize) :
    ∃ b, Shows type b (.internal n) := by
  obtain ⟨first, items, rfl⟩ := exists_items h.length_eq
  change Internal.headerSize + totalSize ((items.map Prod.fst).map Internal.keySize) ≤ pageSize at hle
  have hfits : 4 + (ofUInt32 first).length
      + (List.zipWith childParts (items.map Prod.fst) (items.map Prod.snd)).flatten.flatten.length
        ≤ pageSize := by
    rw [length_children, LittleEndian.length_ofUInt32]
    exact hle
  have hsize : ∀ item ∈ items, item.1.encodedSize ≤ pageSize := by
    intro item hitem
    have hkey : item.1.encodedSize + 4 ≤ totalSize ((items.map Prod.fst).map Internal.keySize) :=
      le_totalSize (List.mem_map_of_mem (List.mem_map_of_mem hitem))
    omega
  have hne : ∀ item ∈ items, (childParts item.1 item.2).flatten ≠ [] := by
    intro item _ hnil
    have := length_childParts item.1 item.2
    rw [hnil, Internal.keySize, List.length_nil] at this
    omega
  have hread : toInternal type (ofUInt32 first
      ++ (List.zipWith childParts (items.map Prod.fst) (items.map Prod.snd)).flatten.flatten)
        = .ok ⟨items.map Prod.fst, first :: items.map Prod.snd⟩ := by
    have hcut := cutAll_flatMap (cutChild type) (fun item => Internal.keySize item.1)
      (fun item hitem _ _ => cutChild_append (h.hasType _ (List.mem_map_of_mem hitem)) (hsize item hitem)) hne _
      (length_le_flatMap hne) Internal.headerSize
    unfold toInternal
    rw [List.take_left' (LittleEndian.length_ofUInt32 _), List.drop_left' (LittleEndian.length_ofUInt32 _),
      zipWith_childParts, flatten_flatMap]
    simp only [hcut, bind, Except.bind, LittleEndian.toUInt32_ofUInt32]
    rfl
  exact ⟨_, assemble_eq hfits, length_pageOf hfits _,
    fun page => toNode_pageOf_internal hfits page (by simp) hread⟩

theorem exists_shows {n : Node} (h : n.Formed type) (hle : n.encodedSize ≤ pageSize) :
    ∃ b, Shows type b n := by
  cases n with
  | leaf l => exact ofLeaf_shows h hle
  | internal n => exact ofInternal_shows h hle

theorem ofNode_shows {n : Node} (h : n.Sound type) : ∃ b, Shows type b n :=
  exists_shows h.formed h.encodedSize_le

end NodePage

end Tablespace
