import Tablespace.Proofs.Index.Halving
import Tablespace.Proofs.Index.Nodes

/-!
# A separator at one parent

A parent takes a separator and the child to its right. If it is then too large
it parts, and either hands the middle separator to its own parent or, if it is
the root, gets the two halves for its children.
-/

namespace Tablespace

open Access

namespace Internal

/-- The node `grown` is `n` with a separator and the child to its right behind the child `left`. -/
structure Added (n grown : Internal) (left : PageNum) (s : Key) (right : PageNum) : Prop where
  split : ∃ keysBefore keysAfter childrenBefore childrenAfter,
    n = ⟨keysBefore ++ keysAfter, childrenBefore ++ left :: childrenAfter⟩
      ∧ grown = ⟨keysBefore ++ s :: keysAfter, childrenBefore ++ left :: right :: childrenAfter⟩
      ∧ childrenBefore.length = keysBefore.length ∧ left ∉ childrenBefore

variable {type : AttributeType} {n grown : Internal} {left right : PageNum} {s : Key}

theorem findIdx?_child {before after : List PageNum} (h : left ∉ before) :
    (before ++ left :: after).findIdx? (· = left) = some before.length := by
  have hnone : before.findIdx? (fun c => decide (c = left)) = none := by
    rw [List.findIdx?_eq_none_iff]
    intro child hchild
    have : child ≠ left := by
      intro heq
      exact h (heq ▸ hchild)
    simp [this]
  simp [List.findIdx?_append, hnone, List.findIdx?_cons]

theorem Added.insertChild_eq (h : Added n grown left s right) :
    ∃ index, n.children.findIdx? (· = left) = some index ∧ n.insertChild index s right = grown := by
  obtain ⟨keysBefore, keysAfter, childrenBefore, childrenAfter, rfl, rfl, hlen, hleft⟩ := h.split
  refine ⟨childrenBefore.length, findIdx?_child hleft, ?_⟩
  have hkeys : (keysBefore ++ keysAfter).insertIdx childrenBefore.length s = keysBefore ++ s :: keysAfter := by
    rw [hlen]
    exact insertIdx_middle s
  have hchildren : (childrenBefore ++ left :: childrenAfter).insertIdx (childrenBefore.length + 1) right
      = childrenBefore ++ left :: right :: childrenAfter := by
    have := @insertIdx_middle _ (childrenBefore ++ [left]) childrenAfter right
    simpa using this
  unfold insertChild
  rw [hkeys, hchildren]

theorem Added.length_eq (h : Added n grown left s right) (hn : n.Sound type) :
    grown.children.length = grown.keys.length + 1 := by
  obtain ⟨keysBefore, keysAfter, childrenBefore, childrenAfter, rfl, rfl, -, -⟩ := h.split
  have := hn.length_eq
  simp only [List.length_append, List.length_cons] at this ⊢
  omega

theorem Added.sound_key (h : Added n grown left s right) (hn : n.Sound type) (hs : s.Sound type) :
    ∀ k ∈ grown.keys, k.Sound type := by
  obtain ⟨keysBefore, keysAfter, childrenBefore, childrenAfter, rfl, rfl, -, -⟩ := h.split
  intro k hk
  rcases List.mem_append.mp hk with hk | hk
  · exact hn.key k (List.mem_append_left _ hk)
  · rcases List.mem_cons.mp hk with rfl | hk
    · exact hs
    · exact hn.key k (List.mem_append_right _ hk)

theorem Added.overfull (h : Added n grown left s right) (hn : n.Sound type) (hs : s.Sound type)
    (hexceeds : ¬ grown.fits) : Overfull grown := by
  have hlength := h.length_eq hn
  have hkey := h.sound_key hn hs
  obtain ⟨index, -, rfl⟩ := h.insertChild_eq
  exact overfull_of_insertChild hn.fits ((Bool.not_eq_true _).mp hexceeds) hlength fun k hk => (hkey k hk).size_le

theorem Added.exists_parted (h : Added n grown left s right) (hn : n.Sound type) (hs : s.Sound type)
    (hexceeds : ¬ grown.fits) :
    ∃ lower promoted upper, grown.split? = some (lower, promoted, upper)
      ∧ Parted grown lower promoted upper
      ∧ lower.Sound type ∧ promoted.Sound type ∧ upper.Sound type := by
  obtain ⟨lower, promoted, upper, hsplit, hparted⟩ := (h.overfull hn hs hexceeds).split?_eq
  have hkey := h.sound_key hn hs
  rw [hparted.keys_eq] at hkey
  refine ⟨lower, promoted, upper, hsplit, hparted, ⟨hparted.lower_fits, ?_, hparted.lower_length⟩, ?_,
    ⟨hparted.upper_fits, ?_, hparted.upper_length⟩⟩
  · exact fun k hk => hkey k (by simp [hk])
  · exact hkey promoted (by simp)
  · exact fun k hk => hkey k (by simp [hk])

end Internal

namespace Index

/-- The nodes when a parent has parted and its upper half is on a new page. -/
def parted (nodes : List Node) (parent : PageNum) (lower upper : Internal) : List Node :=
  (nodes ++ [Node.internal upper]).set parent.toNat (.internal lower)

/-- The nodes when a parent has parted and both halves are on new pages below it. -/
def raised (nodes : List Node) (parent : PageNum) (lower : Internal) (promoted : Key) (upper : Internal) :
    List Node :=
  (nodes ++ [Node.internal lower] ++ [Node.internal upper]).set parent.toNat
    (.internal ⟨[promoted], [UInt32.ofNat nodes.length, UInt32.ofNat (nodes.length + 1)]⟩)

variable {type : AttributeType} {nodes nodes₂ : List Node} {parent left right : PageNum} {above : List PageNum}
  {n grown lower upper : Internal} {s promoted : Key}

section
variable (hnode : nodes[parent.toNat]? = some (.internal n)) (h : n.Added grown left s right)
include hnode h

theorem leads_addSeparator_fits (hs : s.Sound type) (hfits : grown.fits) :
    Leads type (addSeparator type s left right (parent :: above)) nodes ()
      (nodes.set parent.toNat (.internal grown)) := by
  intro f hf
  have hn : n.Sound type := hf.sound _ (List.mem_of_getElem? hnode)
  obtain ⟨hlt, -⟩ := List.getElem?_eq_some_iff.mp hnode
  obtain ⟨index, hindex, hinsert⟩ := h.insertChild_eq
  unfold addSeparator
  refine (looks_readInternal hnode).leads_bind ?_ f hf
  simp only [hindex, hinsert, hfits, if_true]
  exact leads_writeNode (.internal grown) hlt ⟨hfits, h.sound_key hn hs, h.length_eq hn⟩

variable (hexceeds : ¬ grown.fits) (hsplit : grown.split? = some (lower, promoted, upper))
  (hlower : lower.Sound type) (hupper : upper.Sound type)
include hexceeds hsplit hlower hupper

theorem leads_addSeparator_parted (hparent : parent ≠ root)
    (hgo : Leads type (addSeparator type promoted parent (UInt32.ofNat nodes.length) above)
      (parted nodes parent lower upper) () nodes₂) :
    Leads type (addSeparator type s left right (parent :: above)) nodes () nodes₂ := by
  obtain ⟨hlt, -⟩ := List.getElem?_eq_some_iff.mp hnode
  obtain ⟨index, hindex, hinsert⟩ := h.insertChild_eq
  have hlt' : parent.toNat < (nodes ++ [Node.internal upper]).length := by
    rw [List.length_append]
    omega
  unfold addSeparator
  refine (looks_readInternal hnode).leads_bind ?_
  simp only [hindex, hinsert, hexceeds, hsplit, if_neg hparent]
  exact (leads_appendNode (.internal upper) hupper).bind
    ((leads_writeNode (.internal lower) hlt' hlower).bind hgo)

theorem leads_addSeparator_root (hparent : parent = root) (hpromoted : promoted.Sound type) :
    Leads type (addSeparator type s left right (parent :: above)) nodes ()
      (raised nodes parent lower promoted upper) := by
  subst hparent
  obtain ⟨hlt, -⟩ := List.getElem?_eq_some_iff.mp hnode
  obtain ⟨index, hindex, hinsert⟩ := h.insertChild_eq
  have hroot : Internal.Sound type
      ⟨[promoted], [UInt32.ofNat nodes.length, UInt32.ofNat (nodes.length + 1)]⟩ := by
    refine ⟨?_, by simpa using hpromoted, rfl⟩
    have := hpromoted.size_le
    rw [Internal.fits_iff]
    simp only [List.map_cons, List.map_nil, totalSize, Internal.keySize, Internal.headerSize, pageSize,
      Key.maxSize] at this ⊢
    omega
  have hlt' : root.toNat < (nodes ++ [Node.internal lower] ++ [Node.internal upper]).length := by
    rw [List.length_append, List.length_append]
    omega
  have hup : Leads type (appendNode (.internal upper)) (nodes ++ [.internal lower])
      (UInt32.ofNat (nodes.length + 1)) (nodes ++ [.internal lower] ++ [.internal upper]) := by
    have := @leads_appendNode type (nodes ++ [Node.internal lower]) (.internal upper) hupper
    rwa [List.length_append] at this
  unfold addSeparator
  refine (looks_readInternal hnode).leads_bind ?_
  simp only [hindex, hinsert, hexceeds, hsplit, if_true]
  exact (leads_appendNode (.internal lower) hlower).bind
    (hup.bind (leads_writeNode (.internal _) hlt' hroot))

end

end Index

end Tablespace
