import Tablespace.Proofs.Index.Halving
import Tablespace.Proofs.Index.Order
import Tablespace.Proofs.Index.Sizes

/-!
# Entries of a leaf

On a leaf with its entries in order, an entry is added behind those up to its
key, and the entry that is taken out is the first with the key and the
identifier. A leaf that one entry made too large parts into two that fit.
-/

namespace Tablespace

/-- Entries in the order of their keys. -/
def Sorted (es : List Entry) : Prop := es.Pairwise fun e f => e.key ≤ f.key

/-- Whether an entry has a key that ties and the identifier. -/
def Entry.matches (k : Key) (id : RecordId) (e : Entry) : Bool := e.key.ties k && decide (e.id = id)

namespace Leaf

variable {l : Leaf} {k : Key} {id : RecordId} {es : List Entry}

/-! ## Adding -/

theorem exists_front_upTo (h : Sorted es) (k : Key) :
    ∃ front back, es = front ++ back ∧ (∀ e ∈ front, e.key ≤ k) ∧ ∀ e ∈ back, k < e.key := by
  have hmono : es.Pairwise fun e f => (!k.precedes f.key) = true → (!k.precedes e.key) = true := by
    apply h.imp
    intro e f hef hf
    rw [Bool.not_eq_true', Key.precedes_eq_false_iff] at hf ⊢
    exact le_trans hef hf
  obtain ⟨front, back, rfl, hfront, hback⟩ := exists_parts es hmono
  refine ⟨front, back, rfl, fun e he => ?_, fun e he => ?_⟩
  · have := hfront e he
    rwa [Bool.not_eq_true', Key.precedes_eq_false_iff] at this
  · have := hback e he
    rwa [Bool.not_eq_false', Key.precedes_iff] at this

theorem insert_eq {front back : List Entry} (hl : l.entries = front ++ back)
    (hfront : ∀ e ∈ front, e.key ≤ k) (hback : ∀ e ∈ back, k < e.key) :
    l.insert k id = { l with entries := front ++ ⟨k, id⟩ :: back } := by
  have hpoint : partitionPoint (fun e : Entry => !k.precedes e.key) l.entries = front.length := by
    rw [hl]
    refine partitionPoint_append (fun e he => ?_) fun e he => ?_
    · rw [Bool.not_eq_true', Key.precedes_eq_false_iff]
      exact hfront e he
    · rw [Bool.not_eq_false', Key.precedes_iff]
      exact hback e he
  unfold insert
  simp only [hpoint]
  rw [hl, insertIdx_middle]

/-! ## Taking out -/

theorem exists_run (h : Sorted es) (k : Key) :
    ∃ front run back, es = front ++ (run ++ back) ∧ (∀ e ∈ front, e.key < k)
      ∧ (∀ e ∈ run, e.key.ties k = true) ∧ ∀ e ∈ back, k < e.key := by
  obtain ⟨upTo, back, rfl, hupTo, hback⟩ := exists_front_upTo h k
  have hs : Sorted upTo := (List.pairwise_append.mp h).1
  have hmono : upTo.Pairwise fun e f => f.key.precedes k = true → e.key.precedes k = true := by
    apply hs.imp
    intro e f hef hf
    rw [Key.precedes_iff] at hf ⊢
    exact lt_of_le_of_lt hef hf
  obtain ⟨front, run, rfl, hfront, hrun⟩ := exists_parts upTo hmono
  refine ⟨front, run, back, List.append_assoc .., fun e he => Key.precedes_iff.mp (hfront e he), ?_, hback⟩
  intro e he
  refine Key.ties_iff.mpr ⟨hupTo e (by simp [he]), ?_⟩
  exact Key.precedes_eq_false_iff.mp (hrun e he)

theorem not_ties_of_lt {e : Entry} (h : e.key < k) : e.key.ties k = false := by
  rw [← Bool.not_eq_true, Key.ties_iff]
  intro hties
  exact not_lt_of_ge hties.2 h

theorem not_ties_of_gt {e : Entry} (h : k < e.key) : e.key.ties k = false := by
  rw [← Bool.not_eq_true, Key.ties_iff]
  intro hties
  exact not_lt_of_ge hties.1 h

theorem findIdx?_congr {p q : Entry → Bool} (h : ∀ e ∈ es, p e = q e) : es.findIdx? p = es.findIdx? q := by
  induction es with
  | nil => rfl
  | cons e es ih =>
    rw [List.findIdx?_cons, List.findIdx?_cons, h e (by simp), ih fun f hf => h f (by simp [hf])]

theorem find?_eq (h : Sorted l.entries) : l.find? k id = l.entries.findIdx? (Entry.matches k id) := by
  obtain ⟨front, run, back, hl, hfront, hrun, hback⟩ := exists_run h k
  have hstart : partitionPoint (fun e : Entry => e.key.precedes k) l.entries = front.length := by
    rw [hl]
    apply partitionPoint_append hfront
    intro e he
    rw [Key.precedes_eq_false_iff]
    rcases List.mem_append.mp he with he | he
    · exact (Key.ties_iff.mp (hrun e he)).2
    · exact le_of_lt (hback e he)
  have htake : (run ++ back).takeWhile (fun e => e.key.ties k) = run := by
    rw [List.takeWhile_append_of_pos hrun]
    cases back with
    | nil => simp
    | cons e back => simp [not_ties_of_gt (hback e (by simp))]
  unfold find?
  simp only [hstart]
  rw [hl, List.drop_left, htake, List.findIdx?_append, List.findIdx?_append]
  have hfrontNone : front.findIdx? (Entry.matches k id) = none := by
    rw [List.findIdx?_eq_none_iff]
    intro e he
    simp [Entry.matches, not_ties_of_lt (hfront e he)]
  have hbackNone : back.findIdx? (Entry.matches k id) = none := by
    rw [List.findIdx?_eq_none_iff]
    intro e he
    simp [Entry.matches, not_ties_of_gt (hback e he)]
  have hrunEq : run.findIdx? (Entry.matches k id) = run.findIdx? fun e => e.id = id :=
    findIdx?_congr fun e he => by simp [Entry.matches, hrun e he]
  rw [hfrontNone, hbackNone, hrunEq]
  cases run.findIdx? (fun e => decide (e.id = id)) <;> simp [Nat.add_comm]

theorem remove?_eq (h : Sorted l.entries) :
    l.remove? k id = if l.entries.any (Entry.matches k id)
      then some { l with entries := l.entries.eraseP (Entry.matches k id) } else none := by
  unfold remove?
  rw [find?_eq h, List.eraseP_eq_eraseIdx]
  cases hi : l.entries.findIdx? (Entry.matches k id) with
  | none =>
    rw [List.findIdx?_eq_none_iff] at hi
    have hany : l.entries.any (Entry.matches k id) = false := by
      rw [List.any_eq_false]
      intro e he
      simp [hi e he]
    simp [hany]
  | some i =>
    have hany : l.entries.any (Entry.matches k id) = true := by
      rw [← List.findIdx?_isSome, hi]
      rfl
    simp [hany]

/-! ## Parting -/

theorem fits_iff : l.fits = true ↔ headerSize + totalSize (l.entries.map entrySize) ≤ pageSize :=
  decide_eq_true_iff

structure Overfull (es : List Entry) : Prop where
  key_le : ∀ e ∈ es, e.key.encodedSize ≤ Key.maxSize
  exceeds : pageSize < headerSize + totalSize (es.map entrySize)
  by_one : totalSize (es.map entrySize) ≤ pageSize - headerSize + (Key.maxSize + 8)

/-- One entry makes a leaf that fits no more than its own size too large. -/
theorem overfull_of_insert (hfits : l.fits = true) (hexceeds : (l.insert k id).fits = false)
    (hkey : ∀ e ∈ (l.insert k id).entries, e.key.encodedSize ≤ Key.maxSize) : Overfull (l.insert k id).entries where
  key_le := hkey
  exceeds := by
    rw [← Bool.not_eq_true, fits_iff] at hexceeds
    exact Nat.lt_of_not_le hexceeds
  by_one := by
    have hsum : totalSize ((l.insert k id).entries.map entrySize)
        ≤ totalSize (l.entries.map entrySize) + (Key.maxSize + 8) :=
      totalSize_insertIdx_le fun e he => Nat.add_le_add_right (hkey e he) 8
    have hfits := fits_iff.mp hfits
    simp only [headerSize, pageSize] at hfits ⊢
    omega

theorem Overfull.entrySize_le (h : Overfull es) : ∀ s ∈ es.map entrySize, s ≤ Key.maxSize + 8 := by
  intro s hs
  obtain ⟨e, he, rfl⟩ := List.mem_map.mp hs
  exact Nat.add_le_add_right (h.key_le e he) 8

theorem Overfull.length_gt (h : Overfull es) : 2 ≤ es.length := by
  have hone := totalSize_take_succ_le h.entrySize_le 0
  have hexceeds := h.exceeds
  rcases Nat.lt_or_ge es.length 2 with hlt | hge
  · rw [List.take_of_length_le (by rw [List.length_map]; omega)] at hone
    simp only [List.take_zero, totalSize, Key.maxSize, headerSize, pageSize] at hone hexceeds
    omega
  · exact hge

theorem Overfull.pos (h : Overfull es) : 0 < totalSize (es.map entrySize) := by
  have := h.exceeds
  simp only [headerSize, pageSize] at this
  omega

theorem Overfull.midpoint_lt (h : Overfull es) : sizeMidpoint (es.map entrySize) < es.length := by
  have := (sizeMidpoint_spec h.pos).1
  rwa [List.length_map] at this

/-- No entry alone makes half of a leaf that is too large. -/
theorem Overfull.midpoint_pos (h : Overfull es) : 1 ≤ sizeMidpoint (es.map entrySize) := by
  have hone := totalSize_take_succ_le h.entrySize_le 0
  have hhalf := (sizeMidpoint_spec h.pos).2.2
  have hexceeds := h.exceeds
  apply Nat.one_le_iff_ne_zero.mpr
  intro hzero
  rw [hzero] at hhalf
  simp only [List.take_zero, totalSize, Key.maxSize, headerSize, pageSize] at hone hhalf hexceeds
  omega

/-- A position parts a leaf when it leaves entries on either side that fit on a page. -/
def Parts (es : List Entry) (position : Nat) : Prop :=
  1 ≤ position ∧ position < es.length ∧ fitsParted (es.map entrySize) position = true

theorem parts_iff {position : Nat} : (decide (1 ≤ position) && decide (position < es.length)
    && fitsParted (es.map entrySize) position) = true ↔ Parts es position := by
  rw [Bool.and_eq_true, Bool.and_eq_true, decide_eq_true_iff, decide_eq_true_iff, and_assoc, Parts]

theorem Overfull.parts_midpoint (h : Overfull es) : Parts es (sizeMidpoint (es.map entrySize)) := by
  have htake := totalSize_take_le h.entrySize_le h.pos (Nat.le_max_right 1 _)
  have hdrop := totalSize_drop_le h.entrySize_le h.pos (Nat.le_refl _)
  have hone := h.by_one
  simp only [Key.maxSize, headerSize, pageSize] at htake hdrop hone
  refine ⟨h.midpoint_pos, h.midpoint_lt, ?_⟩
  unfold fitsParted
  rw [Bool.and_eq_true, decide_eq_true_eq, decide_eq_true_eq]
  simp only [headerSize, pageSize]
  omega

/-- A leaf that is too large parts at its midpoint, or at an edge of the run there that parts it. -/
theorem Overfull.splitPoint_eq (h : Overfull es) : ∃ middle left right,
    middle + 1 = sizeMidpoint (es.map entrySize) ∧ es[middle]? = some left ∧ es[middle + 1]? = some right
      ∧ splitPoint es = if left.key.ties right.key then
          ((runEdges es (middle + 1) right.key).find? fun edge =>
            decide (1 ≤ edge) && decide (edge < es.length) && fitsParted (es.map entrySize) edge).getD (middle + 1)
        else middle + 1 := by
  have hlt := h.midpoint_lt
  obtain ⟨middle, hmiddle⟩ : ∃ m, sizeMidpoint (es.map entrySize) = m + 1 :=
    ⟨_, (Nat.sub_add_cancel h.midpoint_pos).symm⟩
  rw [hmiddle] at hlt ⊢
  have hclamp : min (max 1 (min (middle + 1) (max 1 (es.length - 1)))) es.length = middle + 1 := by omega
  have hleft := List.getElem?_eq_getElem (Nat.lt_of_succ_lt hlt)
  have hright := List.getElem?_eq_getElem hlt
  refine ⟨middle, _, _, rfl, hleft, hright, ?_⟩
  unfold splitPoint
  simp only [hmiddle, hclamp, Nat.add_sub_cancel, hleft, hright]

theorem Overfull.parts_splitPoint (h : Overfull es) : Parts es (splitPoint es) := by
  obtain ⟨middle, left, right, hmiddle, -, -, heq⟩ := h.splitPoint_eq
  have hparts := h.parts_midpoint
  rw [← hmiddle] at hparts
  rw [heq]
  split
  · cases hf : (runEdges es (middle + 1) right.key).find? _ with
    | none => exact hparts
    | some edge =>
      have husable := List.find?_some hf
      exact parts_iff.mp husable
  · exact hparts

end Leaf

end Tablespace
