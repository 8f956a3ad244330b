import Tablespace.Proofs.Index.Internal
import Tablespace.Proofs.Index.Leaf

/-!
# Nodes that part

A node that one entry or one separator made too large parts into two that fit,
and nothing is lost or put out of order. A leaf parts between two runs of equal
keys unless the run in the middle takes much of a page.
-/

namespace Tablespace

namespace Leaf

variable {es front run back : List Entry} {k k' : Key} {position : Nat}

/-! ## Runs of equal keys -/

/-- The entries with keys that tie. -/
def runOf (es : List Entry) (k : Key) : List Entry := es.filter fun e => e.key.ties k

/-- The bytes of a run on its page. -/
def runSize (es : List Entry) (k : Key) : Nat := totalSize ((runOf es k).map entrySize)

/-- A position between two runs: every key before it is smaller than every key behind it. -/
def Between (es : List Entry) (position : Nat) : Prop :=
  ∀ e ∈ es.take position, ∀ f ∈ es.drop position, e.key < f.key

theorem runOf_congr (h : k.ties k' = true) : runOf es k = runOf es k' := by
  obtain ⟨hle, hge⟩ := Key.ties_iff.mp h
  apply List.filter_congr
  intro e _
  rw [Bool.eq_iff_iff, Key.ties_iff, Key.ties_iff]
  constructor
  · intro he
    exact ⟨le_trans he.1 hle, le_trans hge he.2⟩
  · intro he
    exact ⟨le_trans he.1 hge, le_trans hle he.2⟩

/-- A sorted leaf around the run of a key. -/
structure Around (es front run back : List Entry) (k : Key) : Prop where
  entries_eq : es = front ++ (run ++ back)
  front_lt : ∀ e ∈ front, e.key < k
  run_ties : ∀ e ∈ run, e.key.ties k = true
  lt_back : ∀ e ∈ back, k < e.key

section
variable (h : Around es front run back k)
include h

theorem Around.runOf_eq : runOf es k = run := by
  have hfront : front.filter (fun e => e.key.ties k) = [] :=
    List.filter_eq_nil_iff.mpr fun e he => by simp [not_ties_of_lt (h.front_lt e he)]
  have hback : back.filter (fun e => e.key.ties k) = [] :=
    List.filter_eq_nil_iff.mpr fun e he => by simp [not_ties_of_gt (h.lt_back e he)]
  rw [runOf, h.entries_eq, List.filter_append, List.filter_append, hfront, hback,
    List.filter_eq_self.mpr h.run_ties, List.nil_append, List.append_nil]

theorem Around.between_front : Between es front.length := by
  intro e he f hf
  rw [h.entries_eq, List.take_left] at he
  rw [h.entries_eq, List.drop_left] at hf
  rcases List.mem_append.mp hf with hf | hf
  · exact lt_of_lt_of_le (h.front_lt e he) (Key.ties_iff.mp (h.run_ties f hf)).2
  · exact lt_trans (h.front_lt e he) (h.lt_back f hf)

theorem Around.between_back : Between es (front.length + run.length) := by
  intro e he f hf
  rw [h.entries_eq, ← List.append_assoc, ← List.length_append, List.take_left] at he
  rw [h.entries_eq, ← List.append_assoc, ← List.length_append, List.drop_left] at hf
  rcases List.mem_append.mp he with he | he
  · exact lt_trans (h.front_lt e he) (h.lt_back f hf)
  · exact lt_of_le_of_lt (Key.ties_iff.mp (h.run_ties e he)).1 (h.lt_back f hf)

/-- The key at a position of a leaf has its run there. -/
theorem Around.position_mem {e : Entry} (he : es[position]? = some e) (hties : e.key.ties k = true) :
    front.length ≤ position ∧ position < front.length + run.length := by
  rw [h.entries_eq] at he
  rcases Nat.lt_or_ge position front.length with hlt | hge
  · rw [List.getElem?_append_left hlt] at he
    have := not_ties_of_lt (h.front_lt e (List.mem_of_getElem? he))
    rw [hties] at this
    cases this
  · refine ⟨hge, ?_⟩
    rw [List.getElem?_append_right hge] at he
    rcases Nat.lt_or_ge (position - front.length) run.length with hlt | hge'
    · omega
    · rw [List.getElem?_append_right hge'] at he
      have := not_ties_of_gt (h.lt_back e (List.mem_of_getElem? he))
      rw [hties] at this
      cases this

theorem Around.mem_runEdges (hlow : front.length ≤ position) (hhigh : position ≤ front.length + run.length)
    (edge : Nat) :
    edge ∈ runEdges es position k ↔ edge = front.length ∨ edge = front.length + run.length := by
  have htake : es.take position = front ++ run.take (position - front.length) := by
    rw [h.entries_eq, List.take_append, List.take_of_length_le hlow,
      List.take_append_of_le_length (by omega)]
  have hdrop : es.drop position = run.drop (position - front.length) ++ back := by
    rw [h.entries_eq, List.drop_append, List.drop_eq_nil_of_le hlow, List.nil_append,
      List.drop_append_of_le_length (by omega)]
  have hstart : partitionPoint (fun e : Entry => e.key.precedes k) (es.take position) = front.length := by
    rw [htake]
    apply partitionPoint_append h.front_lt
    intro e he
    rw [Key.precedes_eq_false_iff]
    exact (Key.ties_iff.mp (h.run_ties e (List.mem_of_mem_take he))).2
  have hstop : partitionPoint (fun e : Entry => e.key.ties k) (es.drop position)
      = run.length - (position - front.length) := by
    rw [hdrop, ← List.length_drop]
    apply partitionPoint_append
    · intro e he
      exact h.run_ties e (List.mem_of_mem_drop he)
    · intro e he
      exact not_ties_of_gt (h.lt_back e he)
  have hend : position + (run.length - (position - front.length)) = front.length + run.length := by omega
  unfold runEdges
  simp only [hstart, hstop, hend]
  split
  · simp [or_comm]
  · simp

end

theorem exists_around (h : Sorted es) (k : Key) : ∃ front run back, Around es front run back k := by
  obtain ⟨front, run, back, hes, hfront, hrun, hback⟩ := exists_run h k
  exact ⟨front, run, back, hes, hfront, hrun, hback⟩

theorem key_le_of_le (h : Sorted es) {i j : Nat} {e f : Entry} (he : es[i]? = some e) (hf : es[j]? = some f)
    (hij : i ≤ j) : e.key ≤ f.key := by
  obtain ⟨hi, rfl⟩ := List.getElem?_eq_some_iff.mp he
  obtain ⟨hj, rfl⟩ := List.getElem?_eq_some_iff.mp hf
  rcases Nat.lt_or_eq_of_le hij with hlt | rfl
  · exact List.pairwise_iff_getElem.mp h i j hi hj hlt
  · exact le_refl _

theorem between_of_not_ties (h : Sorted es) {left right : Entry} (hleft : es[position]? = some left)
    (hright : es[position + 1]? = some right) (hties : left.key.ties right.key = false) :
    Between es (position + 1) := by
  have hlt : left.key < right.key := by
    have hle := key_le_of_le h hleft hright (Nat.le_succ position)
    rw [lt_iff_le_not_ge]
    refine ⟨hle, ?_⟩
    intro hge
    rw [Key.ties_iff.mpr ⟨hle, hge⟩] at hties
    cases hties
  intro e he f hf
  obtain ⟨i, hi, rfl⟩ := List.mem_take_iff_getElem.mp he
  obtain ⟨j, hj, rfl⟩ := List.mem_drop_iff_getElem.mp hf
  have hbefore := key_le_of_le h (List.getElem?_eq_getElem (by omega)) hleft (show i ≤ position by omega)
  have hbehind := key_le_of_le h hright (List.getElem?_eq_getElem (by omega)) (Nat.le_add_right (position + 1) j)
  exact lt_of_le_of_lt hbefore (lt_of_lt_of_le hlt hbehind)

/-! ## Small runs are whole -/

section
variable (h : Overfull es)
include h

/-- At the front edge of a small run around the midpoint a leaf can part. -/
theorem Overfull.parts_front (haround : Around es front run back k)
    (hlow : front.length ≤ sizeMidpoint (es.map entrySize))
    (hhigh : sizeMidpoint (es.map entrySize) < front.length + run.length) (hsmall : runSize es k ≤ 1500) :
    Parts es front.length := by
  obtain ⟨-, hhalf, hpast⟩ := sizeMidpoint_spec h.pos
  have hfront := Nat.le_trans (totalSize_take_mono (es.map entrySize) hlow) hhalf
  have hrun := Nat.lt_of_lt_of_le hpast (totalSize_take_mono (es.map entrySize) (Nat.succ_le_of_lt hhigh))
  have hsum := totalSize_take_add_drop (es.map entrySize) front.length
  have hexceeds := h.exceeds
  have hone := h.by_one
  rw [runSize, haround.runOf_eq] at hsmall
  have htake : (es.map entrySize).take front.length = front.map entrySize := by
    rw [haround.entries_eq, List.map_append, List.take_left' (List.length_map _)]
  have htake' : (es.map entrySize).take (front.length + run.length)
      = front.map entrySize ++ run.map entrySize := by
    rw [haround.entries_eq, ← List.append_assoc, List.map_append, List.take_left' (by simp), List.map_append]
  rw [htake', totalSize_append] at hrun
  rw [htake] at hfront hsum
  simp only [Key.maxSize, headerSize, pageSize] at hone hexceeds
  refine ⟨?_, ?_, ?_⟩
  · apply Nat.one_le_iff_ne_zero.mpr
    intro hzero
    rw [List.eq_nil_of_length_eq_zero hzero] at hrun
    simp only [List.map_nil, totalSize] at hrun
    omega
  · have := h.midpoint_lt
    omega
  · unfold fitsParted
    rw [htake, Bool.and_eq_true, decide_eq_true_eq, decide_eq_true_eq]
    simp only [headerSize, pageSize]
    omega

/-- A leaf parts between two runs or inside a large one. -/
theorem Overfull.between_splitPoint (hs : Sorted es) : Between es (splitPoint es)
    ∨ ∃ e, es[splitPoint es]? = some e ∧ 1500 < runSize es e.key := by
  obtain ⟨middle, left, right, hmiddle, hleft, hright, heq⟩ := h.splitPoint_eq
  rw [heq]
  by_cases hties : left.key.ties right.key = true
  · rw [if_pos hties]
    obtain ⟨front, run, back, haround⟩ := exists_around hs right.key
    obtain ⟨hlow, hhigh⟩ := haround.position_mem hright (Key.ties_iff.mpr ⟨le_refl _, le_refl _⟩)
    cases hf : (runEdges es (middle + 1) right.key).find? _ with
    | some edge =>
      refine .inl ?_
      rcases (haround.mem_runEdges hlow (Nat.le_of_lt hhigh) edge).mp (List.mem_of_find?_eq_some hf) with rfl | rfl
      · exact haround.between_front
      · exact haround.between_back
    | none =>
      refine .inr ⟨right, hright, ?_⟩
      apply Nat.lt_of_not_le
      intro hsmall
      have hmem := (haround.mem_runEdges hlow (Nat.le_of_lt hhigh) _).mpr (.inl rfl)
      rw [hmiddle] at hlow hhigh
      have hparts := h.parts_front haround hlow hhigh hsmall
      exact List.find?_eq_none.mp hf _ hmem (parts_iff.mpr hparts)
  · rw [if_neg hties]
    exact .inl (between_of_not_ties hs hleft hright ((Bool.not_eq_true _).mp hties))

end

/-! ## Halves of a leaf -/

/-- What the halves of a leaf are. A run that both have entries of takes more than 1500 bytes. -/
structure Halves (l left right : Leaf) : Prop where
  left_nonempty : left.entries ≠ []
  right_nonempty : right.entries ≠ []
  left_fits : left.fits = true
  right_fits : right.fits = true
  entries_eq : left.entries ++ right.entries = l.entries
  ordered : ∀ e ∈ left.entries, ∀ f ∈ right.entries, e.key ≤ f.key
  divided : ∀ e ∈ left.entries, ∀ f ∈ right.entries, e.key.ties f.key = true → 1500 < runSize l.entries f.key
  separator_gt : ∀ first ∈ right.entries.head?, runSize l.entries first.key ≤ 1500 →
    ∀ e ∈ left.entries, e.key < first.key

theorem Overfull.runSize_gt (h : Overfull es) (hs : Sorted es) {e f : Entry} (he : e ∈ es.take (splitPoint es))
    (hf : f ∈ es.drop (splitPoint es)) (hties : e.key.ties f.key = true) : 1500 < runSize es f.key := by
  obtain ⟨hef, hfe⟩ := Key.ties_iff.mp hties
  rcases h.between_splitPoint hs with hbetween | ⟨g, hg, hlarge⟩
  · exact absurd (hbetween e he f hf) (Key.not_lt.mpr hfe)
  · -- The key at the split point lies between two keys that tie.
    obtain ⟨hlt, rfl⟩ := List.getElem?_eq_some_iff.mp hg
    have hdrop := List.drop_eq_getElem_cons hlt
    rw [← List.take_append_drop (splitPoint es) es, hdrop, Sorted, List.pairwise_append, List.pairwise_cons] at hs
    obtain ⟨-, ⟨hbehind, -⟩, hcross⟩ := hs
    have hge : es[splitPoint es].key ≤ f.key := by
      rw [hdrop] at hf
      rcases List.mem_cons.mp hf with rfl | hf
      · exact le_refl _
      · exact hbehind f hf
    have hle := le_trans hfe (hcross e he _ List.mem_cons_self)
    rwa [runSize, runOf_congr (Key.ties_iff.mpr ⟨hge, hle⟩)] at hlarge

theorem ordered_of_sorted (hs : Sorted es) (position : Nat) :
    ∀ e ∈ es.take position, ∀ f ∈ es.drop position, e.key ≤ f.key := by
  rw [← List.take_append_drop position es] at hs
  exact (List.pairwise_append.mp hs).2.2

theorem Overfull.halves {l : Leaf} (h : Overfull l.entries) (hs : Sorted l.entries) :
    Halves l l.split.1 l.split.2 := by
  obtain ⟨hpos, hlt, hfits⟩ := h.parts_splitPoint
  unfold fitsParted at hfits
  rw [← List.map_take, ← List.map_drop, Bool.and_eq_true] at hfits
  constructor
  case left_nonempty =>
    apply List.ne_nil_of_length_pos
    change 0 < (l.entries.take _).length
    rw [List.length_take]
    omega
  case right_nonempty =>
    apply List.ne_nil_of_length_pos
    change 0 < (l.entries.drop _).length
    rw [List.length_drop]
    omega
  case left_fits => exact hfits.1
  case right_fits => exact hfits.2
  case entries_eq => exact List.take_append_drop _ _
  case ordered => exact ordered_of_sorted hs _
  case divided => exact fun e he f hf hties => h.runSize_gt hs he hf hties
  case separator_gt =>
    intro first hfirst hsmall e he
    have hmem := List.mem_of_head? hfirst
    have hle := ordered_of_sorted hs _ e he first hmem
    rw [lt_iff_le_not_ge]
    refine ⟨hle, ?_⟩
    intro hge
    exact Nat.not_lt.mpr hsmall (h.runSize_gt hs he hmem (Key.ties_iff.mpr ⟨hle, hge⟩))

/-- A leaf that one entry made too large parts into two that fit. -/
theorem halves_of_insert {l : Leaf} {id : RecordId} (hfits : l.fits = true) (hexceeds : (l.insert k id).fits = false)
    (hkey : ∀ e ∈ (l.insert k id).entries, e.key.encodedSize ≤ Key.maxSize)
    (hsorted : Sorted (l.insert k id).entries) :
    Halves (l.insert k id) (l.insert k id).split.1 (l.insert k id).split.2 :=
  (overfull_of_insert hfits hexceeds hkey).halves hsorted

/-- An entry with a text of one byte over and over for its key. -/
def wideEntry (byte : UInt8) (size : Nat) (slot : UInt16) : Entry := ⟨.varchar (List.replicate size byte), ⟨0, slot⟩⟩

def crowded : Leaf where
  entries := [wideEntry 1 996 0, wideEntry 2 780 1, wideEntry 3 400 2, wideEntry 4 996 3, wideEntry 5 804 4]

def burst : Leaf := crowded.insert (.varchar (List.replicate 400 3)) ⟨0, 5⟩

/-- The midpoint parts the two equal keys, so the leaf parts in front of them. -/
theorem halves_of_insert_burst : crowded.fits = true ∧ burst.fits = false ∧ Sorted burst.entries
    ∧ sizeMidpoint (burst.entries.map entrySize) = 3 ∧ burst.split.1.entries = [wideEntry 1 996 0, wideEntry 2 780 1]
    ∧ Halves burst burst.split.1 burst.split.2 := by
  have hfits : crowded.fits = true := by decide +kernel
  have hexceeds : burst.fits = false := by decide +kernel
  have hsorted : Sorted burst.entries := by
    unfold Sorted
    decide +kernel
  have hkey : ∀ e ∈ burst.entries, e.key.encodedSize ≤ Key.maxSize := by decide +kernel
  exact ⟨hfits, hexceeds, hsorted, by decide +kernel, by decide +kernel, halves_of_insert hfits hexceeds hkey hsorted⟩

end Leaf

/-! ## Parts of an internal node -/

namespace Internal

variable {n : Internal} {index : Nat} {separator : Key} {right : PageNum}

theorem Overfull.keys_ne_nil (h : n.Overfull) {lower upper : Internal} {promoted : Key}
    (hsplit : n.split? = some (lower, promoted, upper)) : lower.keys ≠ [] ∧ upper.keys ≠ [] := by
  have hlen := h.length_gt
  unfold split? at hsplit
  rw [if_neg (by omega)] at hsplit
  obtain ⟨_, -, hparts⟩ := Option.map_eq_some_iff.mp hsplit
  cases hparts
  constructor
  · apply List.ne_nil_of_length_pos
    rw [List.length_take]
    omega
  · apply List.ne_nil_of_length_pos
    rw [List.length_drop]
    omega

/-- An internal node that one separator made too large parts into two that fit, around a separator
that goes up. -/
theorem parted_of_insertChild (hfits : n.fits = true) (hexceeds : (n.insertChild index separator right).fits = false)
    (hlength : (n.insertChild index separator right).children.length
      = (n.insertChild index separator right).keys.length + 1)
    (hkey : ∀ k ∈ (n.insertChild index separator right).keys, k.encodedSize ≤ Key.maxSize) :
    ∃ lower promoted upper,
      (n.insertChild index separator right).split? = some (lower, promoted, upper)
        ∧ Parted (n.insertChild index separator right) lower promoted upper
        ∧ lower.keys ≠ [] ∧ upper.keys ≠ [] := by
  have h := overfull_of_insertChild hfits hexceeds hlength hkey
  obtain ⟨lower, promoted, upper, hsplit, hparted⟩ := h.split?_eq
  exact ⟨lower, promoted, upper, hsplit, hparted, h.keys_ne_nil hsplit⟩

def wideKey (byte : UInt8) : Key := .varchar (List.replicate 996 byte)

theorem parted_of_insertChild_wide : ∃ lower promoted upper,
    (Internal.insertChild ⟨[wideKey 1, wideKey 2, wideKey 4, wideKey 5], [1, 2, 3, 4, 5]⟩ 2 (wideKey 3) 6).split?
        = some (lower, promoted, upper)
      ∧ Parted ⟨[wideKey 1, wideKey 2, wideKey 3, wideKey 4, wideKey 5], [1, 2, 3, 6, 4, 5]⟩ lower promoted upper
      ∧ promoted = wideKey 3 := by
  have hfits : fits ⟨[wideKey 1, wideKey 2, wideKey 4, wideKey 5], [1, 2, 3, 4, 5]⟩ = true := by decide +kernel
  obtain ⟨lower, promoted, upper, hsplit, hparted, -⟩ :=
    @parted_of_insertChild _ 2 (wideKey 3) 6 hfits (by decide +kernel) (by decide +kernel) (by decide +kernel)
  refine ⟨lower, promoted, upper, hsplit, hparted, ?_⟩
  have hmiddle : (Internal.insertChild ⟨[wideKey 1, wideKey 2, wideKey 4, wideKey 5], [1, 2, 3, 4, 5]⟩ 2 (wideKey 3)
      6).split?.map (fun parts => parts.2.1) = some (wideKey 3) := by decide +kernel
  rw [hsplit] at hmiddle
  exact Option.some.inj hmiddle

end Internal

end Tablespace
