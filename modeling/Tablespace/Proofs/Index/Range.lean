import Tablespace.Proofs.Index.Reachable

/-!
# Scans between bounds

A scan with bounds yields what a scan without them yields, less the entries
whose keys lie outside. A bound is any key of the type of the index: it need
not be in the index, nor be short enough to be put there, and the lower may lie
above the upper.
-/

namespace Tablespace

namespace Key

variable {k l : Key}

theorem ties_eq_false_iff (h : l ≤ k) : k.ties l = false ↔ l < k := by
  rw [← Bool.not_eq_true, ties_iff, lt_iff_le_not_ge]
  tauto

theorem ties_comm (k l : Key) : k.ties l = l.ties k := by
  rw [Bool.eq_iff_iff, ties_iff, ties_iff, and_comm]

/-- A key neither precedes a bound nor, where the bound is left out, ties with it. -/
theorem outside_eq_false_iff (inclusive : Bool) : (k.precedes l || (!inclusive && k.ties l)) = false
    ↔ if inclusive then l ≤ k else l < k := by
  rw [Bool.or_eq_false_iff, precedes_eq_false_iff]
  cases inclusive with
  | true => simp
  | false =>
    simp only [Bool.not_false, Bool.true_and, Bool.false_eq_true, if_false]
    constructor
    · rintro ⟨hle, hties⟩
      exact (ties_eq_false_iff hle).mp hties
    · intro hlt
      exact ⟨le_of_lt hlt, (ties_eq_false_iff (le_of_lt hlt)).mpr hlt⟩

end Key

namespace KeyRange

variable {r : KeyRange} {k l : Key} {es : List Entry}

/-- The key is on the inner side of both bounds. -/
def Contains (r : KeyRange) (k : Key) : Prop :=
  (∀ b ∈ r.low, if b.inclusive then b.key ≤ k else b.key < k)
    ∧ ∀ b ∈ r.high, if b.inclusive then k ≤ b.key else k < b.key

instance (r : KeyRange) (k : Key) : Decidable (r.Contains k) := inferInstanceAs (Decidable (_ ∧ _))

theorem isBelow_eq_false_iff : r.isBelow k = false ↔ ∀ b ∈ r.low, if b.inclusive then b.key ≤ k else b.key < k := by
  unfold isBelow
  cases r.low with
  | none => simp
  | some b => simpa using Key.outside_eq_false_iff b.inclusive

theorem isAbove_eq_false_iff : r.isAbove k = false ↔ ∀ b ∈ r.high, if b.inclusive then k ≤ b.key else k < b.key := by
  unfold isAbove
  cases r.high with
  | none => simp
  | some b =>
    simp only [Key.ties_comm k b.key]
    simpa using Key.outside_eq_false_iff b.inclusive

theorem contains_iff : r.Contains k ↔ r.isBelow k = false ∧ r.isAbove k = false := by
  rw [isBelow_eq_false_iff, isAbove_eq_false_iff, Contains]

/-- What is larger than a key above the range is above it, too. -/
theorem isAbove_mono (hle : k ≤ l) (h : r.isAbove k = true) : r.isAbove l = true := by
  rw [← Bool.not_eq_false, isAbove_eq_false_iff] at *
  intro hl
  apply h
  intro b hb
  have hbound := hl b hb
  split at hbound
  · rw [if_pos ‹_›]
    exact le_trans hle hbound
  · rw [if_neg ‹_›]
    exact lt_of_le_of_lt hle hbound

/-- In a sorted list a scan misses nothing behind the first key above its range. -/
theorem visible_eq_filter (h : Sorted es) : r.visible es = es.filter fun e => r.Contains e.key := by
  induction es with
  | nil => rfl
  | cons e es ih =>
    obtain ⟨hle, hes⟩ := List.pairwise_cons.mp h
    unfold visible
    by_cases hbelow : r.isBelow e.key = true
    · have hout : ¬ r.Contains e.key := by simp [contains_iff, hbelow]
      rw [if_pos hbelow, ih hes, List.filter_cons_of_neg (by simpa using hout)]
    · by_cases habove : r.isAbove e.key = true
      · have hout : ∀ e' ∈ e :: es, ¬ r.Contains e'.key := by
          intro e' he'
          have habove' : r.isAbove e'.key = true := by
            rcases List.mem_cons.mp he' with rfl | he'
            · exact habove
            · exact isAbove_mono (hle e' he') habove
          simp [contains_iff, habove']
        rw [if_neg hbelow, if_pos habove, Eq.comm, List.filter_eq_nil_iff]
        simpa using hout
      · have hin : r.Contains e.key := by simp [contains_iff, hbelow, habove]
        rw [if_neg hbelow, if_neg habove, ih hes, List.filter_cons_of_pos (by simpa using hin)]

variable {a : Attribute} {low high : Option Bytes} {lo hi : Option Key}

theorem ofBytes_eq (hlow : low.mapM (Key.ofBytes a) = .ok lo) (hhigh : high.mapM (Key.ofBytes a) = .ok hi)
    (lowInclusive highInclusive : Bool) : KeyRange.ofBytes a low high lowInclusive highInclusive
      = .ok ⟨lo.map (⟨·, lowInclusive⟩), hi.map (⟨·, highInclusive⟩)⟩ := by
  unfold KeyRange.ofBytes
  rw [hlow, hhigh]
  rfl

end KeyRange

namespace Index

variable {a : Attribute} {k : Nat} {v : Volume} {L : List Entry} {low high : Option Bytes}
  {lo hi : Option Key} {lowInclusive highInclusive : Bool}

theorem IsIndex.run_start {f : PagedFile} {r : KeyRange} (h : IsIndex a.type f L)
    (hsize : f.pages.length < NodePage.topBit)
    (hr : KeyRange.ofBytes a low high lowInclusive highInclusive = .ok r) (c : Counters) :
    ∃ s c', IndexScan.start a low high lowInclusive highInclusive ⟨some f, c⟩ = .ok s ⟨some f, c'⟩
      ∧ Emits IndexScan.next (L.filter fun e => r.Contains e.key) s := by
  have hsorted := h.sorted
  obtain ⟨nodes, height, t, ls, hf, hstands, rfl⟩ := h
  rw [hf.length_eq] at hsize
  obtain ⟨s, c', rest, hrun, hfacing, htype, rfl, hseen⟩ :=
    IndexScan.run_start hf hstands (Nat.lt_trans hsize (by decide)) hr c
  have hemits := hfacing.emits (htype ▸ hf)
  rw [hseen, KeyRange.visible_eq_filter hsorted] at hemits
  exact ⟨s, c', hrun, hemits⟩

/-- Through every handle a scan with the bounds starts and yields the entries. -/
def Ranges (k : Nat) (a : Attribute) (v : Volume) (low high : Option Bytes) (lowInclusive highInclusive : Bool)
    (es : List Entry) : Prop :=
  ∀ name, v.Binds name k → ∃ s v',
    Volume.through name (IndexScan.start a low high lowInclusive highInclusive) v = .ok s v'
      ∧ v'.files = v.files ∧ Emits IndexScan.next es s

theorem Reaches.ranges {r : KeyRange} (h : Reaches a k v L)
    (hr : KeyRange.ofBytes a low high lowInclusive highInclusive = .ok r) :
    Ranges k a v low high lowInclusive highInclusive (L.filter fun e => r.Contains e.key) := by
  intro name hn
  obtain ⟨f, hf, hsize, hindex⟩ := h.isIndex
  obtain ⟨s, c, hrun, hemits⟩ := hindex.run_start hsize hr (v.handle name).counters
  obtain ⟨v', hv', hfiles⟩ := Volume.through_of_run_self hn hf hrun
  exact ⟨s, v', hv', hfiles, hemits⟩

/-- A scan of an index file yields the entries that a scan without bounds yields, in the same order,
less those with a key outside the bounds. -/
theorem ranges_of_reaches (h : Reaches a k v L) (hlow : low.mapM (Key.ofBytes a) = .ok lo)
    (hhigh : high.mapM (Key.ofBytes a) = .ok hi) (lowInclusive highInclusive : Bool) :
    Ranges k a v none none lowInclusive highInclusive L
    ∧ Ranges k a v low high lowInclusive highInclusive (L.filter fun e =>
      KeyRange.Contains ⟨lo.map (⟨·, lowInclusive⟩), hi.map (⟨·, highInclusive⟩)⟩ e.key) := by
  constructor
  · have hall : Ranges k a v none none lowInclusive highInclusive
        (L.filter fun e => KeyRange.Contains ⟨none, none⟩ e.key) := h.ranges rfl
    rwa [List.filter_eq_self.mpr fun e _ => by simp [KeyRange.Contains]] at hall
  · exact h.ranges (KeyRange.ofBytes_eq hlow hhigh lowInclusive highInclusive)

/-- An index with the positive zero. -/
theorem exists_reaches_zero : ∃ v, Reaches ⟨"a", .real, 4⟩ 0 v [⟨.real ⟨0⟩, ⟨3, 2⟩⟩] ∧ v.Binds "h" 0 := by
  have hkey : Key.ofBytesBounded ⟨"a", .real, 4⟩ [0, 0, 0, 0] = .ok (.real ⟨0⟩) := rfl
  obtain ⟨v, -, hreaches, hn, -⟩ := exists_reaches_repeated hkey ⟨3, 2⟩ 1 (by decide)
  exact ⟨v, hreaches, hn⟩

/-- An index with the positive zero, scanned from the negative zero to the negative zero. -/
theorem ranges_of_reaches_zeros : ∃ v, Reaches ⟨"a", .real, 4⟩ 0 v [⟨.real ⟨0⟩, ⟨3, 2⟩⟩] ∧ v.Binds "h" 0
    ∧ Ranges 0 ⟨"a", .real, 4⟩ v (some [0, 0, 0, 0x80]) (some [0, 0, 0, 0x80]) true true
      [⟨.real ⟨0⟩, ⟨3, 2⟩⟩] := by
  obtain ⟨v, hreaches, hn⟩ := exists_reaches_zero
  have hbound : (some [0, 0, 0, 0x80]).mapM (Key.ofBytes ⟨"a", .real, 4⟩) = .ok (some (.real ⟨0x80000000⟩)) := rfl
  exact ⟨v, hreaches, hn, (ranges_of_reaches hreaches hbound hbound true true).2⟩

end Index

end Tablespace
