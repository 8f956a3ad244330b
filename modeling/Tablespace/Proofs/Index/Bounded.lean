import Tablespace.Proofs.Index.NodeFormat
import Tablespace.Proofs.Index.Reads
import Tablespace.Proofs.Index.Scan

/-!
# Calls on files of any content

Whatever an index file holds, the calls on it end: a descent is no longer than
the file has pages, and a walk along the leaves no longer either. A scan mixes
the leaves that it may still read with the entries at hand, and each step of it
takes from the one or from the other.
-/

namespace Tablespace

namespace IndexScan

open Access
open Index (countOf nodeAt)

variable {f : PagedFile} {s : IndexScan} {r : KeyRange}

/-- What is read as a leaf was written as one, so it fits. -/
theorem length_le_of_nodeAt {type : AttributeType} {page : PageNum} {l : Leaf}
    (h : nodeAt type f page = some (.leaf l)) : l.entries.length ≤ 340 := by
  obtain ⟨pg, -, hnode⟩ := Option.bind_eq_some_iff.mp h
  cases hread : NodePage.toNode pg.bytes type page with
  | error e =>
    rw [hread] at hnode
    cases hnode
  | ok n =>
    rw [hread] at hnode
    cases hnode
    obtain ⟨hformed, word, stop, -, -, -, -, hwrite⟩ := NodePage.ofNode_of_toNode hread
    exact length_le_of_fits (Leaf.fits_iff.mpr (NodePage.encodedSize_le_of_ofNode hformed hwrite))

theorem length_of_find {es rest : List Entry} {e : Entry} (h : find r es = .entry e rest) :
    rest.length + 1 ≤ es.length := by
  induction es with
  | nil => cases h
  | cons e' es ih =>
    rw [List.length_cons]
    unfold find at h
    split at h
    · exact Nat.le_succ_of_le (ih h)
    · split at h
      · cases h
      · cases h
        exact Nat.le_refl _

/-- Where a step stops, what may still be read is what the scan counts as left, and an entry is
gone of those that the leaves left can have. -/
def Stops (bound left : Nat) (out : Option (Entry × List Entry × Option PageNum × Nat)) : Prop :=
  ∀ e es next more, out = some (e, es, next, more) → more = left ∧ es.length + 1 + 340 * more ≤ bound

theorem spends_advanceLeaves (type : AttributeType) (r : KeyRange) (left : Nat) (next : Option PageNum) :
    Spends f left (advanceLeaves type r left next) fun out f' left' => f' = f ∧ Stops (340 * left) left' out := by
  induction left generalizing next with
  | zero =>
    cases next with
    | none => exact Spends.pure ⟨rfl, by simp [Stops]⟩
    | some page => exact Spends.throw _
  | succ left ih =>
    cases next with
    | none => exact Spends.pure ⟨rfl, by simp [Stops]⟩
    | some page =>
      refine (Index.spends_readLeaf type page).bind ?_
      rintro l f' _ ⟨rfl, rfl, hleaf⟩
      have hlen := length_le_of_nodeAt hleaf
      split
      · rename_i e rest hfind
        have := length_of_find hfind
        refine Spends.pure ⟨rfl, ?_⟩
        rintro _ _ _ _ ⟨⟩
        exact ⟨rfl, by omega⟩
      · exact Spends.pure ⟨rfl, by simp [Stops]⟩
      · refine (ih l.next).mono ?_
        rintro out f'' left' ⟨rfl, hstops⟩
        refine ⟨left', Nat.le_refl _, rfl, ?_⟩
        intro e es next more hout
        obtain ⟨hmore, hle⟩ := hstops e es next more hout
        exact ⟨hmore, by omega⟩

/-- How many entries a scan can still yield. -/
def ahead (s : IndexScan) : Nat := s.entries.length + 340 * s.leavesLeft

theorem spends_advance (s : IndexScan) :
    Spends f s.leavesLeft s.advance fun out f' left => f' = f ∧ Stops s.ahead left out := by
  unfold advance
  split
  · rename_i e rest hfind
    have := length_of_find hfind
    refine Spends.pure ⟨rfl, ?_⟩
    rintro _ _ _ _ ⟨⟩
    exact ⟨rfl, by unfold ahead; omega⟩
  · exact Spends.pure ⟨rfl, by simp [Stops]⟩
  · refine (spends_advanceLeaves s.type s.range s.leavesLeft s.nextLeaf).mono ?_
    rintro out f' left ⟨rfl, hstops⟩
    refine ⟨left, Nat.le_refl _, rfl, ?_⟩
    intro e es next more hout
    obtain ⟨hmore, hle⟩ := hstops e es next more hout
    exact ⟨hmore, by unfold ahead; omega⟩

/-- A step yields an entry and takes what it reads and yields from what is left, or it ends the scan. -/
theorem next_cases (hdone : s.done = false) (hfile : s.access.file = some f) :
    (∃ e s', s.next = (some (.ok e), s') ∧ s'.done = false ∧ s'.access.file = some f
      ∧ s'.access.counters.reads + s'.leavesLeft ≤ s.access.counters.reads + s.leavesLeft
      ∧ s'.ahead + 1 ≤ s.ahead)
    ∨ ∃ last s', s.next = (last, s') ∧ (∀ e, last ≠ some (.ok e)) ∧ s'.done = true
      ∧ s'.access.counters.reads ≤ s.access.counters.reads + s.leavesLeft := by
  obtain ⟨c, hc⟩ : ∃ c, s.access = ⟨some f, c⟩ := ⟨s.access.counters, by rw [← hfile]⟩
  unfold next
  rw [hdone, hc]
  rcases s.spends_advance (f := f) c with ⟨out, f', c', left, hrun, hle, rfl, hstops⟩ | ⟨e, access, hrun, hle⟩
  · cases out with
    | none =>
      right
      refine ⟨none, { s with done := true, access := ⟨some f', c'⟩ }, ?_, by simp, rfl, by simp only; omega⟩
      simp only [EStateM.run, hrun]
      rfl
    | some found =>
      obtain ⟨e, es, nextLeaf, more⟩ := found
      obtain ⟨rfl, hahead⟩ := hstops e es nextLeaf more rfl
      left
      refine ⟨e, { s with entries := es, nextLeaf := nextLeaf, leavesLeft := more, access := ⟨some f', c'⟩ },
        ?_, hdone, rfl, hle, ?_⟩
      · simp only [EStateM.run, hrun]
        rw [hdone]
        rfl
      · simp only [ahead] at hahead ⊢
        omega
  · right
    refine ⟨some (.error e), { s with done := true, access }, ?_, by simp, rfl, hle⟩
    simp only [EStateM.run, hrun]
    rfl

/-- What a number of calls yields one after the other, and the scan behind them. -/
def calls : Nat → IndexScan → List (Option (Except IndexError Entry)) × IndexScan
  | 0, s => ([], s)
  | n + 1, s => (s.next.1 :: (calls n s.next.2).1, (calls n s.next.2).2)

theorem calls_of_done (h : s.done = true) (n : Nat) : calls n s = (List.replicate n none, s) := by
  induction n with
  | zero => rfl
  | succ n ih => rw [calls, next_of_done h, ih, List.replicate_succ]

/-- At most so many entries, then at most one failure, and from then on nothing. -/
def Finite (bound : Nat) (items : List (Option (Except IndexError Entry))) : Prop :=
  ∃ (es : List Entry) (rest : List (Option (Except IndexError Entry))), items = es.map (fun e => some (.ok e)) ++ rest
    ∧ es.length ≤ bound
    ∧ (rest = [] ∨ ∃ last n, rest = last :: List.replicate n none ∧ ∀ e, last ≠ some (.ok e))

theorem finite_calls (hdone : s.done = false) (hfile : s.access.file = some f) (n : Nat) :
    Finite s.ahead (calls n s).1
      ∧ (calls n s).2.access.counters.reads ≤ s.access.counters.reads + s.leavesLeft := by
  induction n generalizing s with
  | zero => exact ⟨⟨[], [], rfl, Nat.zero_le _, .inl rfl⟩, Nat.le_add_right _ _⟩
  | succ n ih =>
    unfold calls
    rcases next_cases hdone hfile with
      ⟨e, s', hnext, hdone', hfile', hreads, hahead⟩ | ⟨last, s', hnext, hlast, hdone', hreads⟩
    -- What the first call takes from `ahead`, the calls behind it no longer have.
    · obtain ⟨⟨es, rest, hitems, hlen, hrest⟩, hle⟩ := ih hdone' hfile'
      rw [hnext]
      refine ⟨⟨e :: es, rest, by rw [hitems]; rfl, ?_, hrest⟩, Nat.le_trans hle hreads⟩
      rw [List.length_cons]
      omega
    · rw [hnext, calls_of_done hdone' n]
      exact ⟨⟨[], _, rfl, Nat.zero_le _, .inr ⟨last, n, rfl, hlast⟩⟩, hreads⟩

theorem spends_start (a : Attribute) (low high : Option Bytes) (lowInclusive highInclusive : Bool) :
    Spends f (countOf f + 1) (start a low high lowInclusive highInclusive) fun s f' _ => f' = f
      ∧ s.done = false ∧ s.access.file = some f ∧ s.leavesLeft = countOf f ∧ s.entries = [] := by
  refine (spends_liftExcept _).bind ?_
  rintro range f₁ _ ⟨rfl, rfl, -⟩
  have hrest : ∀ (first : PageNum) left, Spends f₁ left (do
      let count ← Access.pageCount
      return (⟨a.type, range, [], some first, count.toNat, false, ← get⟩ : IndexScan) : IndexM IndexScan)
      fun s f' _ => f' = f₁ ∧ s.done = false ∧ s.access.file = some f₁ ∧ s.leavesLeft = countOf f₁
        ∧ s.entries = [] := by
    intro first left
    refine Index.spends_count.bind ?_
    rintro count f₂ _ ⟨rfl, rfl, rfl⟩
    refine spends_get.bind ?_
    rintro access f₃ _ ⟨rfl, rfl, hfile⟩
    exact Spends.pure ⟨rfl, rfl, hfile, rfl, rfl⟩
  cases hlow : range.low with
  | none =>
    refine (Index.spends_firstLeaf a.type).bind ?_
    rintro first f₂ left rfl
    exact hrest first left
  | some b =>
    refine (Index.spends_lowerLeaf a.type b.key).bind ?_
    rintro first f₂ left rfl
    exact hrest first left

end IndexScan

/-! ## Any file -/

/-- The work reads at most so many pages, whether it fails or not. -/
def Access.ReadsAtMost {ε α : Type} (n : Nat) (work : EStateM ε Access α) (s : Access) : Prop :=
  (finalState (work s)).counters.reads ≤ s.counters.reads + n

theorem Access.Spends.readsAtMost {ε α : Type} {f : PagedFile} {n : Nat} {work : EStateM ε Access α}
    {post : α → PagedFile → Nat → Prop} (h : Spends f n work post) (c : Counters) :
    ReadsAtMost n work ⟨some f, c⟩ := by
  unfold ReadsAtMost
  rcases h c with ⟨a, f', c', left, hrun, hle, -⟩ | ⟨e, s, hrun, hle⟩
  · rw [hrun]
    exact Nat.le_of_add_right_le hle
  · rw [hrun]
    exact hle

theorem Access.Spends.post_of_run {ε α : Type} {f : PagedFile} {n : Nat} {work : EStateM ε Access α} {a : α}
    {post : α → PagedFile → Nat → Prop} (h : Spends f n work post) {c : Counters} {s : Access}
    (hrun : work ⟨some f, c⟩ = .ok a s) : ∃ f' left, s.file = some f' ∧ post a f' left := by
  rcases h c with ⟨a', f', c', left, hrun', -, hpost⟩ | ⟨e, s', hrun', -⟩
  · rw [hrun] at hrun'
    cases hrun'
    exact ⟨f', left, rfl, hpost⟩
  · rw [hrun] at hrun'
    cases hrun'

namespace Index

open Access

/-- How many pages the calls on an index file read and how many items they yield. -/
structure Bounded (a : Attribute) (f : PagedFile) (c : Counters) : Prop where
  descent : ∀ choose, ReadsAtMost (countOf f + 1) (descendFromRoot a.type choose) ⟨some f, c⟩
  leaf : ∀ choose path leaf s, descendFromRoot a.type choose ⟨some f, c⟩ = .ok (path, leaf) s →
    s.file = some f ∧ path.length ≤ countOf f ∧ ∃ l, nodeAt a.type f leaf = some (.leaf l)
  search : ∀ key, ReadsAtMost (countOf f + 1) (search a key) ⟨some f, c⟩
  insert : ∀ key id, ReadsAtMost (2 * countOf f + 3) (insert a key id) ⟨some f, c⟩
  chain : ∀ k id page, ReadsAtMost (countOf f) (removeFromChain a.type k id (countOf f) page) ⟨some f, c⟩
  delete : ∀ key id, ReadsAtMost (countOf f + 1 + countOf f) (delete a key id) ⟨some f, c⟩
  start : ∀ low high lowInclusive highInclusive,
    ReadsAtMost (countOf f + 1) (IndexScan.start a low high lowInclusive highInclusive) ⟨some f, c⟩
  scan : ∀ low high lowInclusive highInclusive s s',
    IndexScan.start a low high lowInclusive highInclusive ⟨some f, c⟩ = .ok s s' → ∀ n,
      (IndexScan.calls n s).2.access.counters.reads ≤ s.access.counters.reads + countOf f
      ∧ IndexScan.Finite (340 * countOf f) (IndexScan.calls n s).1

/-- Whatever a file holds, the calls on it end. -/
theorem bounded_on_any_file (a : Attribute) (f : PagedFile) (c : Counters) : Bounded a f c where
  descent choose := (spends_descendFromRoot a.type choose).readsAtMost c
  leaf choose path leaf s hrun := by
    obtain ⟨f', left, hfile, rfl, hlen, hleaf⟩ := (spends_descendFromRoot a.type choose).post_of_run hrun
    exact ⟨hfile, by simp only at hlen; omega, hleaf⟩
  search key := (spends_search a key).readsAtMost c
  insert key id := (spends_insert a key id).readsAtMost c
  chain k id page := (spends_removeFromChain a.type k id _ page).readsAtMost c
  delete key id := (spends_delete a key id).readsAtMost c
  start low high lowInclusive highInclusive :=
    (IndexScan.spends_start a low high lowInclusive highInclusive).readsAtMost c
  scan low high lowInclusive highInclusive s s' hrun n := by
    obtain ⟨f', left, -, rfl, hdone, hfile, hleft, hentries⟩ :=
      (IndexScan.spends_start a low high lowInclusive highInclusive).post_of_run hrun
    obtain ⟨hfinite, hreads⟩ := IndexScan.finite_calls hdone hfile n
    rw [IndexScan.ahead, hentries, List.length_nil, Nat.zero_add, hleft] at hfinite
    exact ⟨hleft ▸ hreads, hfinite⟩

/-- A leaf that is its own neighbour. -/
def looped : Leaf := ⟨[⟨.int 7, ⟨0, 0⟩⟩], none, some 0⟩

/-- On the one page of a file, such a leaf is read once for its entry. -/
theorem bounded_on_looped : ∃ (f : PagedFile) (s : IndexScan) (s' : Access), countOf f = 1
    ∧ IndexScan.start ⟨"a", .int, 4⟩ none none true true ⟨some f, {}⟩ = .ok s s'
    ∧ (IndexScan.calls 3 s).1
      = [some (.ok ⟨.int 7, ⟨0, 0⟩⟩), some (.error (.corruption 0 .leafChainLoops)), none]
    ∧ (IndexScan.calls 3 s).2.access.counters.reads ≤ s.access.counters.reads + 1 := by
  have hsound : Node.Sound .int (.leaf looped) := by
    refine ⟨by decide, ?_, by simp [looped], ?_⟩
    · intro e he
      obtain rfl := List.mem_singleton.mp he
      exact ⟨rfl, by decide⟩
    · simp [looped, NodePage.topBit]
  obtain ⟨f, -, hf⟩ := leads_appendNode (.leaf looped) hsound PagedFile.empty (shows_nothing .int)
  have hcount : countOf f = 1 := by
    rw [countOf, hf.length_eq]
    rfl
  have hfirst : Looks .int (IndexScan.firstRead .int ⟨none, none⟩) [.leaf looped] 0 :=
    (looks_pageCount.bind ((looks_readNode rfl).bind (Looks.pure ([], 0)))).bind (Looks.pure 0)
  replace hf : f.ShowsNodes (⟨"a", .int, 4⟩ : Attribute).type [.leaf looped] := hf
  have hrange : KeyRange.ofBytes ⟨"a", .int, 4⟩ none none true true = .ok ⟨none, none⟩ := rfl
  obtain ⟨c, hstart⟩ := IndexScan.run_start_of_looks hf hrange hfirst {}
  refine ⟨f, _, _, hcount, hstart, ?_, ?_⟩
  · have hroot : [Node.leaf looped][(0 : PageNum).toNat]? = some (.leaf looped) := rfl
    obtain ⟨c', hread⟩ := looks_readLeaf hroot f hf c
    have hone : IndexScan.next ⟨.int, ⟨none, none⟩, [], some 0, 1, false, ⟨some f, c⟩⟩
        = (some (.ok ⟨.int 7, ⟨0, 0⟩⟩), ⟨.int, ⟨none, none⟩, [], some 0, 0, false, ⟨some f, c'⟩⟩) := by
      have hadvance : IndexScan.advance ⟨.int, ⟨none, none⟩, [], some 0, 1, false, ⟨some f, c⟩⟩ ⟨some f, c⟩
          = .ok (some (⟨.int 7, ⟨0, 0⟩⟩, [], some 0, 0)) ⟨some f, c'⟩ := run_bind hread
      unfold IndexScan.next
      simp only [EStateM.run, hadvance]
      rfl
    have htwo : IndexScan.next ⟨.int, ⟨none, none⟩, [], some 0, 0, false, ⟨some f, c'⟩⟩
        = (some (.error (.corruption 0 .leafChainLoops)),
          ⟨.int, ⟨none, none⟩, [], some 0, 0, true, ⟨some f, c'⟩⟩) := rfl
    show (IndexScan.calls 3 ⟨.int, ⟨none, none⟩, [], some 0, 1, false, ⟨some f, c⟩⟩).1 = _
    simp only [IndexScan.calls, hone, htwo]
    rfl
  · rw [← hcount]
    exact ((bounded_on_any_file ⟨"a", .int, 4⟩ f {}).scan none none true true _ _ hstart 3).1

end Index

end Tablespace
