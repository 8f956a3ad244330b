import Tablespace.Index.Scan
import Tablespace.Proofs.Index.Stands

/-!
# What a scan yields

A scan goes along the chain and yields the entries that it sees: it passes over
those below its range and ends at the first above. An unbounded scan yields the
entries of all leaves.
-/

namespace Tablespace

open Access

/-- The entries that a scan over the range sees in a list. -/
def KeyRange.visible (r : KeyRange) : List Entry → List Entry
  | [] => []
  | e :: es => if r.isBelow e.key then r.visible es else if r.isAbove e.key then [] else e :: r.visible es

namespace KeyRange

variable {r : KeyRange}

theorem visible_unbounded (es : List Entry) : KeyRange.visible ⟨none, none⟩ es = es := by
  induction es with
  | nil => rfl
  | cons e es ih => simp [visible, isBelow, isAbove, ih]

theorem length_visible_le (r : KeyRange) (es : List Entry) : (r.visible es).length ≤ es.length := by
  induction es with
  | nil => exact Nat.le_refl _
  | cons e es ih =>
    unfold visible
    split
    · exact Nat.le_succ_of_le ih
    · split
      · exact Nat.zero_le _
      · exact Nat.succ_le_succ ih

theorem visible_append_of_below {es more : List Entry} (h : ∀ e ∈ es, r.isBelow e.key = true) :
    r.visible (es ++ more) = r.visible more := by
  induction es with
  | nil => rfl
  | cons e es ih =>
    obtain ⟨he, hes⟩ := List.forall_mem_cons.mp h
    rw [List.cons_append, visible, if_pos he, ih hes]

end KeyRange

namespace IndexScan

variable {r : KeyRange} {es more : List Entry}

/-- What a scan finds first, and what it then sees. -/
theorem visible_of_find (r : KeyRange) (es more : List Entry) :
    match find r es with
    | .entry e rest => r.visible (es ++ more) = e :: r.visible (rest ++ more)
    | .past => r.visible (es ++ more) = []
    | .nothing => r.visible (es ++ more) = r.visible more := by
  induction es with
  | nil => rfl
  | cons e es ih =>
    unfold find
    by_cases hbelow : r.isBelow e.key = true
    · simp only [hbelow, if_true, List.cons_append, KeyRange.visible]
      exact ih
    · by_cases habove : r.isAbove e.key = true
      · simp [hbelow, habove, KeyRange.visible]
      · simp [hbelow, habove, KeyRange.visible]

/-! ## One step -/

variable {type : AttributeType} {nodes : List Node} {prev : Option PageNum} {rest : List Shelf} {left : Nat}

/-- What a step of a scan gives, when the scan still sees `seen`. -/
def Gives (nodes : List Node) (r : KeyRange) (seen : List Entry) :
    Option (Entry × List Entry × Option PageNum × Nat) → Prop
  | none => seen = []
  | some (e, es, next, left) => ∃ (prev : Option PageNum) (rest : List Shelf), seen = e :: r.visible (es ++ entriesOf rest)
      ∧ next = firstPage rest ∧ rest.length ≤ left ∧ Chain nodes prev rest none

theorem looks_advanceLeaves (r : KeyRange) (hchain : Chain nodes prev rest none) (hleft : rest.length ≤ left) :
    ∃ out, Index.Looks type (advanceLeaves type r left (firstPage rest)) nodes out
      ∧ Gives nodes r (r.visible (entriesOf rest)) out := by
  induction rest generalizing prev left with
  | nil =>
    refine ⟨none, ?_, rfl⟩
    unfold advanceLeaves
    exact Index.Looks.pure none
  | cons l rest ih =>
    obtain ⟨left, rfl⟩ : ∃ m, left = m + 1 := ⟨left - 1, by rw [List.length_cons] at hleft; omega⟩
    obtain ⟨hl, hrest⟩ := hchain
    rw [Option.or_none] at hl
    have hleft' : rest.length ≤ left := by simpa using hleft
    have hall : entriesOf (l :: rest) = l.2 ++ entriesOf rest := by simp [entriesOf]
    have hfind := visible_of_find r l.2 (entriesOf rest)
    have hread : ∀ out, Index.Looks type
        (match find r l.2 with
          | .entry e es => return some (e, es, firstPage rest, left)
          | .past => return none
          | .nothing => advanceLeaves type r left (firstPage rest)) nodes out →
        Index.Looks type (advanceLeaves type r (left + 1) (firstPage (l :: rest))) nodes out :=
      fun out hgo => (Index.looks_readLeaf hl).bind hgo
    rw [hall]
    cases hcase : find r l.2 with
    | entry e es =>
      rw [hcase] at hfind hread
      exact ⟨_, hread _ (Index.Looks.pure _), some l.1, rest, hfind, rfl, hleft', hrest⟩
    | past =>
      rw [hcase] at hfind hread
      exact ⟨none, hread _ (Index.Looks.pure _), hfind⟩
    | nothing =>
      rw [hcase] at hfind hread
      obtain ⟨out, hlooks, hgives⟩ := ih hrest hleft'
      rw [show r.visible (l.2 ++ entriesOf rest) = r.visible (entriesOf rest) from hfind]
      exact ⟨out, hread _ hlooks, hgives⟩

/-- A scan that has entries and leaves of a file before it. -/
structure Facing (s : IndexScan) (f : PagedFile) (nodes : List Node) (rest : List Shelf) : Prop where
  next_eq : s.nextLeaf = firstPage rest
  left : rest.length ≤ s.leavesLeft
  chain : ∃ prev, Chain nodes prev rest none
  done_eq : s.done = false
  access : s.access.file = some f

variable {s : IndexScan} {f : PagedFile}

theorem Facing.looks_advance (hs : s.Facing f nodes rest) :
    ∃ out, Index.Looks s.type s.advance nodes out
      ∧ Gives nodes s.range (s.range.visible (s.entries ++ entriesOf rest)) out := by
  obtain ⟨prev, hchain⟩ := hs.chain
  have hfind := visible_of_find s.range s.entries (entriesOf rest)
  unfold advance
  cases hcase : find s.range s.entries with
  | entry e es =>
    rw [hcase] at hfind
    exact ⟨_, Index.Looks.pure _, prev, rest, hfind, hs.next_eq, hs.left, hchain⟩
  | past =>
    rw [hcase] at hfind
    exact ⟨none, Index.Looks.pure _, hfind⟩
  | nothing =>
    rw [hcase] at hfind
    simp only at hfind ⊢
    rw [hs.next_eq, hfind]
    exact looks_advanceLeaves s.range hchain hs.left

/-! ## All steps -/

theorem Facing.run_advance (hs : s.Facing f nodes rest) (hf : f.ShowsNodes s.type nodes) :
    ∃ out c, s.advance.run s.access = .ok out ⟨some f, c⟩
      ∧ Gives nodes s.range (s.range.visible (s.entries ++ entriesOf rest)) out := by
  obtain ⟨out, hlooks, hgives⟩ := hs.looks_advance
  obtain ⟨c, hc⟩ := hlooks f hf s.access.counters
  refine ⟨out, c, ?_, hgives⟩
  rw [← hc, ← hs.access]
  rfl

theorem next_of_done (h : s.done = true) : s.next = (none, s) := by
  unfold next
  rw [h]
  rfl

/-- A step ends a scan that sees nothing, or it gives the first entry that the scan sees and leaves
a scan that sees the others. -/
theorem Facing.next_cases (hs : s.Facing f nodes rest) (hf : f.ShowsNodes s.type nodes) :
    (s.range.visible (s.entries ++ entriesOf rest) = [] ∧ ∃ s', s.next = (none, s') ∧ s'.done = true)
    ∨ ∃ (e : Entry) (s' : IndexScan) (rest' : List Shelf), s.next = (some (.ok e), s')
      ∧ s'.Facing f nodes rest' ∧ s'.type = s.type
      ∧ s.range.visible (s.entries ++ entriesOf rest) = e :: s'.range.visible (s'.entries ++ entriesOf rest') := by
  obtain ⟨out, c, hrun, hgives⟩ := hs.run_advance hf
  cases out with
  | none =>
    refine .inl ⟨hgives, { s with done := true, access := ⟨some f, c⟩ }, ?_, rfl⟩
    unfold next
    rw [hs.done_eq, hrun]
    rfl
  | some found =>
    obtain ⟨e, es, nextLeaf, left⟩ := found
    obtain ⟨prev, rest', hseen, hfirst, hleft, hchain⟩ := hgives
    refine .inr ⟨e, { s with entries := es, nextLeaf := nextLeaf, leavesLeft := left, access := ⟨some f, c⟩ },
      rest', ?_, ⟨hfirst, hleft, ⟨prev, hchain⟩, hs.done_eq, rfl⟩, rfl, hseen⟩
    unfold next
    rw [hs.done_eq, hrun]
    rfl

/-- What a scan that has entries and leaves of a file before it still sees. -/
def Sees (f : PagedFile) (nodes : List Node) (seen : List Entry) (s : IndexScan) : Prop :=
  ∃ rest, s.Facing f nodes rest ∧ f.ShowsNodes s.type nodes
    ∧ s.range.visible (s.entries ++ entriesOf rest) = seen

theorem Facing.emits (hs : s.Facing f nodes rest) (hf : f.ShowsNodes s.type nodes) :
    Emits next (s.range.visible (s.entries ++ entriesOf rest)) s := by
  refine emits_of_step (R := Sees f nodes) ?_ ?_ ⟨rest, hs, hf, rfl⟩
  · rintro s ⟨rest, hs, hf, hseen⟩
    rcases hs.next_cases hf with ⟨-, s', hnext, hdone⟩ | ⟨e, s', rest', -, -, -, hmore⟩
    · exact ⟨s', hnext, next_of_done hdone⟩
    · rw [hseen] at hmore
      cases hmore
  · rintro e es s ⟨rest, hs, hf, hseen⟩
    rcases hs.next_cases hf with ⟨hnone, -⟩ | ⟨e', s', rest', hnext, hs', htype, hmore⟩
    · rw [hseen] at hnone
      cases hnone
    · rw [hseen] at hmore
      cases hmore
      exact ⟨s', hnext, rest', hs', htype ▸ hf, rfl⟩

theorem take_of_emits {seen : List Entry} {limit : Nat} (h : Emits next seen s) (hlimit : seen.length < limit) :
    (take limit s).1 = seen.map .ok := by
  induction seen generalizing s limit with
  | nil =>
    obtain ⟨limit, rfl⟩ : ∃ m, limit = m + 1 := ⟨limit - 1, by omega⟩
    obtain ⟨s', hnext, -⟩ := h
    unfold take
    rw [hnext]
    rfl
  | cons e seen ih =>
    rw [List.length_cons] at hlimit
    obtain ⟨limit, rfl⟩ : ∃ m, limit = m + 1 := ⟨limit - 1, by omega⟩
    obtain ⟨s', hnext, hrest⟩ := h
    unfold take
    rw [hnext, List.map_cons, ← ih hrest (Nat.lt_of_succ_lt_succ hlimit)]

/-! ## The limit of a collection -/

/-- An entry takes twelve bytes or more, and the header of a leaf twelve. -/
theorem length_le_of_fits {l : Leaf} (h : l.fits = true) : l.entries.length ≤ 340 := by
  have hfits := Leaf.fits_iff.mp h
  have hsum : ∀ es : List Entry, 12 * es.length ≤ totalSize (es.map Leaf.entrySize) := by
    intro es
    induction es with
    | nil => exact Nat.le_refl _
    | cons e es ih =>
      have hkey : 4 ≤ e.key.encodedSize := by
        cases e.key <;> simp [Key.encodedSize]
      rw [List.map_cons, totalSize, Leaf.entrySize, List.length_cons]
      omega
  have := hsum l.entries
  simp only [Leaf.headerSize, pageSize] at hfits
  omega

/-- A leaf that fits has no more entries than the limit counts for it. -/
theorem length_le_entryLimit {l : Leaf} (h : l.fits = true) : l.entries.length ≤ entryLimit :=
  Nat.le_trans (length_le_of_fits h) (by decide)

theorem length_entriesOf_le (hchain : Chain nodes prev rest none) (hsound : ∀ n ∈ nodes, n.Sound type) :
    (entriesOf rest).length ≤ entryLimit * rest.length := by
  induction rest generalizing prev with
  | nil => exact Nat.le_refl _
  | cons l rest ih =>
    obtain ⟨hl, hrest⟩ := hchain
    have hs : Leaf.Sound type ⟨l.2, prev, (firstPage rest).or none⟩ := hsound _ (List.mem_of_getElem? hl)
    have hone : l.2.length ≤ entryLimit := length_le_entryLimit hs.fits
    have := ih hrest
    rw [entriesOf, List.flatMap_cons, List.length_append, List.length_cons, Nat.mul_succ]
    rw [entriesOf] at this
    omega

theorem Facing.collect_eq (hs : s.Facing f nodes rest) (hf : f.ShowsNodes s.type nodes) :
    s.collect.1 = (s.range.visible (s.entries ++ entriesOf rest)).map .ok := by
  obtain ⟨prev, hchain⟩ := hs.chain
  apply take_of_emits (hs.emits hf)
  have hvisible := s.range.length_visible_le (s.entries ++ entriesOf rest)
  have hentries := length_entriesOf_le hchain hf.sound
  have hleaves := Nat.mul_le_mul_left entryLimit hs.left
  rw [List.length_append] at hvisible
  omega

/-! ## Starts -/

open Index (Stands)

/-- The leaf that a scan over the range starts at. -/
def firstRead (type : AttributeType) (r : KeyRange) : IndexM PageNum :=
  match r.low with
  | some b => Index.lowerLeaf type b.key
  | none => Index.firstLeaf type

section
variable {a : Attribute} {h : Nat} {t : Tree (h + 1)} {ls : List Shelf}

/-- What lies before the leaf that a scan starts at is below its range. -/
theorem exists_firstRead (hstands : Stands nodes t ls) (hsize : nodes.length < UInt32.size)
    (type : AttributeType) (r : KeyRange) : ∃ passed rest p, ls = passed ++ rest ∧ firstPage rest = some p
      ∧ Index.Looks type (firstRead type r) nodes p ∧ ∀ e ∈ entriesOf passed, r.isBelow e.key = true := by
  unfold firstRead
  cases hlow : r.low with
  | none =>
    obtain ⟨p, hp, hlooks⟩ := hstands.looks_firstLeaf hsize type
    exact ⟨[], ls, p, rfl, hp, hlooks, by simp [entriesOf]⟩
  | some b =>
    obtain ⟨trail, before, p, es, after, hloc, hpass, -, hlooks⟩ := hstands.exists_lowerLeaf hsize type b.key
    refine ⟨before, (p, es) :: after, p, hloc.leaves_eq, rfl, hlooks, ?_⟩
    intro e he
    have hlt := Key.precedes_iff.mpr (hloc.lt_of_before hstands hpass e he)
    simp [KeyRange.isBelow, hlow, hlt]

variable {low high : Option Bytes} {lowInclusive highInclusive : Bool}

theorem run_start_of_looks {p : PageNum} (hf : f.ShowsNodes a.type nodes)
    (hr : KeyRange.ofBytes a low high lowInclusive highInclusive = .ok r)
    (hfirst : Index.Looks a.type (firstRead a.type r) nodes p) (c : Counters) :
    ∃ c', start a low high lowInclusive highInclusive ⟨some f, c⟩
      = .ok ⟨a.type, r, [], some p, (UInt32.ofNat nodes.length).toNat, false, ⟨some f, c'⟩⟩ ⟨some f, c'⟩ := by
  obtain ⟨c₁, h₁⟩ := hfirst f hf c
  obtain ⟨c₂, h₂⟩ := @Index.looks_pageCount a.type nodes f hf c₁
  refine ⟨c₂, ?_⟩
  unfold start
  rw [run_bind (show (liftM (KeyRange.ofBytes a low high lowInclusive highInclusive) : IndexM KeyRange)
    ⟨some f, c⟩ = .ok r ⟨some f, c⟩ by rw [hr]; rfl)]
  unfold firstRead at h₁
  cases hlow : r.low with
  | none | some _ =>
    simp only [hlow] at h₁ ⊢
    rw [run_bind h₁, run_bind h₂, run_get_bind]
    rfl

theorem run_start (hf : f.ShowsNodes a.type nodes) (hstands : Stands nodes t ls)
    (hsize : nodes.length < UInt32.size) (hr : KeyRange.ofBytes a low high lowInclusive highInclusive = .ok r)
    (c : Counters) :
    ∃ s c' rest, start a low high lowInclusive highInclusive ⟨some f, c⟩ = .ok s ⟨some f, c'⟩
      ∧ s.Facing f nodes rest ∧ s.type = a.type ∧ s.range = r
      ∧ r.visible (s.entries ++ entriesOf rest) = r.visible (entriesOf ls) := by
  obtain ⟨passed, rest, p, rfl, hp, hfirst, hbelow⟩ := exists_firstRead hstands hsize a.type r
  obtain ⟨c', hrun⟩ := run_start_of_looks hf hr hfirst c
  have hleaves := hstands.leaves_le
  rw [List.length_append] at hleaves
  rw [UInt32.toNat_ofNat_of_lt' hsize] at hrun
  refine ⟨_, c', rest, hrun, ?_, rfl, rfl, ?_⟩
  · exact ⟨hp.symm, Nat.le_of_add_left_le hleaves, ⟨_, (chain_append.mp hstands.chain).2⟩, rfl, rfl⟩
  · rw [entriesOf, entriesOf, List.flatMap_append, List.nil_append]
    exact (KeyRange.visible_append_of_below hbelow).symm

end

/-! ## Unbounded scans -/

/-- What a scan without bounds hands out: keys in the form of key buffers, with the identifiers. -/
def all (a : Attribute) (lowInclusive highInclusive : Bool) :
    IndexM (List (Except IndexError (Bytes × RecordId))) := do
  return (← start a none none lowInclusive highInclusive).collect.1.map (Except.map fun e => (e.key.encode, e.id))

theorem does_all {a : Attribute} {h : Nat} {t : Tree (h + 1)} {ls : List Shelf}
    (hf : f.ShowsNodes a.type nodes) (hstands : Stands nodes t ls) (hsize : nodes.length < UInt32.size)
    (lowInclusive highInclusive : Bool) :
    Does (all a lowInclusive highInclusive) f ((entriesOf ls).map fun e => .ok (e.key.encode, e.id)) f := by
  intro c
  obtain ⟨s, c', rest, hrun, hfacing, htype, hrange, hseen⟩ := run_start hf hstands hsize
    (show KeyRange.ofBytes a none none lowInclusive highInclusive = .ok ⟨none, none⟩ from rfl) c
  have hall := hfacing.collect_eq (htype ▸ hf)
  rw [hrange, hseen, KeyRange.visible_unbounded] at hall
  refine ⟨c', ?_⟩
  unfold all
  rw [run_bind hrun, hall, List.map_map]
  rfl

end IndexScan

end Tablespace
