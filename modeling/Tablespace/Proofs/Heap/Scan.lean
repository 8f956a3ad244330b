import Tablespace.Proofs.Heap.Hops
import Tablespace.Proofs.Heap.Query

/-!
# What a scan of records yields

A scan goes along the slots of all pages and shows of each record that has its
home in a slot what its query selects. In the file of a run these are the live
records: a body that was moved is not shown where it lies, but where its
record has its home.
-/

namespace Tablespace

open Access

/-! ## Identifiers in order -/

/-- The order of identifiers by pages, and by slots on one page. -/
def RecordId.Before (a b : RecordId) : Prop := a.page < b.page ∨ a.page = b.page ∧ a.slot < b.slot

namespace Heap

variable {f : PagedFile} {sheets : List Sheet} {v : Sheet} {n : PageNum} {id : RecordId}

/-- The identifiers of the slots of a page. -/
def idsOn (sheets : List Sheet) (n : PageNum) : List RecordId :=
  (List.range ((sheets[n.toNat]?.map fun v => v.cells.length).getD 0)).map fun m => ⟨n, UInt16.ofNat m⟩

/-- The identifiers of the slots of all pages. -/
def ids (sheets : List Sheet) : List RecordId :=
  ((List.range sheets.length).map UInt32.ofNat).flatMap (idsOn sheets)

theorem mem_idsOn (hv : sheets[id.page.toNat]? = some v) (hm : id.slot.toNat < v.cells.length) :
    id ∈ idsOn sheets id.page := by
  refine List.mem_map.mpr ⟨id.slot.toNat, ?_, by rw [UInt16.ofNat_toNat]⟩
  rw [hv, List.mem_range]
  exact hm

theorem mem_ids (h : cells sheets id ≠ .free) : id ∈ ids sheets := by
  obtain ⟨v, hv, hm⟩ := exists_of_cells rfl h
  refine List.mem_flatMap.mpr ⟨id.page, ?_, mem_idsOn hv (SlottedPage.lt_of_getElem?_eq_some hm)⟩
  exact List.mem_map.mpr ⟨id.page.toNat, List.mem_range.mpr (SlottedPage.lt_of_getElem?_eq_some hv),
    UInt32.ofNat_toNat⟩

theorem slotNums_eq {p : SlottedPage} (hv : sheets[p.number.toNat]? = some v) (hp : p.Shows v) :
    p.slotNums.map (RecordId.mk p.number) = idsOn sheets p.number := by
  obtain ⟨slots, hholds, hcells⟩ := hp
  rw [SlottedPage.slotNums, hholds.lists.count, idsOn, hv, List.map_map, Option.map_some, Option.getD_some, hcells,
    List.length_map]
  rfl

theorem pairwise_idsOn (h : f.Shows sheets) (n : PageNum) : (idsOn sheets n).Pairwise RecordId.Before := by
  cases hv : sheets[n.toNat]? with
  | none => simp [idsOn, hv]
  | some v =>
    obtain ⟨p, -, hp⟩ := exists_opens h hv
    have hlen := hp.length_lt
    rw [idsOn, hv, List.pairwise_map]
    refine List.pairwise_lt_range.imp_of_mem ?_
    intro i j _ hj hlt
    have hj' : j < v.cells.length := by simpa using hj
    refine .inr ⟨rfl, ?_⟩
    rw [UInt16.lt_iff_toNat_lt, UInt16.toNat_ofNat_of_lt' (by omega), UInt16.toNat_ofNat_of_lt' (by omega)]
    exact hlt

theorem pairwise_ids (h : f.Shows sheets) (hb : sheets.length < UInt32.size) :
    (ids sheets).Pairwise RecordId.Before := by
  rw [ids, List.pairwise_flatMap]
  refine ⟨fun n _ => pairwise_idsOn h n, ?_⟩
  rw [List.pairwise_map]
  refine List.pairwise_lt_range.imp_of_mem ?_
  intro i j _ hj hlt a ha b hb'
  have hj' := List.mem_range.mp hj
  obtain ⟨_, -, rfl⟩ := List.mem_map.mp ha
  obtain ⟨_, -, rfl⟩ := List.mem_map.mp hb'
  left
  rw [UInt32.lt_iff_toNat_lt, UInt32.toNat_ofNat_of_lt' (by omega), UInt32.toNat_ofNat_of_lt' (by omega)]
  exact hlt

end Heap

/-! ## Steps -/

namespace RecordScan

variable {f : PagedFile} {sheets : List Sheet} {records : RecordId → Option Bytes} {q : Query}

/-- The row that a query shows of what is stored under an identifier. -/
def rowOf (q : Query) (records : RecordId → Option Bytes) (id : RecordId) : Option Row :=
  (records id).bind fun packed => ((q.select packed).toOption.join).map (Row.mk id)

def rowsOf (q : Query) (records : RecordId → Option Bytes) (ids : List RecordId) : List Row :=
  ids.filterMap (rowOf q records)

/-- The slots of a page that is in the file. -/
def Visits (sheets : List Sheet) (p : SlottedPage) (slots : List SlotNum) : Prop :=
  ∀ m ∈ slots, ∃ v, sheets[p.number.toNat]? = some v ∧ p.Shows v ∧ m.toNat < v.cells.length

theorem visits_slotNums {p : SlottedPage} {v : Sheet} (hv : sheets[p.number.toNat]? = some v) (hp : p.Shows v) :
    Visits sheets p p.slotNums := by
  intro m hm
  refine ⟨v, hv, hp, ?_⟩
  obtain ⟨slots, hholds, hcells⟩ := hp
  rw [SlottedPage.mem_slotNums, UInt16.lt_iff_toNat_lt, hholds.lists.count] at hm
  rwa [hcells, List.length_map]

/-- The file keeps the records, and the query fails on none of them. -/
structure Searches (q : Query) (f : PagedFile) (sheets : List Sheet) (records : RecordId → Option Bytes) :
    Prop where
  shows : f.Shows sheets
  lt : sheets.length < UInt32.size
  keeps : (Heap.cells sheets).Keeps records
  select : ∀ id packed, records id = some packed → ∃ shown, q.select packed = .ok shown

section
variable {row : Row}

theorem id_of_rowOf {id : RecordId} (h : rowOf q records id = some row) : row.id = id := by
  obtain ⟨packed, -, hshown⟩ := Option.bind_eq_some_iff.mp h
  obtain ⟨t, -, rfl⟩ := Option.map_eq_some_iff.mp hshown
  rfl

/-- The identifiers of the slots are enough: no record has its home anywhere else. -/
theorem Searches.mem_rowsOf_iff (h : Searches q f sheets records) :
    row ∈ rowsOf q records (Heap.ids sheets) ↔ rowOf q records row.id = some row := by
  rw [rowsOf, List.mem_filterMap]
  constructor
  · rintro ⟨id, -, hrow⟩
    rwa [id_of_rowOf hrow]
  · intro hrow
    obtain ⟨packed, hpacked, -⟩ := Option.bind_eq_some_iff.mp hrow
    exact ⟨row.id, Heap.mem_ids (h.keeps.home_of_some hpacked).1, hrow⟩

theorem Searches.not_guest (h : Searches q f sheets records) (hrow : row ∈ rowsOf q records (Heap.ids sheets))
    (b : Bytes) : Heap.cells sheets row.id ≠ .guest b := by
  obtain ⟨packed, hpacked, -⟩ := Option.bind_eq_some_iff.mp (h.mem_rowsOf_iff.mp hrow)
  exact (h.keeps.home_of_some hpacked).2 b

theorem Searches.pairwise_rowsOf (h : Searches q f sheets records) :
    (rowsOf q records (Heap.ids sheets)).Pairwise fun row row' => row.id.Before row'.id := by
  rw [rowsOf, List.pairwise_filterMap]
  refine (Heap.pairwise_ids h.shows h.lt).imp ?_
  intro id id' hbefore row hrow row' hrow'
  rwa [id_of_rowOf hrow, id_of_rowOf hrow']

end

/-- A search comes upon the first of the rows and leaves what it has not yet visited, or there is
none. -/
def Finds {α : Type} (work : RecordM (Option (Row × α))) (f : PagedFile) (rows : List Row)
    (Left : α → List Row → Prop) : Prop :=
  (rows = [] ∧ Does work f none f)
  ∨ ∃ row more left, rows = row :: more ∧ Does work f (some (row, left)) f ∧ Left left more

theorem Finds.after {α β : Type} {x : RecordM β} {b : β} {k : β → RecordM (Option (Row × α))} {rows : List Row}
    {Left : α → List Row → Prop} (hx : Does x f b f) (hk : Finds (k b) f rows Left) :
    Finds (x >>= k) f rows Left := by
  rcases hk with ⟨hno, hdoes⟩ | ⟨row, more, left, hsome, hdoes, hleft⟩
  · exact .inl ⟨hno, hx.bind hdoes⟩
  · exact .inr ⟨row, more, left, hsome, hx.bind hdoes, hleft⟩

def SlotsLeft (q : Query) (sheets : List Sheet) (records : RecordId → Option Bytes) (p : SlottedPage)
    (slots : List SlotNum) (rows : List Row) : Prop :=
  Visits sheets p slots ∧ rows = rowsOf q records (slots.map (RecordId.mk p.number))

/-- The rows of the slots and pages that are left, which are in the file. -/
structure Left (q : Query) (sheets : List Sheet) (records : RecordId → Option Bytes) (r : Remaining)
    (rows : List Row) : Prop where
  slots : Visits sheets r.page r.slots
  pages : ∀ n ∈ r.pages, n.toNat < sheets.length
  rows_eq : rows = rowsOf q records (r.slots.map (RecordId.mk r.page.number))
    ++ rowsOf q records (r.pages.flatMap (Heap.idsOn sheets))

section
variable (h : Searches q f sheets records)
include h

theorem finds_nextOnPage {p : SlottedPage} {slots : List SlotNum} (hslots : Visits sheets p slots) :
    Finds (nextOnPage q p slots) f (rowsOf q records (slots.map (RecordId.mk p.number)))
      (SlotsLeft q sheets records p) := by
  induction slots with
  | nil => exact .inl ⟨rfl, Does.pure f none⟩
  | cons m slots ih =>
    obtain ⟨⟨v, hv, hp, hm⟩, hrest⟩ := List.forall_mem_cons.mp hslots
    have hlive := Heap.does_liveRecord h.shows h.lt h.keeps hv hp rfl (List.getElem?_eq_getElem hm)
    have hpass : rowOf q records ⟨p.number, m⟩ = none → rowsOf q records ((m :: slots).map (RecordId.mk p.number))
        = rowsOf q records (slots.map (RecordId.mk p.number)) := List.filterMap_cons_none
    cases hrec : records ⟨p.number, m⟩ with
    | none =>
      rw [hrec] at hlive
      rw [hpass (by simp [rowOf, hrec])]
      exact Finds.after hlive (ih hrest)
    | some packed =>
      rw [hrec] at hlive
      obtain ⟨shown, hshown⟩ := h.select _ packed hrec
      have hrow : rowOf q records ⟨p.number, m⟩ = shown.map (Row.mk ⟨p.number, m⟩) := by
        simp [rowOf, hrec, hshown, Except.toOption]
      cases shown with
      | none =>
        rw [hpass hrow]
        exact Finds.after hlive (Finds.after (Heap.does_lift hshown) (ih hrest))
      | some tuple =>
        refine .inr ⟨⟨⟨p.number, m⟩, tuple⟩, _, slots, List.filterMap_cons_some hrow, ?_, hrest, rfl⟩
        exact hlive.bind ((Heap.does_lift hshown).bind (Does.pure f _))

theorem finds_nextOnPages {pages : List PageNum} (hpages : ∀ n ∈ pages, n.toNat < sheets.length) :
    Finds (nextOnPages q pages) f (rowsOf q records (pages.flatMap (Heap.idsOn sheets)))
      (Left q sheets records) := by
  induction pages with
  | nil => exact .inl ⟨rfl, Does.pure f none⟩
  | cons n pages ih =>
    obtain ⟨hlt, hrest⟩ := List.forall_mem_cons.mp hpages
    have hv := List.getElem?_eq_getElem hlt
    obtain ⟨p, hopens, hp⟩ := Heap.exists_opens h.shows hv
    obtain rfl := hopens.number_eq
    have hload := Heap.does_loadPage hopens
    have hrows : rowsOf q records ((p.number :: pages).flatMap (Heap.idsOn sheets))
        = rowsOf q records (p.slotNums.map (RecordId.mk p.number))
          ++ rowsOf q records (pages.flatMap (Heap.idsOn sheets)) := by
      rw [List.flatMap_cons, Heap.slotNums_eq hv hp]
      exact List.filterMap_append
    rw [hrows]
    rcases finds_nextOnPage h (visits_slotNums hv hp) with ⟨hno, hdoes⟩ | ⟨row, more, left, hsome, hdoes, hvisits, rfl⟩
    · rw [hno, List.nil_append]
      exact Finds.after hload (Finds.after hdoes (ih hrest))
    · rw [hsome]
      exact .inr ⟨row, _, ⟨p, left, pages⟩, rfl, hload.bind (hdoes.bind (Does.pure f _)), hvisits, hrest, rfl⟩

theorem finds_advance {r : Remaining} {rows : List Row} (hr : Left q sheets records r rows) :
    Finds (advance q r) f rows (Left q sheets records) := by
  obtain ⟨hslots, hpages, rfl⟩ := hr
  rcases finds_nextOnPage h hslots with ⟨hno, hdoes⟩ | ⟨row, more, left, hsome, hdoes, hvisits, rfl⟩
  · rw [hno, List.nil_append]
    exact Finds.after hdoes (finds_nextOnPages h hpages)
  · rw [hsome]
    exact .inr ⟨row, _, { r with slots := left }, rfl, hdoes.bind (Does.pure f _), hvisits, hpages, rfl⟩

end

/-! ## Whole scans -/

theorem next_of_done {s : RecordScan} (h : s.done = true) : s.next = (none, s) := by
  unfold next
  rw [h]
  rfl

/-- A scan that has rows of a file before it. -/
structure Facing (s : RecordScan) (f : PagedFile) (sheets : List Sheet) (records : RecordId → Option Bytes)
    (rows : List Row) : Prop where
  searches : Searches s.query f sheets records
  left : Left s.query sheets records s.remaining rows
  done_eq : s.done = false
  access : s.access.file = some f

theorem Facing.run_advance {s : RecordScan} {rows : List Row} (hs : s.Facing f sheets records rows) :
    (rows = [] ∧ ∃ c, (advance s.query s.remaining).run s.access = .ok none ⟨some f, c⟩)
    ∨ ∃ row more r c, rows = row :: more ∧ Left s.query sheets records r more
        ∧ (advance s.query s.remaining).run s.access = .ok (some (row, r)) ⟨some f, c⟩ := by
  have haccess : s.access = ⟨some f, s.access.counters⟩ := by
    rw [← hs.access]
  rw [haccess]
  rcases finds_advance hs.searches hs.left with ⟨hno, hdoes⟩ | ⟨row, more, r, hsome, hdoes, hleft⟩
  · obtain ⟨c, hc⟩ := hdoes s.access.counters
    exact .inl ⟨hno, c, hc⟩
  · obtain ⟨c, hc⟩ := hdoes s.access.counters
    exact .inr ⟨row, more, r, c, hsome, hleft, hc⟩

theorem Facing.emits {s : RecordScan} {rows : List Row} (hs : s.Facing f sheets records rows) :
    Emits next rows s := by
  refine emits_of_step (R := fun rows s => s.Facing f sheets records rows) ?_ ?_ hs
  · intro s hs
    rcases hs.run_advance with ⟨-, c, hrun⟩ | ⟨row, more, r, c, hsome, -⟩
    · refine ⟨{ s with done := true, access := ⟨some f, c⟩ }, ?_, next_of_done rfl⟩
      unfold next
      rw [hs.done_eq, hrun]
      rfl
    · cases hsome
  · intro row more s hs
    rcases hs.run_advance with ⟨hno, -⟩ | ⟨row', more', r, c, hsome, hleft, hrun⟩
    · cases hno
    · cases hsome
      refine ⟨{ s with remaining := r, access := ⟨some f, c⟩ }, ?_, ⟨hs.searches, hleft, hs.done_eq, rfl⟩⟩
      unfold next
      rw [hs.done_eq, hrun]
      rfl

theorem run_start {schema : Schema} {tested : String} {comparison : Comparison} {comparand : Option Bytes}
    {projected : List String} (h : Searches q f sheets records)
    (hq : Query.ofNames schema tested comparison comparand projected = .ok q) (c : Counters) :
    ∃ s c', start schema tested comparison comparand projected ⟨some f, c⟩ = .ok s ⟨some f, c'⟩
      ∧ s.Facing f sheets records (rowsOf q records (Heap.ids sheets)) := by
  obtain ⟨c', hcount⟩ := Heap.does_count f c
  have hlength := Heap.toNat_pageCount h.shows h.lt
  refine ⟨⟨q, ⟨SlottedPage.empty 0, [], (List.range sheets.length).map UInt32.ofNat⟩, false, ⟨some f, c'⟩⟩, c',
    ?_, h, ⟨by simp [Visits], ?_, rfl⟩, rfl, rfl⟩
  · unfold start
    rw [run_bind (show (liftM (Query.ofNames schema tested comparison comparand projected) : RecordM Query)
      ⟨some f, c⟩ = .ok q ⟨some f, c⟩ by rw [hq]; rfl)]
    rw [run_bind hcount, hlength, run_get_bind]
    rfl
  · intro n hn
    obtain ⟨i, hi, rfl⟩ := List.mem_map.mp hn
    have hlt := List.mem_range.mp hi
    have := h.lt
    rwa [UInt32.toNat_ofNat_of_lt' (by omega)]

end RecordScan

/-! ## Scans of a run -/

namespace Ledger

variable {L : Ledger} {id : RecordId} {b : Bytes}

theorem packed_eq_some_iff : L.packed id = some b
    ↔ ∃ schema tuple, L id = some (schema, tuple) ∧ Packed.encode schema tuple = .ok b := by
  constructor
  · intro h
    obtain ⟨⟨schema, tuple⟩, hid, hb⟩ := Option.bind_eq_some_iff.mp h
    refine ⟨schema, tuple, hid, ?_⟩
    cases he : Packed.encode schema tuple with
    | error e =>
      simp only [he] at hb
      cases hb
    | ok c =>
      simp only [he] at hb
      cases hb
      rfl
  · rintro ⟨schema, tuple, hid, he⟩
    exact packed_eq hid he

end Ledger

namespace Heap

open Volume

variable {k : Nat} {v : Volume} {L : Ledger} {name : String} {schema : Schema} {tested : String}
  {comparison : Comparison} {comparand : Option Bytes} {projected : List String}

section
variable {f : PagedFile} {q : Query} (hs : f.Stores L)
  (hschema : ∀ id s tuple, L id = some (s, tuple) → s = schema)
  (hselects : q.Selects schema tested comparison comparand projected)
include hs hschema hselects

theorem exists_searches (hb : f.pages.length < UInt32.size) :
    ∃ sheets, RecordScan.Searches q f sheets L.packed := by
  obtain ⟨sheets, hshows, hkeeps⟩ := hs.keeps
  refine ⟨sheets, hshows, hshows.length_eq ▸ hb, hkeeps, ?_⟩
  intro id packed hid
  obtain ⟨s, tuple, hentry, he⟩ := Ledger.packed_eq_some_iff.mp hid
  obtain rfl := hschema _ _ _ hentry
  obtain ⟨shown, hshown, -⟩ := hselects tuple packed he
  exact ⟨shown, hshown⟩

/-- The row of a live record that meets the condition, and of no other identifier. -/
theorem rowOf_eq_some_iff {id : RecordId} {row : Row} :
    RecordScan.rowOf q L.packed id = some row ↔ row.id = id ∧ ∃ tuple, L id = some (schema, tuple)
      ∧ Tuple.Meets schema (NullBitmap.clearPadding schema.length tuple) tested comparison comparand
      ∧ row.tuple = Tuple.project schema (NullBitmap.clearPadding schema.length tuple) projected := by
  constructor
  · intro hrow
    obtain ⟨packed, hpacked, hshown⟩ := Option.bind_eq_some_iff.mp hrow
    obtain ⟨t, ht, rfl⟩ := Option.map_eq_some_iff.mp hshown
    obtain ⟨s, tuple, hid, he⟩ := Ledger.packed_eq_some_iff.mp hpacked
    obtain rfl := hschema _ _ _ hid
    obtain ⟨shown, hselect, hiff⟩ := hselects tuple packed he
    have hsome : shown = some t := by simpa [hselect, Except.toOption] using ht
    exact ⟨rfl, tuple, hid, (hiff t).mp hsome⟩
  · rintro ⟨rfl, tuple, hid, hrow⟩
    obtain ⟨packed, he⟩ := hs.encodable _ _ _ hid
    obtain ⟨shown, hselect, hiff⟩ := hselects tuple packed he
    have hsome := (hiff row.tuple).mpr hrow
    simp [RecordScan.rowOf, Ledger.packed_eq hid he, hselect, hsome, Except.toOption]

end

end Heap

end Tablespace
