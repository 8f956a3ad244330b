import Tablespace.Proofs.Heap.Opened

/-!
# Record files as lists of sheets

A record file shows a list of sheets when each of its pages shows one of them.
The steps of an operation load a page, edit a page in place, or add a page, and
change the list accordingly.
-/

namespace Tablespace

open Access

/-- The pages of the file store the sheets. -/
structure PagedFile.Shows (f : PagedFile) (sheets : List Sheet) : Prop where
  length_eq : f.pages.length = sheets.length
  page : ∀ (i : Nat) pg v, f.pages[i]? = some pg → sheets[i]? = some v →
    ∃ p : SlottedPage, p.bytes = pg.bytes ∧ p.number = UInt32.ofNat i ∧ p.Shows v

namespace Heap

variable {f : PagedFile} {sheets : List Sheet} {n : PageNum} {v v' : Sheet} {packed : Bytes}

theorem shows_empty : PagedFile.empty.Shows [] := ⟨rfl, by simp⟩

theorem exists_opens (h : f.Shows sheets) (hn : sheets[n.toNat]? = some v) :
    ∃ p, f.Opens n p ∧ p.Shows v := by
  have hlt := SlottedPage.lt_of_getElem?_eq_some hn
  have hpg := List.getElem?_eq_getElem (h.length_eq ▸ hlt)
  obtain ⟨p, hbytes, hnum, hp⟩ := h.page _ _ _ hpg hn
  rw [UInt32.ofNat_toNat] at hnum
  refine ⟨p, ⟨_, hpg, ?_⟩, hp⟩
  rw [← hbytes, ← hnum]
  exact hp.ofBytes_eq

theorem shows_replace (h : f.Shows sheets) {q : SlottedPage} (hq : q.number = n) (hv : q.Shows v') :
    (f.replace n.toNat ⟨q.bytes, hv.size_eq⟩).Shows (sheets.set n.toNat v') where
  length_eq := by simp [PagedFile.replace, h.length_eq]
  page i pg v hpg hv' := by
    simp only [PagedFile.replace] at hpg
    by_cases hi : n.toNat = i
    · subst hi
      have hlt := SlottedPage.lt_of_getElem?_eq_some hpg
      rw [List.length_set] at hlt
      rw [List.getElem?_set_self hlt, Option.some.injEq] at hpg
      rw [List.getElem?_set_self (h.length_eq ▸ hlt), Option.some.injEq] at hv'
      subst hpg hv'
      exact ⟨q, rfl, by rw [hq, UInt32.ofNat_toNat], hv⟩
    · rw [List.getElem?_set_ne hi] at hpg hv'
      exact h.page i pg v hpg hv'

theorem shows_append (h : f.Shows sheets) {q : SlottedPage}
    (hq : q.number = UInt32.ofNat sheets.length) (hv : q.Shows v) :
    (f.append ⟨q.bytes, hv.size_eq⟩).Shows (sheets ++ [v]) where
  length_eq := by simp [PagedFile.append, h.length_eq]
  page i pg v' hpg hv' := by
    simp only [PagedFile.append] at hpg
    rcases Nat.lt_or_ge i sheets.length with hi | hi
    · rw [List.getElem?_append_left (h.length_eq ▸ hi)] at hpg
      rw [List.getElem?_append_left hi] at hv'
      exact h.page i pg v' hpg hv'
    · obtain rfl : i = sheets.length := by
        have := SlottedPage.lt_of_getElem?_eq_some hv'
        rw [List.length_append, List.length_singleton] at this
        omega
      rw [← h.length_eq, List.getElem?_concat_length, Option.some.injEq] at hpg
      rw [List.getElem?_concat_length, Option.some.injEq] at hv'
      subst hpg hv'
      exact ⟨q, rfl, hq, hv⟩

theorem does_editPage_of_shows {α : Type} {a : α} {change : PageM α} (h : f.Shows sheets)
    (hn : sheets[n.toNat]? = some v)
    (hc : ∀ p : SlottedPage, p.Shows v →
      ∃ q, change p = .ok a q ∧ q.number = p.number ∧ q.Shows v') :
    ∃ f', Does (editPage n change) f a f' ∧ f'.Shows (sheets.set n.toNat v') := by
  obtain ⟨p, hopens, hp⟩ := exists_opens h hn
  obtain ⟨q, hrun, hqn, hq⟩ := hc p hp
  exact ⟨_, does_editPage hopens hrun hq.size_eq, shows_replace h (hqn.trans hopens.number_eq) hq⟩

/-! ## Placing -/

/-- No page of that number can hold a body of that length. -/
def Full (sheets : List Sheet) (n : PageNum) (length : Nat) : Prop :=
  ∀ v, sheets[n.toNat]? = some v → ¬ v.CanHold length

/-- A record was placed under the identifier: on the first page that can hold it, or on a new page
if there is none. -/
inductive Placed (f : PagedFile) (sheets : List Sheet) (isMoved : Bool) (packed : Bytes) :
    RecordId → PagedFile → List Sheet → Prop
  | onPage {before n after v} (page : Page) : candidates (UInt32.ofNat sheets.length) = before ++ n :: after →
      (∀ m ∈ before, Full sheets m packed.length) → sheets[n.toNat]? = some v → v.CanHold packed.length →
      Placed f sheets isMoved packed ⟨n, v.nextSlot⟩ (f.replace n.toNat page)
        (sheets.set n.toNat (v.insert (SlottedPage.bodyCell isMoved packed)))
  | onNew (page : Page) : (∀ n, Full sheets n packed.length) →
      Placed f sheets isMoved packed ⟨UInt32.ofNat sheets.length, 0⟩ (f.append page)
        (sheets ++ [Sheet.blank.insert (SlottedPage.bodyCell isMoved packed)])

theorem toNat_pageCount (h : f.Shows sheets) (hb : sheets.length < UInt32.size) :
    (UInt32.ofNat f.pages.length).toNat = sheets.length := by
  rw [h.length_eq, UInt32.toNat_ofNat_of_lt' hb]

theorem mem_candidates {count : PageNum} : n ∈ candidates count ↔ n.toNat < count.toNat := by
  have hword : count.toNat < UInt32.size := count.toNat_lt
  unfold candidates
  cases hc : count.toNat with
  | zero => simp
  | succ last =>
    have hlast : (UInt32.ofNat last).toNat = last :=
      UInt32.toNat_ofNat_of_lt' (by omega)
    simp only [List.mem_cons, List.mem_map, List.mem_range]
    constructor
    · rintro (rfl | ⟨i, hi, rfl⟩)
      · rw [hlast]
        omega
      · rw [UInt32.toNat_ofNat_of_lt' (by omega)]
        omega
    · intro hn
      rcases Nat.lt_or_ge n.toNat last with hlt | hge
      · exact .inr ⟨n.toNat, hlt, UInt32.ofNat_toNat⟩
      · exact .inl (UInt32.toNat_inj.mp (by omega))

/-- An empty page has room for every record, whatever the other pages hold. -/
theorem does_placeNew_append (f : PagedFile) (isMoved : Bool) (hsize : packed.length ≤ Packed.maxSize) :
    ∃ q : SlottedPage, q.number = UInt32.ofNat f.pages.length
      ∧ ∃ hq : q.Shows (Sheet.blank.insert (SlottedPage.bodyCell isMoved packed)),
        Does (placeNew packed isMoved) f ⟨UInt32.ofNat f.pages.length, 0⟩
          (f.append ⟨q.bytes, hq.size_eq⟩) := by
  have hfit : Sheet.blank.CanHold packed.length := by
    simp only [Sheet.CanHold, Sheet.blank, Sheet.space, Sheet.used, List.map_nil, List.sum_nil, if_true,
      List.length_nil, Packed.maxSize, Trailer.size, Slot.size, pageSize] at hsize ⊢
    omega
  obtain ⟨q, hrun, hqn, hq⟩ :=
    (SlottedPage.shows_empty (UInt32.ofNat f.pages.length)).run_insert hfit isMoved
  refine ⟨q, hqn, hq, (does_count f).bind ?_⟩
  simp only [EStateM.run, hrun]
  exact (does_liftFile (does_appendPage f hq.size_eq)).bind (Does.pure _ _)

theorem does_placeAmong_full (packed : Bytes) (isMoved : Bool) : ∀ ns : List PageNum,
    (∀ n ∈ ns, ∃ p, f.Opens n p ∧ p.canHold packed.length = false) →
      Does (placeAmong packed isMoved ns) f none f
  | [], _ => Does.pure f none
  | n :: ns, hfull => by
    obtain ⟨p, hp, hcan⟩ := hfull n (List.mem_cons_self ..)
    refine (does_loadPage hp).bind ?_
    rw [hcan, if_neg Bool.false_ne_true]
    exact does_placeAmong_full packed isMoved ns fun m hm => hfull m (List.mem_cons_of_mem _ hm)

/-- Where no page has room for the record it takes a new one. -/
theorem does_place_full (isMoved : Bool) (hsize : packed.length ≤ Packed.maxSize)
    (hfull : ∀ n ∈ candidates (UInt32.ofNat f.pages.length),
      ∃ p, f.Opens n p ∧ p.canHold packed.length = false) :
    ∃ page, Does (place packed isMoved) f ⟨UInt32.ofNat f.pages.length, 0⟩ (f.append page) := by
  obtain ⟨q, -, hq, hnew⟩ := does_placeNew_append f isMoved hsize
  exact ⟨_, (does_count f).bind ((does_placeAmong_full packed isMoved _ hfull).bind hnew)⟩

section
variable (h : f.Shows sheets) (isMoved : Bool) (hsize : packed.length ≤ Packed.maxSize)
include h hsize

/-- The first page that can hold the record takes it; if none can, the file stays as it is. -/
theorem does_placeAmong : ∀ ns : List PageNum, (∀ n ∈ ns, n.toNat < sheets.length) →
    ((∀ n ∈ ns, Full sheets n packed.length) ∧ Does (placeAmong packed isMoved ns) f none f)
      ∨ ∃ before n after v page, ns = before ++ n :: after
        ∧ (∀ m ∈ before, Full sheets m packed.length)
        ∧ sheets[n.toNat]? = some v ∧ v.CanHold packed.length
        ∧ Does (placeAmong packed isMoved ns) f (some ⟨n, v.nextSlot⟩) (f.replace n.toNat page)
        ∧ (f.replace n.toNat page).Shows (sheets.set n.toNat (v.insert (SlottedPage.bodyCell isMoved packed)))
  | [], _ => .inl ⟨by simp, Does.pure f none⟩
  | n :: ns, hns => by
    have hlt := hns n (List.mem_cons_self ..)
    have hn := List.getElem?_eq_getElem hlt
    obtain ⟨p, hopens, hp⟩ := exists_opens h hn
    have hcan := hp.canHold_iff (Nat.le_trans hsize (by decide))
    by_cases hfit : sheets[n.toNat].CanHold packed.length
    · right
      obtain ⟨q, hrun, hqn, hq⟩ := hp.run_insert hfit isMoved
      refine ⟨[], n, ns, _, ⟨q.bytes, hq.size_eq⟩, rfl, by simp, hn, hfit, (does_loadPage hopens).bind ?_,
        shows_replace h (hqn.trans hopens.number_eq) hq⟩
      simp only [hcan.mpr hfit, if_true, EStateM.run, hrun]
      exact (does_liftFile (does_writePage hopens.lt hq.size_eq)).bind (Does.pure _ _)
    · have hskip : ∀ (a : Option RecordId) (f' : PagedFile), Does (placeAmong packed isMoved ns) f a f' →
          Does (placeAmong packed isMoved (n :: ns)) f a f' := by
        intro a f' hrest
        apply (does_loadPage hopens).bind
        rw [if_neg (mt hcan.mp hfit)]
        exact hrest
      have hnot : Full sheets n packed.length := by
        intro v hv
        rw [hn] at hv
        cases hv
        exact hfit
      rcases does_placeAmong ns fun m hm => hns m (List.mem_cons_of_mem _ hm) with
        ⟨hall, hrest⟩ | ⟨before, m, after, v, page, rfl, hbefore, hm, hv, hrest, hf'⟩
      · exact .inl ⟨List.forall_mem_cons.mpr ⟨hnot, hall⟩, hskip _ _ hrest⟩
      · exact .inr ⟨n :: before, m, after, v, page, rfl, List.forall_mem_cons.mpr ⟨hnot, hbefore⟩, hm, hv,
          hskip _ _ hrest, hf'⟩

theorem does_placeNew : ∃ page, Does (placeNew packed isMoved) f ⟨UInt32.ofNat sheets.length, 0⟩ (f.append page)
    ∧ (f.append page).Shows (sheets ++ [Sheet.blank.insert (SlottedPage.bodyCell isMoved packed)]) := by
  obtain ⟨q, hqn, hq, hdoes⟩ := does_placeNew_append f isMoved hsize
  rw [h.length_eq] at hqn hdoes
  exact ⟨_, hdoes, shows_append h hqn hq⟩

theorem does_place (hb : sheets.length < UInt32.size) :
    ∃ id f' sheets', Does (place packed isMoved) f id f' ∧ f'.Shows sheets'
      ∧ Placed f sheets isMoved packed id f' sheets' := by
  have hcount := toNat_pageCount h hb
  have hmem : ∀ n ∈ candidates (UInt32.ofNat f.pages.length), n.toNat < sheets.length := by
    intro n hn
    rw [mem_candidates, hcount] at hn
    exact hn
  have hfirst := does_count f
  rcases does_placeAmong h isMoved hsize _ hmem with
    ⟨hall, hnone⟩ | ⟨before, n, after, v, page, he, hbefore, hn, hv, hsome, hf'⟩
  · obtain ⟨page, hnew, hf'⟩ := does_placeNew h isMoved hsize
    refine ⟨_, _, _, hfirst.bind (hnone.bind hnew), hf', .onNew page fun n v hv => ?_⟩
    refine hall n (mem_candidates.mpr ?_) v hv
    rw [hcount]
    exact SlottedPage.lt_of_getElem?_eq_some hv
  · rw [h.length_eq] at he
    exact ⟨_, _, _, hfirst.bind (hsome.bind (Does.pure _ _)), hf', .onPage page he hbefore hn hv⟩

end

end Heap

end Tablespace
