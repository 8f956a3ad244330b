import Tablespace.Proofs.Heap.Atomic
import Tablespace.Proofs.Page.Steady
import Tablespace.Proofs.Record.RoundTrip

/-!
# What failed operations leave

An insert that fails leaves the file as it was, whatever its bytes are. A delete or
an update changes more than one page where a record is relocated, and fails in
between only on a page that cannot give up the body of the record.
-/

namespace Tablespace

namespace Heap

open Access

variable {f : PagedFile} {n : PageNum} {p q : SlottedPage} {packed : Bytes} {id home target : RecordId}
  {o l : UInt16} {s : Slot} {e : Halt}

/-! ## Giving up a relocated body -/

/-- Where the first file forwards a record the second one does so too. -/
def KeepsHomes (f f₁ : PagedFile) : Prop :=
  ∀ (id : RecordId) p target, f.Opens id.page p → p.slot id.slot = .ok (.forwarded target) →
    ∃ q, f₁.Opens id.page q ∧ q.slot id.slot = .ok (.forwarded target)

theorem keepsHomes_replace (h : f.Opens n p) (hq : p.KeepsPointers q) :
    KeepsHomes f (f.replace n.toNat ⟨q.bytes, hq.size_eq⟩) := by
  intro id r target hr hs
  by_cases hn : n = id.page
  · subst hn
    obtain rfl := h.inj hr
    exact ⟨q, h.replace_own hq.toReopens, hq.pointers _ _ hs⟩
  · exact ⟨r, hr.replace_other hn _, hs⟩

theorem does_releaseMoved_of_yields (home : RecordId) (hf : f.pages.length < UInt32.size)
    (h : f.Opens target.page p) (hs : p.slot target.slot = .ok (.moved o l))
    (hy : p.Yields target.slot) : ∃ f₁, Does (releaseMoved home target) f () f₁ ∧ KeepsHomes f f₁ := by
  obtain ⟨q, hrun, hq⟩ := hy.run_remove h.opens hs rfl
  exact ⟨_, (does_follow home (h.lt_count hf) h hs).bind (does_editPage h hrun hq.size_eq),
    keepsHomes_replace h hq⟩

theorem atomic_releaseMoved (home target : RecordId) (f : PagedFile) :
    Atomic (releaseMoved home target) f fun _ f₁ => ∃ p q o l, f.Opens target.page p
      ∧ p.slot target.slot = .ok (.moved o l) ∧ SlottedPage.remove target.slot p = .ok () q
      ∧ ∃ hb : q.bytes.length = pageSize, f₁ = f.replace target.page.toNat ⟨q.bytes, hb⟩ := by
  refine (atomic_follow home target f).bind ?_
  rintro ⟨p, o, l⟩ f₁ ⟨rfl, -, hp, hs⟩
  refine .inl ⟨rfl, (atomic_editPage _ _ _).mono ?_⟩
  rintro u f₂ ⟨p', q, hp', hrun, hb, rfl⟩
  obtain rfl := hp.inj hp'
  exact ⟨p, q, o, l, hp, hs, hrun, hb, rfl⟩

theorem does_removeHome (h : f.Opens id.page p) (hs : p.slot id.slot = .ok (.forwarded target)) :
    ∃ f₁, Does (editPage id.page (SlottedPage.remove id.slot)) f () f₁ := by
  obtain ⟨q, hrun, hq⟩ := h.opens.run_remove_pointer hs
  exact ⟨_, does_editPage h hrun hq.size_eq⟩

theorem does_forwardHome (h : f.Opens id.page p) (hs : p.slot id.slot = .ok (.forwarded target))
    (newTarget : RecordId) :
    ∃ f₁, Does (editPage id.page (SlottedPage.forward id.slot newTarget)) f () f₁ := by
  obtain ⟨q, hrun, hq⟩ := h.opens.run_forward_pointer hs newTarget
  exact ⟨_, does_editPage h hrun hq.size_eq⟩

/-! ## Pointers that lead astray -/

theorem refuses_follow_of_slot (home : RecordId) (hcount : target.page < UInt32.ofNat f.pages.length)
    (h : f.Opens target.page p) (hs : p.slot target.slot = .ok s) (hne : ∀ o l, s ≠ .moved o l) :
    Refuses (follow home target) f (.failed (.corruption home.page (.forwardsTo home.slot target s))) := by
  refine (does_count f).bind_fails ?_
  rw [if_pos hcount]
  refine (does_loadPage h).bind_fails ?_
  simp only [hs]
  cases s with
  | moved o l => exact absurd rfl (hne o l)
  | occupied | forwarded | deleted => exact Fails.throw f _

theorem refuses_delete_of_follow (hcount : id.page < UInt32.ofNat f.pages.length)
    (h : f.Opens id.page p) (hs : p.slot id.slot = .ok (.forwarded target))
    (hno : Refuses (follow id target) f e) : Refuses (delete id) f e :=
  (does_homeSlot hcount h hs).bind_fails hno.bind.bind

theorem refuses_update_of_follow {schema : Schema} {tuple : Bytes}
    (hpacked : Packed.encode schema tuple = .ok packed) (hcount : id.page < UInt32.ofNat f.pages.length)
    (h : f.Opens id.page p) (hs : p.slot id.slot = .ok (.forwarded target))
    (hno : Refuses (follow id target) f e) : Refuses (update schema tuple id) f e :=
  (does_lift hpacked).bind_fails ((does_homeSlot hcount h hs).bind_fails hno.bind)

/-! ## Operations -/

theorem atomic_insert (schema : Schema) (tuple : Bytes) (f : PagedFile) :
    Atomic (insert schema tuple) f fun _ _ => True := by
  refine (atomic_lift _ _).bind ?_
  rintro packed f₁ ⟨rfl, -⟩
  exact .inl ⟨rfl, (atomic_place packed false f₁).mono fun _ _ _ => trivial⟩

theorem atomic_delete (hown : ∀ target p, slotAt f id = some (.forwarded target) →
    target.page = id.page → f.Opens target.page p → p.Yields target.slot) :
    Atomic (delete id) f fun _ _ => True := by
  refine (atomic_homeSlot id f).bind ?_
  rintro s f₁ ⟨rfl, p, hp, hs⟩
  refine .inl ⟨rfl, ?_⟩
  cases s with
  | occupied o l =>
    exact (atomic_editPage _ _ f₁).mono fun _ _ _ => trivial
  | forwarded target =>
    refine (atomic_releaseMoved id target f₁).bind ?_
    rintro u f₂ ⟨q, r, o, l, hq, hmoved, hrun, hb, rfl⟩
    -- The body is gone, so its pointer must still be there and go as well.
    right
    by_cases hpage : target.page = id.page
    · have hy := hown target q (slotAt_eq_some_iff.mpr ⟨p, hp, hs⟩) hpage hq
      rw [hpage] at hq
      obtain rfl := hp.inj hq
      obtain ⟨r', hrun', hr⟩ := hy.run_remove hp.opens hmoved rfl
      rw [hrun] at hrun'
      cases hrun'
      obtain ⟨r', hr', hs'⟩ := keepsHomes_replace hp hr id p target hp hs
      obtain ⟨f₃, hdoes⟩ := does_removeHome hr' hs'
      rw [hpage]
      exact ⟨(), f₃, hdoes, trivial⟩
    · obtain ⟨f₃, hdoes⟩ := does_removeHome (hp.replace_other hpage ⟨r.bytes, hb⟩) hs
      exact ⟨(), f₃, hdoes, trivial⟩
  | moved | deleted => exact (Fails.throw f₁ _).bind.atomic

theorem atomic_updateAtHome (hp : f.Opens id.page p) (hs : p.slot id.slot = .ok (.occupied o l))
    (hy : p.Yields id.slot) (hsize : packed.length ≤ Packed.maxSize) :
    Atomic (updateAtHome id packed) f fun _ _ => True := by
  refine (atomic_editPage _ _ f).bind ?_
  rintro fits f₁ ⟨p', q, hp', hrun, hb, rfl⟩
  obtain rfl := hp.inj hp'
  cases fits with
  | true => exact .inr ⟨(), _, Does.pure _ _, trivial⟩
  | false =>
    obtain ⟨rfl, hfull⟩ := hp.opens.full_of_resize (Nat.le_trans hsize (by decide)) hrun
    refine .inl ⟨hp.replace_self hb, ?_⟩
    refine (atomic_place packed true f).bind ?_
    rintro target f₂ ⟨-, hkeeps⟩
    have hp₂ := hkeeps _ _ hp hfull
    obtain ⟨r, hrun', hr⟩ := hy.run_forward hp.opens hs target
    exact .inr ⟨(), _, does_editPage hp₂ hrun' hr.size_eq, trivial⟩

/-- Once the home slot has taken the record back, the body that it forwarded to is still there. -/
theorem moved_of_restore (hp : f.Opens id.page p) (hs : p.slot id.slot = .ok (.forwarded target))
    (hq : p.Changes id.slot (.occupied o l) q)
    (hbound : p.trailer.boundary.toNat ≤ q.trailer.boundary.toNat)
    {r : SlottedPage} {a k : UInt16} (hr : f.Opens target.page r)
    (hmoved : r.slot target.slot = .ok (.moved a k)) (hy : r.Yields target.slot) :
    ∃ r', (f.replace id.page.toNat ⟨q.bytes, hq.size_eq⟩).Opens target.page r'
      ∧ r'.slot target.slot = .ok (.moved a k) ∧ r'.Yields target.slot := by
  by_cases hpage : id.page = target.page
  · rw [← hpage] at hr ⊢
    obtain rfl := hp.inj hr
    have hne : target.slot ≠ id.slot := by
      intro he
      rw [he, hs] at hmoved
      cases hmoved
    exact ⟨q, hp.replace_own hq.toReopens, (hq.others _ hne).trans hmoved, hy.of_changes hq hne hbound⟩
  · exact ⟨r, hr.replace_other hpage _, hmoved, hy⟩

theorem atomic_updateMoved (hp : f.Opens id.page p) (hs : p.slot id.slot = .ok (.forwarded target))
    (hy : ∀ q, f.Opens target.page q → q.Yields target.slot) (hsize : packed.length ≤ Packed.maxSize)
    (hf : f.pages.length + 1 < UInt32.size) : Atomic (updateMoved id target packed) f fun _ _ => True := by
  refine (atomic_follow id target f).bind ?_
  rintro ⟨r, a, k⟩ f₁ ⟨rfl, hcount, hr, hmoved⟩
  refine .inl ⟨rfl, ?_⟩
  have hpacked : packed.length ≤ pageSize := Nat.le_trans hsize (by decide)
  refine (atomic_editPage _ _ f₁).bind ?_
  rintro fits f₂ ⟨r', q, hr', hrun, hb, rfl⟩
  obtain rfl := hr.inj hr'
  cases fits with
  | true => exact .inr ⟨(), _, Does.pure _ _, trivial⟩
  | false =>
    obtain ⟨rfl, hfull⟩ := hr.opens.full_of_resize hpacked hrun
    refine .inl ⟨hr.replace_self hb, ?_⟩
    refine (atomic_editPage _ _ f₁).bind ?_
    rintro fits f₂ ⟨p', q', hp', hrun', hb', rfl⟩
    obtain rfl := hp.inj hp'
    rcases Nat.lt_or_ge p.freeSpace.toNat packed.length with hlt | hle
    · rw [SlottedPage.run_restore_full hs hlt] at hrun'
      cases hrun'
      refine .inl ⟨hp.replace_self hb', ?_⟩
      refine (atomic_place packed true f₁).bind ?_
      rintro newTarget f₂ ⟨hlen, hkeeps⟩
      -- The new body lies on neither of the two pages, since both are full.
      have hr₂ := hkeeps _ _ hr hfull
      have hp₂ := hkeeps _ _ hp (hp.opens.canHold_eq_false hlt hpacked)
      obtain ⟨f₃, hrelease, hhomes⟩ := does_releaseMoved_of_yields id (by omega) hr₂ hmoved (hy _ hr)
      obtain ⟨p₃, hp₃, hs₃⟩ := hhomes id p target hp₂ hs
      obtain ⟨f₄, hdoes⟩ := does_forwardHome hp₃ hs₃ newTarget
      exact .inr ⟨(), f₄, hrelease.bind hdoes, trivial⟩
    · obtain ⟨p₂, hrun₂, hbound, hp₂⟩ := hp.opens.run_restore hs hle
      rw [hrun'] at hrun₂
      cases hrun₂
      obtain ⟨r', hr', hmoved', hy'⟩ := moved_of_restore hp hs hp₂ hbound hr hmoved (hy _ hr)
      have hlen : (f₁.replace id.page.toNat ⟨q'.bytes, hb'⟩).pages.length < UInt32.size := by
        simp only [PagedFile.replace, List.length_set]
        omega
      obtain ⟨f₃, hrelease, -⟩ := does_releaseMoved_of_yields id hlen hr' hmoved' hy'
      exact .inr ⟨(), f₃, hrelease, trivial⟩

/-- The page that holds the body of the record can give it up. -/
structure Yields (f : PagedFile) (id : RecordId) : Prop where
  home : ∀ o l p, slotAt f id = some (.occupied o l) → f.Opens id.page p → p.Yields id.slot
  away : ∀ target p, slotAt f id = some (.forwarded target) → f.Opens target.page p →
    p.Yields target.slot

theorem atomic_update (schema : Schema) (tuple : Bytes) (hy : Yields f id)
    (hf : f.pages.length + 1 < UInt32.size) : Atomic (update schema tuple id) f fun _ _ => True := by
  refine (atomic_lift _ _).bind ?_
  rintro packed f₁ ⟨rfl, hpacked⟩
  refine .inl ⟨rfl, (atomic_homeSlot id f₁).bind ?_⟩
  rintro s f₂ ⟨rfl, p, hp, hs⟩
  have hsize := Packed.length_le_of_encode hpacked
  have hslot := slotAt_eq_some_iff.mpr ⟨p, hp, hs⟩
  refine .inl ⟨rfl, ?_⟩
  cases s with
  | occupied o l => exact atomic_updateAtHome hp hs (hy.home o l p hslot hp) hsize
  | forwarded target =>
    exact atomic_updateMoved hp hs (fun q => hy.away target q hslot) hsize hf
  | moved | deleted => exact (Fails.throw f₂ _).atomic

/-- Whatever the bytes of the file are, a failed operation leaves them as they were: an insert always,
a delete unless the record is forwarded within a page that cannot give up its body, and an update
unless the page with the body of the record cannot give it up. -/
theorem file_eq_of_error (f : PagedFile) (c : Counters) :
    (∀ schema tuple e s, insert schema tuple ⟨some f, c⟩ = .error e s → s.file = some f)
    ∧ (∀ id, (∀ target p, slotAt f id = some (.forwarded target) → target.page = id.page →
        f.Opens target.page p → p.Yields target.slot) →
      ∀ e s, delete id ⟨some f, c⟩ = .error e s → s.file = some f)
    ∧ ∀ id, Yields f id → f.pages.length + 1 < UInt32.size →
      ∀ schema tuple e s, update schema tuple id ⟨some f, c⟩ = .error e s → s.file = some f :=
  ⟨fun schema tuple _ _ h => (atomic_insert schema tuple f).file_eq h,
    fun _ hown _ _ h => (atomic_delete hown).file_eq h,
    fun _ hy hf schema tuple _ _ h => (atomic_update schema tuple hy hf).file_eq h⟩

/-- A page with one slot, which forwards to itself. -/
def circularPage : SlottedPage := .ofDirectory (Slot.forwarded ⟨0, 0⟩).encode ⟨Trailer.noSlot, 1, 0⟩ 0

def circular : PagedFile := .single circularPage (SlottedPage.length_ofDirectory rfl (by decide))

theorem opens_circular : circular.Opens 0 circularPage :=
  PagedFile.opens_single _ (SlottedPage.ofBytes_ofDirectory rfl (by decide))

theorem slot_circularPage : circularPage.slot 0 = .ok (.forwarded ⟨0, 0⟩) :=
  SlottedPage.slot_ofDirectory rfl (by decide) (by decide)

theorem yields_circularPage : circularPage.Yields 0 := by
  refine ⟨fun m hm => ?_, fun s o l hs hb => ?_⟩
  · obtain rfl : m = 0 := by
      rw [← UInt16.toNat_inj]
      exact Nat.lt_one_iff.mp (UInt16.lt_iff_toNat_lt.mp hm)
    exact ⟨_, slot_circularPage⟩
  · rw [slot_circularPage, Except.ok.injEq] at hs
    rw [← hs] at hb
    cases hb

theorem file_eq_of_error_circular :
    (∃ e s, delete ⟨0, 0⟩ ⟨some circular, {}⟩ = .error (.failed e) s ∧ s.file = some circular)
    ∧ ∃ e s, update [.int "a"] [0, 7, 0, 0, 0] ⟨0, 0⟩ ⟨some circular, {}⟩ = .error (.failed e) s
      ∧ s.file = some circular := by
  have hopens : circular.Opens (⟨0, 0⟩ : RecordId).page circularPage := opens_circular
  have hcount := hopens.lt_count (by change 1 < UInt32.size; decide)
  have hyields : ∀ target q, slotAt circular ⟨0, 0⟩ = some (.forwarded target) →
      circular.Opens target.page q → q.Yields target.slot := by
    intro target q ht hq
    obtain ⟨p, hp, hs⟩ := slotAt_eq_some_iff.mp ht
    rw [← hopens.inj hp, slot_circularPage] at hs
    cases hs
    rw [← hopens.inj hq]
    exact yields_circularPage
  have hno := refuses_follow_of_slot ⟨0, 0⟩ hcount hopens slot_circularPage fun o l => by simp
  obtain ⟨-, hdelete, hupdate⟩ := file_eq_of_error circular {}
  constructor
  · obtain ⟨c, hc⟩ := refuses_delete_of_follow hcount hopens slot_circularPage hno {}
    exact ⟨_, _, hc, hdelete ⟨0, 0⟩ (fun target p ht _ => hyields target p ht) _ _ hc⟩
  · have hpacked : Packed.encode [.int "a"] [0, 7, 0, 0, 0] = .ok [0, 4, 0, 7, 0, 0, 0] := by decide
    obtain ⟨c, hc⟩ := refuses_update_of_follow hpacked hcount hopens slot_circularPage hno {}
    refine ⟨_, _, hc, hupdate ⟨0, 0⟩ ⟨fun o l p ho _ => ?_, hyields⟩ ?_ _ _ _ _ hc⟩
    · obtain ⟨q, hq, hs⟩ := slotAt_eq_some_iff.mp ho
      rw [← hopens.inj hq, slot_circularPage] at hs
      cases hs
    · change 1 + 1 < UInt32.size
      decide

/-! ## Records that cannot leave their page -/

/-- An update finds another place for a record and stores it there before it looks whether the page
can give the old body up. Where it cannot, the update fails and leaves what it stored. -/
theorem fails_update_of_not_yields {schema : Schema} {tuple : Bytes} {f₁ : PagedFile}
    (hpacked : Packed.encode schema tuple = .ok packed) (hcount : id.page < UInt32.ofNat f.pages.length)
    (hp : f.Opens id.page p) (hs : p.slot id.slot = .ok (.occupied o l))
    (hin : o.toNat + l.toNat ≤ p.trailer.boundary.toNat)
    (hfull : (p.freeSpace + l.toUInt64).toNat < packed.length)
    (hplace : Does (place packed true) f target f₁) (hno : ¬ p.Yields id.slot) :
    ∃ e, Fails (update schema tuple id) f (.failed e) f₁ := by
  have hsize : packed.length ≤ pageSize := Nat.le_trans (Packed.length_le_of_encode hpacked) (by decide)
  have hresize := SlottedPage.run_resize_full hs rfl hfull
  obtain ⟨-, hkeeps⟩ := (atomic_place packed true f).of_does hplace
  have hp₁ := hkeeps _ _ hp (hp.opens.full_of_resize hsize hresize).2
  cases hrun : SlottedPage.forward id.slot target p with
  | ok u q => exact absurd ((hp.opens.forward_iff hs hin target).mp ⟨q, hrun⟩) hno
  | error halt q =>
    have hstop : o.toNat + l.toNat < UInt16.size := Nat.lt_of_le_of_lt hin p.trailer.boundary.toNat_lt
    cases halt with
    | overflow => exact absurd hrun ((hp.opens.steady_forward hs hstop target).ne_overflow q)
    | failed e =>
      refine ⟨e, (does_lift hpacked).bind_fails ((does_homeSlot hcount hp hs).bind_fails ?_)⟩
      exact (does_editPage_self hp hresize).bind_fails (hplace.bind_fails (refuses_editPage hp₁ hrun))

/-- A full page with a record beside a slot that has an unknown tag. -/
def illegiblePage : SlottedPage :=
  .ofDirectory ([9, 0, 0, 0, 0, 0, 0, 0] ++ (Slot.occupied 0 4).encode) ⟨Trailer.noSlot, 2, 4074⟩ 0

def illegible : PagedFile := .single illegiblePage (SlottedPage.length_ofDirectory rfl (by decide))

theorem opens_illegible : illegible.Opens 0 illegiblePage :=
  PagedFile.opens_single _ (SlottedPage.ofBytes_ofDirectory rfl (by decide))

theorem slot_illegiblePage : illegiblePage.slot 0 = .ok (.occupied 0 4)
    ∧ illegiblePage.slot 1 = .error (.corruption 0 (.unknownSlotTag 9)) :=
  ⟨SlottedPage.slot_ofDirectory rfl (by decide) (by decide),
    SlottedPage.slot_ofDirectory rfl (by decide) (by decide)⟩

/-- The update fails, and its file has a page more. -/
theorem update_illegible : ∃ e s f₁,
    update [.int "a"] [0, 7, 0, 0, 0] ⟨0, 0⟩ ⟨some illegible, {}⟩ = .error (.failed e) s
      ∧ s.file = some f₁ ∧ f₁.pages.length = illegible.pages.length + 1 := by
  have hpacked : Packed.encode [.int "a"] [0, 7, 0, 0, 0] = .ok [0, 4, 0, 7, 0, 0, 0] := by decide
  have hopens : illegible.Opens (⟨0, 0⟩ : RecordId).page illegiblePage := opens_illegible
  have hcount := hopens.lt_count (by change 1 < UInt32.size; decide)
  have hfree : illegiblePage.freeSpace = 0 := by decide
  have hfull : ∀ n ∈ candidates (UInt32.ofNat illegible.pages.length),
      ∃ p, illegible.Opens n p ∧ p.canHold 7 = false := by
    intro n hn
    obtain rfl : n = 0 := UInt32.toNat_inj.mp (Nat.lt_one_iff.mp (mem_candidates.mp hn))
    exact ⟨illegiblePage, hopens, by decide⟩
  obtain ⟨page, hplace⟩ := does_place_full true (Packed.length_le_of_encode hpacked) hfull
  have hno : ¬ illegiblePage.Yields 0 := by
    intro hy
    obtain ⟨s, hs⟩ := hy.legible 1 (by decide)
    rw [slot_illegiblePage.2] at hs
    cases hs
  obtain ⟨e, hfails⟩ := fails_update_of_not_yields hpacked hcount hopens slot_illegiblePage.1
    (by decide) (by rw [hfree]; decide) hplace hno
  obtain ⟨c, hc⟩ := hfails {}
  exact ⟨e, _, _, hc, rfl, by simp [PagedFile.append]⟩

end Heap

end Tablespace
