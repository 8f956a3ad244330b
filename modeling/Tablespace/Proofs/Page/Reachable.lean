import Tablespace.Proofs.Page.Refusals

/-!
# Runs on a page

A run starts from a formatted page and makes edits on it, in any order and with
any arguments. A sheet keeps the books: it says of every edit whether the page
takes it and what the page holds afterwards, and the page does what it says.
-/

namespace Tablespace

namespace SlottedPage

inductive Edit where
  | insert (record : Bytes) (isMoved : Bool)
  | remove (n : SlotNum)
  | resize (n : SlotNum) (record : Bytes)
  | forward (n : SlotNum) (target : RecordId)
  | restore (n : SlotNum) (record : Bytes)

inductive Reply where
  | placed (n : SlotNum)
  | done
  | fits
  | full

def Reply.ofRoom (fits : Bool) : Reply := if fits then .fits else .full

def Edit.perform : Edit → PageM Reply
  | .insert record isMoved => return .placed (← SlottedPage.insert record isMoved)
  | .remove n => do
    SlottedPage.remove n
    return .done
  | .resize n record => return .ofRoom (← SlottedPage.resize n record)
  | .forward n target => do
    SlottedPage.forward n target
    return .done
  | .restore n record => return .ofRoom (← SlottedPage.restore n record)

end SlottedPage

open SlottedPage (Edit Reply bodyCell)

/-- The bytes that a cell holds, and whether it holds them for another page. -/
def Cell.body? : Cell → Option (Bool × Bytes)
  | .record b => some (false, b)
  | .guest b => some (true, b)
  | _ => none

theorem Cell.body?_eq_some_iff {c : Cell} {isMoved : Bool} {b : Bytes} :
    c.body? = some (isMoved, b) ↔ c = bodyCell isMoved b := by
  cases c <;> cases isMoved <;> simp [body?, bodyCell]

namespace Sheet

instance (v : Sheet) (length : Nat) : Decidable (v.CanHold length) :=
  inferInstanceAs (Decidable (_ ≤ _))

/-- What an edit replies and the sheet that it leaves, none where the edit is refused. -/
def edit (v : Sheet) : Edit → Option (Reply × Sheet)
  | .insert record isMoved =>
    if v.CanHold record.length then some (.placed v.nextSlot, v.insert (bodyCell isMoved record))
    else none
  | .remove n =>
    match v.cells[n.toNat]? with
    | none | some .free => none
    | some _ => some (.done, v.release n)
  | .resize n record =>
    match v.cells[n.toNat]?.bind Cell.body? with
    | some (isMoved, old) =>
      if record.length ≤ v.space + old.length then some (.fits, v.put n (bodyCell isMoved record))
      else some (.full, v)
    | none => none
  | .forward n target =>
    match v.cells[n.toNat]? with
    | some (.record _) | some (.pointer _) => some (.done, v.put n (.pointer target))
    | _ => none
  | .restore n record =>
    match v.cells[n.toNat]? with
    | some (.pointer _) =>
      if record.length ≤ v.space then some (.fits, v.put n (.record record)) else some (.full, v)
    | _ => none

/-- The sheet after an edit; a refused edit leaves it as it is. -/
def after (v : Sheet) (e : Edit) : Sheet := (v.edit e).elim v Prod.snd

end Sheet

namespace SlottedPage

/-- The page does what the sheet says of the edit. -/
inductive Follows (p : SlottedPage) (v : Sheet) (e : Edit) : Prop
  | refused : v.edit e = none → Refuses e.perform p → Follows p v e
  | took {r v' q} : v.edit e = some (r, v') → e.perform p = .ok r q → q.number = p.number →
      q.Shows v' → Follows p v e

/-- The pages that runs lead to, with the sheets that were kept beside them. -/
inductive Runs : SlottedPage → Sheet → Prop
  | start {b number p} : format b number = .ok p → Runs p .blank
  | replied {p q v} {e : Edit} {r} : Runs p v → e.perform p = .ok r q → Runs q (v.after e)
  | failed {p q v} {e : Edit} {err} : Runs p v → e.perform p = .error err q → Runs q (v.after e)

variable {p q : SlottedPage} {v v' : Sheet} {n : SlotNum} {c : Cell} {e : Edit} {r : Reply}

/-! ## One edit -/

theorem run_return {α : Type} {x : PageM α} {a : α} (h : x p = .ok a q) (g : α → Reply) :
    (do return g (← x) : PageM Reply) p = .ok (g a) q := run_bind h

theorem Shows.follows_insert (h : p.Shows v) (record : Bytes) (isMoved : Bool) :
    p.Follows v (.insert record isMoved) := by
  by_cases hfit : v.CanHold record.length
  · obtain ⟨q, hq, hnum, hshows⟩ := h.run_insert hfit isMoved
    exact .took (by simp [Sheet.edit, hfit]) (run_return hq _) hnum hshows
  · exact .refused (by simp [Sheet.edit, hfit]) ((h.refuses_insert hfit isMoved).bind _)

theorem Shows.follows_remove (h : p.Shows v) (n : SlotNum) : p.Follows v (.remove n) := by
  have remove {c : Cell} (hc : v.cells[n.toNat]? = some c) (hne : c ≠ .free) :
      p.Follows v (.remove n) := by
    obtain ⟨q, hq, hnum, hshows⟩ := h.run_remove hc hne
    refine .took ?_ (run_return hq _) hnum hshows
    cases c <;> simp_all [Sheet.edit]
  cases hc : v.cells[n.toNat]? with
  | none => exact .refused (by simp [Sheet.edit, hc]) ((h.refuses_remove (.inl hc)).bind _)
  | some c =>
    by_cases hne : c = .free
    · subst hne
      exact .refused (by simp [Sheet.edit, hc]) ((h.refuses_remove (.inr hc)).bind _)
    · exact remove hc hne

theorem Shows.follows_resize (h : p.Shows v) (n : SlotNum) (record : Bytes) :
    p.Follows v (.resize n record) := by
  cases hb : v.cells[n.toNat]?.bind Cell.body? with
  | none =>
    refine .refused (by simp [Sheet.edit, hb]) ((h.refuses_resize record fun isMoved old hc => ?_).bind _)
    rw [hc, Option.bind_some, Cell.body?_eq_some_iff.mpr rfl] at hb
    cases hb
  | some body =>
    obtain ⟨isMoved, old⟩ := body
    obtain ⟨c, hc, hbody⟩ := Option.bind_eq_some_iff.mp hb
    obtain rfl := Cell.body?_eq_some_iff.mp hbody
    by_cases hfit : record.length ≤ v.space + old.length
    · obtain ⟨q, hq, hnum, hshows⟩ := h.run_resize hc hfit
      exact .took (by simp [Sheet.edit, hb, hfit, Reply.ofRoom]) (run_return hq _) hnum hshows
    · exact .took (by simp [Sheet.edit, hb, hfit, Reply.ofRoom])
        (run_return (h.run_resize_full hc (Nat.not_le.mp hfit)) _) rfl h

theorem Shows.follows_forward (h : p.Shows v) (n : SlotNum) (target : RecordId) :
    p.Follows v (.forward n target) := by
  by_cases hhome : ∃ c, v.cells[n.toNat]? = some c ∧ ((∃ b, c = .record b) ∨ ∃ t, c = .pointer t)
  · obtain ⟨c, hc, hkind⟩ := hhome
    obtain ⟨q, hq, hnum, hshows⟩ := h.run_forward hc hkind target
    refine .took ?_ (run_return hq _) hnum hshows
    rcases hkind with ⟨b, rfl⟩ | ⟨t, rfl⟩ <;> simp [Sheet.edit, hc]
  · refine .refused ?_ ((h.refuses_forward target fun c hc => ⟨?_, ?_⟩).bind _)
    · cases hc : v.cells[n.toNat]? with
      | none => simp [Sheet.edit, hc]
      | some c => cases c <;> simp_all [Sheet.edit]
    · rintro b rfl
      exact hhome ⟨_, hc, .inl ⟨b, rfl⟩⟩
    · rintro t rfl
      exact hhome ⟨_, hc, .inr ⟨t, rfl⟩⟩

theorem Shows.follows_restore (h : p.Shows v) (n : SlotNum) (record : Bytes) :
    p.Follows v (.restore n record) := by
  by_cases hptr : ∃ t, v.cells[n.toNat]? = some (.pointer t)
  · obtain ⟨t, hc⟩ := hptr
    by_cases hfit : record.length ≤ v.space
    · obtain ⟨q, hq, hnum, hshows⟩ := h.run_restore hc hfit
      exact .took (by simp [Sheet.edit, hc, hfit, Reply.ofRoom]) (run_return hq _) hnum hshows
    · exact .took (by simp [Sheet.edit, hc, hfit, Reply.ofRoom])
        (run_return (h.run_restore_full hc (Nat.not_le.mp hfit)) _) rfl h
  · refine .refused ?_ ((h.refuses_restore record fun t hc => hptr ⟨t, hc⟩).bind _)
    cases hc : v.cells[n.toNat]? with
    | none => simp [Sheet.edit, hc]
    | some c => cases c <;> simp_all [Sheet.edit]

theorem Shows.follows (h : p.Shows v) : ∀ e : Edit, p.Follows v e
  | .insert record isMoved => h.follows_insert record isMoved
  | .remove n => h.follows_remove n
  | .resize n record => h.follows_resize n record
  | .forward n target => h.follows_forward n target
  | .restore n record => h.follows_restore n record

theorem Follows.ne_overflow (h : p.Follows v e) (q : SlottedPage) : e.perform p ≠ .error .overflow q := by
  intro hrun
  cases h with
  | refused _ hno =>
    obtain ⟨err, herr⟩ := hno
    rw [hrun] at herr
    cases herr
  | took _ hq =>
    rw [hrun] at hq
    cases hq

/-! ## Runs -/

theorem format_eq {b : Bytes} {number : PageNum} (h : format b number = .ok p) : p = empty number := by
  unfold format checkSize at h
  split at h <;> cases h
  rfl

theorem Runs.shows (h : Runs p v) : p.Shows v := by
  induction h with
  | start hp => exact format_eq hp ▸ shows_empty _
  | @replied p q v e r _ hrun ih =>
    cases ih.follows e with
    | refused he hno =>
      obtain ⟨err, herr⟩ := hno
      rw [hrun] at herr
      cases herr
    | took he hq _ hshows =>
      rw [hrun] at hq
      cases hq
      rw [Sheet.after, he]
      exact hshows
  | @failed p q v e err _ hrun ih =>
    cases ih.follows e with
    | refused he hno =>
      obtain ⟨err', herr⟩ := hno
      rw [hrun] at herr
      cases herr
      rw [Sheet.after, he]
      exact ih
    | took he hq =>
      rw [hrun] at hq
      cases hq

/-! ## What a page answers -/

/-- What a reader of the slot and its body finds. -/
def look (p : SlottedPage) (n : SlotNum) : Except RecordError Cell := do
  match ← p.slot n with
  | .occupied offset length => return .record (← p.body offset length)
  | .moved offset length => return .guest (← p.body offset length)
  | .forwarded target => return .pointer target
  | .deleted _ => return .free

/-- The second page differs from the first in one slot, where it holds the cell. -/
structure Replaces (p : SlottedPage) (n : SlotNum) (c : Cell) (q : SlottedPage) : Prop where
  own : q.look n = .ok c
  others : ∀ m, m ≠ n → q.look m = p.look m

/-- The page is a map from slot numbers to cells with a stack of free slots: what each call does is
said by what the slots hold, by the free space and by the top of the stack. -/
structure Refines (p : SlottedPage) (v : Sheet) : Prop where
  count : p.trailer.slotCount.toNat = v.cells.length
  look : ∀ n, p.look n = v.cells[n.toNat]?.elim (.error (.recordNotFound ⟨p.number, n⟩)) .ok
  free_iff : ∀ n, n ∈ v.free ↔ p.look n = .ok .free
  free_nodup : v.free.Nodup
  insert_fits : ∀ record isMoved,
    record.length + (if v.free = [] then Slot.size else 0) ≤ p.freeSpace.toNat →
    ∃ q, insert record isMoved p = .ok (v.free.headD p.trailer.slotCount) q
      ∧ p.Replaces (v.free.headD p.trailer.slotCount) (bodyCell isMoved record) q
  insert_full : ∀ record isMoved,
    p.freeSpace.toNat < record.length + (if v.free = [] then Slot.size else 0) →
    Refuses (insert record isMoved) p
  remove_held : ∀ n c, p.look n = .ok c → c ≠ .free →
    ∃ q, remove n p = .ok () q ∧ p.Replaces n .free q
  remove_free : ∀ n, (∀ c, p.look n = .ok c → c = .free) → Refuses (remove n) p
  resize_fits : ∀ n record isMoved old, p.look n = .ok (bodyCell isMoved old) →
    record.length ≤ p.freeSpace.toNat + old.length →
    ∃ q, resize n record p = .ok true q ∧ p.Replaces n (bodyCell isMoved record) q
  resize_full : ∀ n record isMoved old, p.look n = .ok (bodyCell isMoved old) →
    p.freeSpace.toNat + old.length < record.length → resize n record p = .ok false p
  resize_bodiless : ∀ n record, (∀ isMoved old, p.look n ≠ .ok (bodyCell isMoved old)) →
    Refuses (resize n record) p
  forward_home : ∀ n c target, p.look n = .ok c → ((∃ b, c = .record b) ∨ ∃ t, c = .pointer t) →
    ∃ q, forward n target p = .ok () q ∧ p.Replaces n (.pointer target) q
  forward_other : ∀ n target,
    (∀ c, p.look n = .ok c → (∀ b, c ≠ .record b) ∧ ∀ t, c ≠ .pointer t) →
    Refuses (forward n target) p
  restore_fits : ∀ n record t, p.look n = .ok (.pointer t) → record.length ≤ p.freeSpace.toNat →
    ∃ q, restore n record p = .ok true q ∧ p.Replaces n (.record record) q
  restore_full : ∀ n record t, p.look n = .ok (.pointer t) → p.freeSpace.toNat < record.length →
    restore n record p = .ok false p
  restore_other : ∀ n record, (∀ t, p.look n ≠ .ok (.pointer t)) → Refuses (restore n record) p

theorem Shows.look_eq (h : p.Shows v) (n : SlotNum) :
    p.look n = v.cells[n.toNat]?.elim (.error (.recordNotFound ⟨p.number, n⟩)) .ok := by
  cases hn : v.cells[n.toNat]? with
  | none =>
    rw [look, h.slot_missing hn]
    rfl
  | some c =>
    obtain ⟨s, hs, rfl⟩ := h.slot_of_cell hn
    rw [look, hs]
    cases s with
    | occupied o l =>
      simp only [bind, Except.bind, h.body_eq hs rfl]
      rfl
    | moved o l =>
      simp only [bind, Except.bind, h.body_eq hs rfl]
      rfl
    | forwarded | deleted => rfl

theorem Shows.look_eq_ok_iff (h : p.Shows v) : p.look n = .ok c ↔ v.cells[n.toNat]? = some c := by
  rw [h.look_eq]
  cases v.cells[n.toNat]? <;> simp

theorem Shows.mem_free_iff (h : p.Shows v) : n ∈ v.free ↔ v.cells[n.toNat]? = some .free := by
  refine ⟨h.free_cell, fun hn => ?_⟩
  obtain ⟨slots, hh, hc⟩ := h
  rw [hc, List.getElem?_map] at hn
  obtain ⟨s, hs, hcell⟩ := Option.map_eq_some_iff.mp hn
  cases s with
  | deleted next => exact hh.freeList.complete n next hs
  | occupied | moved | forwarded => simp [Slot.cell] at hcell

theorem Shows.replaces (h : p.Shows v) (hq : q.Shows v') (hnum : q.number = p.number)
    (hc : ∀ m, v'.cells[m]? = if m = n.toNat then some c else v.cells[m]?) : p.Replaces n c q where
  own := by rw [hq.look_eq, hc, if_pos rfl]; rfl
  others m hm := by
    rw [hq.look_eq, h.look_eq, hnum, hc, if_neg (by rwa [UInt16.toNat_inj])]

theorem getElem?_set_of_some {cs : List Cell} {d : Cell} (hn : cs[n.toNat]? = some d) (m : Nat) :
    (cs.set n.toNat c)[m]? = if m = n.toNat then some c else cs[m]? := by
  have hlt := lt_of_getElem?_eq_some hn
  by_cases hm : m = n.toNat
  · subst hm
    rw [List.getElem?_set_self hlt, if_pos rfl]
  · rw [List.getElem?_set_ne (Ne.symm hm), if_neg hm]

theorem Shows.nextSlot_eq (h : p.Shows v) : v.nextSlot = v.free.headD p.trailer.slotCount := by
  obtain ⟨slots, hh, hc⟩ := h
  unfold Sheet.nextSlot
  cases v.free with
  | nil => rw [hc, List.length_map, ← hh.lists.count, UInt16.ofNat_toNat]; rfl
  | cons n rest => rfl

theorem Shows.refines (h : p.Shows v) : p.Refines v := by
  have hspace := h.freeSpace_eq
  constructor
  case count =>
    obtain ⟨slots, hh, hc⟩ := h
    rw [hh.lists.count, hc, List.length_map]
  case look => exact h.look_eq
  case free_iff => exact fun n => by rw [h.mem_free_iff, h.look_eq_ok_iff]
  case free_nodup =>
    obtain ⟨slots, hh, -⟩ := h
    exact hh.freeList.nodup
  case insert_fits =>
    intro record isMoved hfit
    rw [hspace] at hfit
    obtain ⟨q, hq, hnum, hshows⟩ := h.run_insert hfit isMoved
    rw [← h.nextSlot_eq]
    exact ⟨q, hq, h.replaces hshows hnum (Sheet.getElem?_insert (fun _ => h.free_cell) h.length_lt)⟩
  case insert_full =>
    intro record isMoved hfull
    rw [hspace] at hfull
    exact h.refuses_insert (Nat.not_le.mpr hfull) isMoved
  case remove_held =>
    intro n c hc hne
    have hn := h.look_eq_ok_iff.mp hc
    obtain ⟨q, hq, hnum, hshows⟩ := h.run_remove hn hne
    exact ⟨q, hq, h.replaces hshows hnum (getElem?_set_of_some hn)⟩
  case remove_free =>
    intro n hfree
    apply h.refuses_remove
    cases hn : v.cells[n.toNat]? with
    | none => exact .inl rfl
    | some c => exact .inr (by rw [hfree c (h.look_eq_ok_iff.mpr hn)])
  case resize_fits =>
    intro n record isMoved old hc hfit
    have hn := h.look_eq_ok_iff.mp hc
    rw [hspace] at hfit
    obtain ⟨q, hq, hnum, hshows⟩ := h.run_resize hn hfit
    exact ⟨q, hq, h.replaces hshows hnum (getElem?_set_of_some hn)⟩
  case resize_full =>
    intro n record isMoved old hc hfull
    rw [hspace] at hfull
    exact h.run_resize_full (h.look_eq_ok_iff.mp hc) hfull
  case resize_bodiless =>
    exact fun n record hn => h.refuses_resize record fun isMoved old hc =>
      hn isMoved old (h.look_eq_ok_iff.mpr hc)
  case forward_home =>
    intro n c target hc hhome
    have hn := h.look_eq_ok_iff.mp hc
    obtain ⟨q, hq, hnum, hshows⟩ := h.run_forward hn hhome target
    exact ⟨q, hq, h.replaces hshows hnum (getElem?_set_of_some hn)⟩
  case forward_other =>
    exact fun n target hn => h.refuses_forward target fun c hc => hn c (h.look_eq_ok_iff.mpr hc)
  case restore_fits =>
    intro n record t hc hfit
    have hn := h.look_eq_ok_iff.mp hc
    rw [hspace] at hfit
    obtain ⟨q, hq, hnum, hshows⟩ := h.run_restore hn hfit
    exact ⟨q, hq, h.replaces hshows hnum (getElem?_set_of_some hn)⟩
  case restore_full =>
    intro n record t hc hfull
    rw [hspace] at hfull
    exact h.run_restore_full (h.look_eq_ok_iff.mp hc) hfull
  case restore_other =>
    exact fun n record hn => h.refuses_restore record fun t hc => hn t (h.look_eq_ok_iff.mpr hc)

/-- A run goes on wherever the sheet takes the edit. -/
theorem Runs.edit (h : Runs p v) (he : v.edit e = some (r, v')) :
    ∃ q, e.perform p = .ok r q ∧ Runs q v' := by
  cases h.shows.follows e with
  | refused hnone => rw [he] at hnone; cases hnone
  | took hsome hq =>
    rw [he] at hsome
    cases hsome
    refine ⟨_, hq, ?_⟩
    have := h.replied hq
    rwa [Sheet.after, he] at this

theorem format_zeros (number : PageNum) : format (Bytes.zeros pageSize) number = .ok (empty number) := by
  rw [format, checkSize, if_pos (Bytes.length_zeros _)]
  rfl

theorem refines_of_runs (h : Runs p v) : p.Refines v := h.shows.refines

/-- Of three slots the first was freed last, so the next body gets it. -/
theorem refines_of_runs_reused : ∃ p v, Runs p v ∧ v.free = [0, 2]
    ∧ ∃ q, insert [7] false p = .ok 0 q ∧ p.Replaces 0 (.record [7]) q := by
  obtain ⟨p₁, -, h₁⟩ := (Runs.start (format_zeros 0)).edit (e := .insert [1, 2] false) rfl
  obtain ⟨p₂, -, h₂⟩ := h₁.edit (e := .insert [] true) rfl
  obtain ⟨p₃, -, h₃⟩ := h₂.edit (e := .insert [3] false) rfl
  obtain ⟨p₄, -, h₄⟩ := h₃.edit (e := .remove 2) rfl
  obtain ⟨p₅, -, h₅⟩ := h₄.edit (e := .remove 0) rfl
  have hfit : 1 ≤ p₅.freeSpace.toNat := by
    obtain ⟨slots, hh, hc⟩ := h₅.shows
    rw [hh.freeSpace_eq hc]
    decide
  exact ⟨p₅, _, h₅, rfl, (refines_of_runs h₅).insert_fits [7] false hfit⟩

end SlottedPage

end Tablespace
