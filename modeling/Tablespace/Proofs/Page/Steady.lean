import Tablespace.Proofs.Page.Opened
import Tablespace.Proofs.Page.Reachable

/-!
# Edits of pages of any bytes

A page that opens stays one, whatever edits are made on it and however they end.
So its bodies never reach into its directory, and the sizes that are computed
from its trailer never wrap. An edit stops the program only where the end of a
body is no word, and then it has not changed anything yet.
-/

namespace Tablespace

namespace SlottedPage

/-- The work does not stop the program: it gives a result or reports an error, and leaves a page
that opens. -/
def Steady {α : Type} (work : PageM α) (p : SlottedPage) (post : α → SlottedPage → Prop) : Prop :=
  (∃ a q, work p = .ok a q ∧ q.Opens ∧ post a q) ∨ ∃ e q, work p = .error (.failed e) q ∧ q.Opens

/-- The work may also stop the program, but not after a change. -/
def Settles {α : Type} (work : PageM α) (p : SlottedPage) (post : α → SlottedPage → Prop) : Prop :=
  work p = .error .overflow p ∨ Steady work p post

section
variable {α β : Type} {p q : SlottedPage} {a : α} {x : PageM α} {k : α → PageM β}
  {post post' : α → SlottedPage → Prop} {goal : β → SlottedPage → Prop}

theorem Steady.ne_overflow (h : Steady x p post) (q : SlottedPage) : x p ≠ .error .overflow q := by
  intro hrun
  rcases h with ⟨_, _, hok, -⟩ | ⟨_, _, hno, -⟩
  · rw [hrun] at hok
    cases hok
  · rw [hrun] at hno
    cases hno

theorem Steady.weaken (h : Steady x p post) (hpost : ∀ a q, post a q → post' a q) : Steady x p post' :=
  h.imp_left (Exists.imp fun a => Exists.imp fun q hq => ⟨hq.1, hq.2.1, hpost a q hq.2.2⟩)

theorem Refuses.steady (h : Refuses x p) (hp : p.Opens) : Steady x p post := by
  obtain ⟨e, he⟩ := h
  exact .inr ⟨e, p, he, hp⟩

theorem steady_pure (hp : p.Opens) (ha : post a p) : Steady (pure a) p post := .inl ⟨a, p, rfl, hp, ha⟩

theorem Steady.of_ok (hrun : x p = .ok a q) (hk : Steady (k a) q goal) : Steady (x >>= k) p goal := by
  rwa [Steady, run_bind hrun]

theorem Steady.bind (hx : Steady x p post) (hk : ∀ a q, q.Opens → post a q → Steady (k a) q goal) :
    Steady (x >>= k) p goal := by
  rcases hx with ⟨a, q, hrun, hq, ha⟩ | ⟨e, q, hrun, hq⟩
  · exact .of_ok hrun (hk a q hq ha)
  · exact .inr ⟨e, q, run_bind_error hrun, hq⟩

theorem Settles.of_ok (hrun : x p = .ok a p) (hk : Settles (k a) p goal) : Settles (x >>= k) p goal :=
  hk.imp (run_bind hrun).trans (.of_ok hrun)

theorem Settles.bind (hx : Settles x p post) (hk : ∀ a q, q.Opens → post a q → Steady (k a) q goal) :
    Settles (x >>= k) p goal :=
  hx.imp run_bind_error fun h => h.bind hk

end

variable {p : SlottedPage} {n : SlotNum} {o l newLength : UInt16}

/-! ## Steps -/

section
variable (h : p.Opens)
include h

theorem Opens.steady_put (offset : Nat) (src : Bytes) : Steady (put offset src) p fun _ q =>
    q.trailer = p.trailer ∧ offset + src.length ≤ pageSize := by
  rcases Nat.lt_or_ge p.bytes.length (offset + src.length) with hlt | hle
  · exact (refuses_put hlt).steady h
  · refine .inl ⟨(), _, run_put hle, ⟨?_, h.room⟩, rfl, h.size ▸ hle⟩
    rw [bytes_withBytes, Bytes.length_overwrite hle, h.size]

theorem Opens.steady_setSlot (n : SlotNum) (s : Slot) :
    Steady (setSlot n s) p fun _ q => q.trailer = p.trailer :=
  (h.steady_put _ _).weaken fun _ _ hq => hq.1

theorem Opens.steady_storeTrailer : Steady storeTrailer p fun _ q => q.trailer = p.trailer :=
  .of_ok (run_get p) ((h.steady_put _ _).weaken fun _ _ hq => hq.1)

theorem Opens.steady_move (start stop dest : Nat) : Steady (move start stop dest) p fun _ q =>
    q.trailer = p.trailer ∧ start ≤ stop := by
  cases hm : p.bytes.move start stop dest with
  | error e => exact (refuses_move_of_error hm).steady h
  | ok b =>
    obtain ⟨hle, hstop, hdest⟩ := Bytes.exists_move_iff.mp ⟨b, hm⟩
    obtain ⟨c, hc, hsize, -⟩ := Bytes.move_spec hle hstop hdest
    rw [hm, Except.ok.injEq] at hc
    refine .inl ⟨(), p.withBytes b, ?_, ⟨?_, h.room⟩, rfl, hle⟩
    · rw [move, run_get_bind, hm]
      rfl
    · rw [bytes_withBytes, hc, hsize, h.size]

theorem Opens.steady_readSlot (n : SlotNum) :
    Steady (readSlot n) p fun s q => q = p ∧ p.slot n = .ok s := by
  cases hs : p.slot n with
  | ok s => exact .inl ⟨s, p, run_readSlot hs, h, rfl, rfl⟩
  | error e => exact (refuses_readSlot hs).steady h

/-- A trailer that keeps the bodies out of the directory may be put beside the bytes. -/
theorem Opens.withTrailer {t : Trailer} (ht : t.boundary.toNat + t.directorySize ≤ pageSize) :
    Opens { p with trailer := t } := ⟨h.size, ht⟩

theorem Opens.steady_shiftBody (limit length newLength : UInt16) (n : SlotNum) :
    Steady (shiftBody limit length newLength n) p fun _ q => q.trailer = p.trailer := by
  refine (h.steady_readSlot n).bind fun s q hq hread => ?_
  obtain ⟨rfl, -⟩ := hread
  cases hs : s.body? with
  | none => exact steady_pure hq rfl
  | some body =>
    obtain ⟨offset, size⟩ := body
    simp only
    split
    · exact hq.steady_setSlot n _
    · exact steady_pure hq rfl

theorem Opens.steady_shiftBodies (skip : SlotNum) (limit length newLength : UInt16) :
    Steady (shiftBodies skip limit length newLength) p fun _ q => q.trailer = p.trailer := by
  have shift (ns : List SlotNum) : ∀ {p : SlottedPage}, p.Opens →
      Steady (ns.forM (shiftBody limit length newLength)) p fun _ q => q.trailer = p.trailer := by
    induction ns with
    | nil => exact fun hp => steady_pure hp rfl
    | cons n ns ih =>
      refine fun hp => (hp.steady_shiftBody limit length newLength n).bind fun _ q hq ht => ?_
      exact (ih hq).weaken fun _ _ hr => hr.trans ht
  exact .of_ok (run_get p) (shift _ h)

/-- What is moved lies behind the body, so the body ends in front of the boundary. -/
theorem Opens.steady_stretch (n : SlotNum) (hstop : o.toNat + l.toNat < UInt16.size)
    (hdest : o.toNat + newLength.toNat < UInt16.size) : Steady (stretch n o l newLength) p fun _ q =>
      q.trailer = p.trailer ∧ o.toNat + l.toNat ≤ p.trailer.boundary.toNat := by
  have hsum := toNat_add_of_lt hstop
  refine .of_ok (run_sum hsum p) (.of_ok (run_sum (toNat_add_of_lt hdest) p) (.of_ok (run_get p) ?_))
  refine (h.steady_move _ _ _).bind fun _ q hq hmove => ?_
  refine (hq.steady_shiftBodies n _ _ _).weaken fun _ r hr => ⟨hr.trans hmove.1, ?_⟩
  rw [← hsum]
  exact hmove.2

theorem Opens.settles_stretch (n : SlotNum) (o l newLength : UInt16) :
    Settles (stretch n o l newLength) p fun _ q =>
      q.trailer = p.trailer ∧ o.toNat + l.toNat ≤ p.trailer.boundary.toNat := by
  rcases sum_cases o l p with ⟨-, hstop⟩ | ⟨hlt, hstop⟩
  · exact .inl (run_bind_error hstop)
  · rcases sum_cases o newLength p with ⟨-, hdest⟩ | ⟨hlt', -⟩
    · exact .inl ((run_bind hstop).trans (run_bind_error hdest))
    · exact .inr (h.steady_stretch n hlt hlt')

end

/-- The boundary has come down by the length of the body that was given up. -/
theorem steady_lower {q : SlottedPage} (hq : q.Opens) (hl : l.toNat ≤ q.trailer.boundary.toNat) :
    Steady (do setBoundary (← difference (← get).trailer.boundary l)) q fun _ _ => True := by
  have hle : l ≤ q.trailer.boundary := UInt16.le_iff_toNat_le.mpr hl
  refine .of_ok (run_get q) (.of_ok (run_difference hle q) (.inl ⟨(), _, rfl, hq.withTrailer ?_, trivial⟩))
  have hroom := hq.room
  have hsub := UInt16.toNat_sub_of_le _ _ hle
  simp only [Trailer.directorySize] at hroom ⊢
  omega

section
variable (h : p.Opens)
include h

theorem Opens.steady_compact (n : SlotNum) (hstop : o.toNat + l.toNat < UInt16.size) :
    Steady (compact n o l) p fun _ _ => True := by
  have hzero : o.toNat + (0 : UInt16).toNat < UInt16.size := o.toNat_lt
  refine (h.steady_stretch n hstop hzero).bind fun _ q hq hq' => steady_lower hq ?_
  obtain ⟨ht, hin⟩ := hq'
  rw [ht]
  omega

theorem Opens.settles_compact (n : SlotNum) (o l : UInt16) : Settles (compact n o l) p fun _ _ => True := by
  refine (h.settles_stretch n o l 0).bind fun _ q hq hq' => steady_lower hq ?_
  obtain ⟨ht, hin⟩ := hq'
  rw [ht]
  omega

/-- The last steps of an edit that moves the boundary. -/
theorem Opens.steady_close {α : Type} {boundary : UInt16}
    (hroom : boundary.toNat + p.trailer.directorySize ≤ pageSize) (a : α) : Steady (do
      setBoundary boundary
      storeTrailer
      return a) p fun _ _ => True :=
  .of_ok rfl ((h.withTrailer hroom).steady_storeTrailer.bind fun _ _ hq _ => steady_pure hq trivial)

/-! ## Edits -/

theorem Opens.room_of_canHold {length : Nat} (hcan : p.canHold length = true) (hlen : length ≤ pageSize) :
    length + (if p.hasFreeSlot then 0 else Slot.size) + p.trailer.boundary.toNat + p.trailer.directorySize
      ≤ pageSize := by
  have hcost : length + (if p.hasFreeSlot then 0 else Slot.size) < UInt64.size := by
    simp only [pageSize, Slot.size, UInt64.size] at hlen ⊢
    split <;> omega
  rw [canHold, decide_eq_true_iff, UInt64.le_iff_toNat_le, UInt64.toNat_ofNat_of_lt' hcost,
    h.toNat_freeSpace] at hcan
  have := h.room
  omega

/-- A new slot takes its room from what is free. -/
theorem Opens.steady_claimSlot {length : Nat}
    (hroom : length + (if p.hasFreeSlot then 0 else Slot.size) + p.trailer.boundary.toNat
      + p.trailer.directorySize ≤ pageSize) : Steady claimSlot p fun _ q =>
        q.trailer.boundary = p.trailer.boundary
          ∧ length + q.trailer.boundary.toNat + q.trailer.directorySize ≤ pageSize := by
  refine .of_ok (run_get p) ?_
  by_cases hfree : p.hasFreeSlot = true
  · simp only [hfree, if_true] at hroom ⊢
    refine (h.steady_readSlot _).bind fun s q hq hread => ?_
    obtain ⟨rfl, -⟩ := hread
    cases s with
    | deleted next => exact .inl ⟨_, _, rfl, hq.withTrailer hq.room, rfl, hroom⟩
    | occupied | moved | forwarded => exact ((refuses_fail _).bind _).steady hq
  · simp only [if_neg hfree, Trailer.directorySize, Trailer.size, Slot.size, pageSize] at hroom ⊢
    have hone : (1 : UInt16).toNat = 1 := rfl
    have hsize : UInt16.size = 65536 := rfl
    have hcount := toNat_add_of_lt (a := p.trailer.slotCount) (b := 1) (by omega)
    refine .of_ok (run_sum hcount p) (.inl ⟨_, _, rfl, h.withTrailer ?_, rfl, ?_⟩)
    · simp only [Trailer.directorySize, Trailer.size, Slot.size, pageSize, hcount]
      omega
    · simp only [hcount]
      omega

theorem Opens.steady_insert (record : Bytes) (isMoved : Bool) :
    Steady (insert record isMoved) p fun _ _ => True := by
  refine .of_ok (run_get p) ?_
  by_cases hcan : p.canHold record.length = true
  · simp only [hcan, if_true]
    refine (h.steady_put _ _).bind fun _ q hq hput => ?_
    obtain ⟨ht, hlen⟩ := hput
    have hroom := h.room_of_canHold hcan (by omega)
    rw [hasFreeSlot, ← ht, ← hasFreeSlot] at hroom
    refine (hq.steady_claimSlot hroom).bind fun n r hr hclaim => ?_
    obtain ⟨hbound, hfit⟩ := hclaim
    have hlow : (UInt16.ofNat record.length).toNat ≤ record.length := Nat.mod_le _ _
    rw [hbound, ht] at hfit
    have hsum := toNat_add_of_fit (a := p.trailer.boundary) (b := UInt16.ofNat record.length) (by omega)
    refine (hr.steady_setSlot n _).bind fun _ r' hr' ht' => .of_ok (run_sum hsum r') ?_
    refine hr'.steady_close (by rw [hsum, ht']; omega) n
  · simp only [if_neg hcan]
    exact ((refuses_throw _).bind _).steady h

theorem Opens.steady_point (n : SlotNum) (target : RecordId) : Steady (do
      setSlot n (.forwarded target)
      storeTrailer) p fun _ _ => True :=
  (h.steady_setSlot n _).bind fun _ _ hq _ => hq.steady_storeTrailer.weaken fun _ _ _ => trivial

theorem Opens.settles_readSlot {α : Type} {k : Slot → PageM α} {post : α → SlottedPage → Prop}
    (hk : ∀ s, p.slot n = .ok s → Settles (k s) p post) : Settles (readSlot n >>= k) p post := by
  cases hs : p.slot n with
  | ok s => exact .of_ok (run_readSlot hs) (hk s hs)
  | error e => exact .inr (((refuses_readSlot hs).bind k).steady h)

theorem Opens.settles_remove (n : SlotNum) : Settles (remove n) p fun _ _ => True := by
  have release {q : SlottedPage} (hq : q.Opens) : Steady (do
      setSlot n (.deleted (← get).trailer.freeHead)
      modify fun p => { p with trailer.freeHead := n }
      storeTrailer) q fun _ _ => True := by
    refine .of_ok (run_get q) ((hq.steady_setSlot n _).bind fun _ r hr _ => ?_)
    have hr' : Opens { r with trailer.freeHead := n } := hr.withTrailer hr.room
    exact .of_ok rfl (hr'.steady_storeTrailer.weaken fun _ _ _ => trivial)
  refine h.settles_readSlot fun s _ => ?_
  cases s with
  | occupied o l => exact (h.settles_compact n o l).bind fun _ _ hq _ => release hq
  | moved o l => exact (h.settles_compact n o l).bind fun _ _ hq _ => release hq
  | forwarded target => exact .inr (release h)
  | deleted next => exact .inr (.of_ok (run_get p) (((refuses_throw _).bind _).steady h))

theorem Opens.settles_forward (n : SlotNum) (target : RecordId) :
    Settles (forward n target) p fun _ _ => True := by
  refine h.settles_readSlot fun s _ => ?_
  cases s with
  | occupied o l => exact (h.settles_compact n o l).bind fun _ _ hq _ => hq.steady_point n target
  | forwarded target => exact .inr (h.steady_point n _)
  | moved | deleted => exact .inr (((refuses_fail _).bind _).steady h)

theorem Opens.steady_forward (hn : p.slot n = .ok (.occupied o l)) (hstop : o.toNat + l.toNat < UInt16.size)
    (target : RecordId) : Steady (forward n target) p fun _ _ => True :=
  .of_ok (run_readSlot hn) ((h.steady_compact n hstop).bind fun _ _ hq _ => hq.steady_point n target)

/-- A body that is narrowed is shorter than the record, so there is room for it too. -/
theorem Opens.settles_resize (n : SlotNum) (record : Bytes) : Settles (resize n record) p fun _ _ => True := by
  refine h.settles_readSlot fun s _ => ?_
  cases hs : s.body? with
  | none => exact .inr ((refuses_fail _).steady h)
  | some body =>
    obtain ⟨o, l⟩ := body
    refine .of_ok (run_get p) ?_
    by_cases hfull : (p.freeSpace + l.toUInt64).toNat < record.length
    · simp only [if_pos hfull]
      exact .inr (steady_pure h trivial)
    · simp only [if_neg hfull]
      refine (h.settles_stretch n o l _).bind fun _ q hq hstretch => ?_
      obtain ⟨ht, hin⟩ := hstretch
      refine (hq.steady_put _ _).bind fun _ q₁ h₁ hput => ?_
      refine (h₁.steady_setSlot n _).bind fun _ q₂ h₂ ht₂ => .of_ok (run_get q₂) ?_
      refine h₂.steady_close ?_ true
      rw [ht₂, hput.1, ht]
      have hroom := h.room
      have hlow : (UInt16.ofNat record.length).toNat ≤ record.length := Nat.mod_le _ _
      rw [UInt64.toNat_add, UInt16.toNat_toUInt64, h.toNat_freeSpace] at hfull
      have hl := l.toNat_lt
      have hps : pageSize = 4096 := rfl
      have hsz : UInt16.size = 65536 := rfl
      rw [Tiled.toNat_shifted (by omega) (by omega)]
      omega

theorem Opens.settles_restore (n : SlotNum) (record : Bytes) : Settles (restore n record) p fun _ _ => True := by
  have fill : Steady (do
      let p ← get
      if p.freeSpace.toNat < record.length then return false
      let offset := p.trailer.boundary
      let length := UInt16.ofNat record.length
      put offset.toNat record
      setSlot n (.occupied offset length)
      setBoundary (← sum offset length)
      storeTrailer
      return true) p fun _ _ => True := by
    refine .of_ok (run_get p) ?_
    by_cases hfull : p.freeSpace.toNat < record.length
    · simp only [if_pos hfull]
      exact steady_pure h trivial
    · simp only [if_neg hfull]
      have hroom := h.room
      have hlow : (UInt16.ofNat record.length).toNat ≤ record.length := Nat.mod_le _ _
      rw [h.toNat_freeSpace] at hfull
      have hsum := toNat_add_of_fit (a := p.trailer.boundary) (b := UInt16.ofNat record.length) (by omega)
      refine (h.steady_put _ _).bind fun _ q hq hput => ?_
      refine (hq.steady_setSlot n _).bind fun _ r hr ht => .of_ok (run_sum hsum r) ?_
      exact hr.steady_close (by rw [hsum, ht, hput.1]; omega) true
  refine h.settles_readSlot fun s _ => ?_
  cases s with
  | forwarded target => exact .inr fill
  | occupied | moved | deleted => exact .inr (((refuses_fail _).bind _).steady h)

/-- Every edit of a page that opens ends on one, or stops the program before it has changed anything. -/
theorem Opens.settles : ∀ e : Edit, Settles e.perform p fun _ _ => True
  | .insert record isMoved =>
    .inr ((h.steady_insert record isMoved).bind fun _ _ hq _ => steady_pure hq trivial)
  | .remove n => (h.settles_remove n).bind fun _ _ hq _ => steady_pure hq trivial
  | .resize n record => (h.settles_resize n record).bind fun _ _ hq _ => steady_pure hq trivial
  | .forward n target => (h.settles_forward n target).bind fun _ _ hq _ => steady_pure hq trivial
  | .restore n record => (h.settles_restore n record).bind fun _ _ hq _ => steady_pure hq trivial

end

theorem Settles.opens {α : Type} {x : PageM α} {post : α → SlottedPage → Prop} (hx : Settles x p post)
    (h : p.Opens) : (finalState (x p)).Opens := by
  rcases hx with hrun | ⟨_, _, hrun, hq, -⟩ | ⟨_, _, hrun, hq⟩
  · rw [hrun]
    exact h
  · rw [hrun]
    exact hq
  · rw [hrun]
    exact hq

/-- However the edits of a run end, the bodies stay out of the directory. -/
theorem Opens.of_edits (h : p.Opens) (edits : List Edit) :
    (edits.foldl (fun q e => finalState (e.perform q)) p).Opens := by
  induction edits generalizing p with
  | nil => exact h
  | cons e edits ih => exact ih ((h.settles e).opens h)

end SlottedPage

end Tablespace
