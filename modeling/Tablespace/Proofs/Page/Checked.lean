import Tablespace.Proofs.Page.Reachable

/-!
# Edits with checked words

The edits once more, in a form that stops also where a length that is narrowed
or an offset that is shifted is no word of 16 bits. On a page that shows a sheet
this form does what the other one does, so there no word wraps.
-/

namespace Tablespace

namespace SlottedPage

inductive Overrun where
  | narrowed (number : Int)
  | halted (h : Halt)

abbrev CheckedM := EStateM Overrun SlottedPage

instance : MonadLift PageM CheckedM where
  monadLift := EStateM.adaptExcept Overrun.halted

namespace Checked

def narrow (number : Int) : CheckedM UInt16 :=
  if 0 ≤ number ∧ number < UInt16.size then return UInt16.ofNat number.toNat
  else throw (.narrowed number)

/-- A record that is too long for the page does not get as far as to have its length narrowed. -/
def insert (record : Bytes) (isMoved : Bool) : CheckedM SlotNum := do
  let p ← get
  unless p.canHold record.length do
    throw (.halted (.failed (.recordTooLarge record.length p.freeSpace.toNat)))
  let offset := p.trailer.boundary
  put offset.toNat record
  let length ← narrow record.length
  let n ← claimSlot
  setSlot n (if isMoved then .moved offset length else .occupied offset length)
  setBoundary (← sum offset length)
  storeTrailer
  return n

def shiftBody (limit length newLength : UInt16) (n : SlotNum) : CheckedM Unit := do
  let s ← readSlot n
  match s.body? with
  | some (offset, size) =>
    if limit ≤ offset then
      let shifted ← narrow (offset.toNat + newLength.toNat - length.toNat)
      setSlot n (s.withBody shifted size)
  | none => pure ()

def shiftBodies (skip : SlotNum) (limit length newLength : UInt16) : CheckedM Unit := do
  let others := (← get).slotNums.filter (· ≠ skip)
  others.forM (shiftBody limit length newLength)

def stretch (n : SlotNum) (offset length newLength : UInt16) : CheckedM Unit := do
  let stop ← sum offset length
  let dest ← sum offset newLength
  move stop.toNat (← get).trailer.boundary.toNat dest.toNat
  shiftBodies n stop length newLength

def compact (n : SlotNum) (offset length : UInt16) : CheckedM Unit := do
  stretch n offset length 0
  setBoundary (← difference (← get).trailer.boundary length)

def remove (n : SlotNum) : CheckedM Unit := do
  match ← readSlot n with
  | .occupied offset length => compact n offset length
  | .moved offset length => compact n offset length
  | .forwarded _ => pure ()
  | .deleted _ => throw (.halted (.failed (.recordNotFound ⟨(← get).number, n⟩)))
  setSlot n (.deleted (← get).trailer.freeHead)
  modify fun p => { p with trailer.freeHead := n }
  storeTrailer

def resize (n : SlotNum) (record : Bytes) : CheckedM Bool := do
  let s ← readSlot n
  let some (offset, length) := s.body? | fail (.noBody n)
  if ((← get).freeSpace + length.toUInt64).toNat < record.length then return false
  let newLength ← narrow record.length
  stretch n offset length newLength
  put offset.toNat record
  setSlot n (s.withBody offset newLength)
  setBoundary (← narrow ((← get).trailer.boundary.toNat + newLength.toNat - length.toNat))
  storeTrailer
  return true

def forward (n : SlotNum) (target : RecordId) : CheckedM Unit := do
  match ← readSlot n with
  | .occupied offset length => compact n offset length
  | .forwarded _ => pure ()
  | found => fail (.cannotForward n found)
  setSlot n (.forwarded target)
  storeTrailer

def restore (n : SlotNum) (record : Bytes) : CheckedM Bool := do
  match ← readSlot n with
  | .forwarded _ => pure ()
  | _ => fail (.notForwarded n)
  let p ← get
  if p.freeSpace.toNat < record.length then return false
  let offset := p.trailer.boundary
  let length ← narrow record.length
  put offset.toNat record
  setSlot n (.occupied offset length)
  setBoundary (← sum offset length)
  storeTrailer
  return true

end Checked

def Edit.performChecked : Edit → CheckedM Reply
  | .insert record isMoved => return .placed (← Checked.insert record isMoved)
  | .remove n => do
    Checked.remove n
    return .done
  | .resize n record => return .ofRoom (← Checked.resize n record)
  | .forward n target => do
    Checked.forward n target
    return .done
  | .restore n record => return .ofRoom (← Checked.restore n record)

/-! ## Agreement -/

section
variable {α β : Type} {p q : SlottedPage} {x : CheckedM α} {y : PageM α} {k : α → CheckedM β}
  {l : α → PageM β}

/-- On the page no number is narrowed to another one in the checked form, which does what the other
form does. -/
def Agrees (x : CheckedM α) (y : PageM α) (p : SlottedPage) : Prop :=
  x p = EStateM.adaptExcept Overrun.halted y p

theorem Agrees.lift (y : PageM α) (p : SlottedPage) : Agrees (liftM y) y p := rfl

theorem Agrees.pure (a : α) (p : SlottedPage) : Agrees (pure a) (pure a) p := rfl

theorem Agrees.throw (h : Halt) (p : SlottedPage) :
    Agrees (throw (.halted h) : CheckedM α) (throw h) p := rfl

theorem Agrees.bind (hx : Agrees x y p) (hk : ∀ a q, y p = .ok a q → Agrees (k a) (l a) q) :
    Agrees (x >>= k) (y >>= l) p := by
  unfold Agrees at hx ⊢
  simp only [EStateM.adaptExcept] at hx ⊢
  cases hy : y p with
  | ok a q =>
    rw [hy] at hx
    rw [run_bind hx, run_bind hy]
    exact hk a q hy
  | error e q =>
    rw [hy] at hx
    rw [run_bind_error hx, run_bind_error hy]

theorem Agrees.of_ok {a : α} (hx : Agrees x y p) (hy : y p = .ok a q) (hk : Agrees (k a) (l a) q) :
    Agrees (x >>= k) (y >>= l) p :=
  hx.bind fun _ _ h => by
    rw [hy] at h
    cases h
    exact hk

theorem Agrees.get {k : SlottedPage → CheckedM β} {l : SlottedPage → PageM β}
    (h : Agrees (k p) (l p) p) : Agrees (get >>= k) (get >>= l) p := h

theorem Agrees.narrow {w : UInt16} {number : Int} {k : UInt16 → CheckedM β} {y : PageM β}
    (hw : (w.toNat : Int) = number) (hk : Agrees (k w) y p) : Agrees (Checked.narrow number >>= k) y p := by
  have hlt := w.toNat_lt
  have hrun : Checked.narrow number p = .ok w p := by
    rw [Checked.narrow, if_pos (by rw [← hw]; exact ⟨by omega, by simp only [UInt16.size]; omega⟩), ← hw,
      Int.toNat_natCast, UInt16.ofNat_toNat]
    rfl
  unfold Agrees
  rw [run_bind hrun]
  exact hk

end

/-! ## Steps -/

variable {p q : SlottedPage} {slots : List Slot} {free : List SlotNum} {v : Sheet} {n : SlotNum}
  {s : Slot} {o l newLength limit : UInt16}

/-- Where a shifted body starts is a word. -/
def ShiftFits (limit length newLength : UInt16) (s : Slot) : Prop :=
  ∀ a k, s.body? = some (a, k) → limit ≤ a →
    ((a + newLength - length).toNat : Int) = a.toNat + newLength.toNat - length.toNat

theorem Lists.agrees_shiftBody (h : p.Lists slots) (hn : slots[n.toNat]? = some s)
    (hfit : ShiftFits limit l newLength s) :
    Agrees (Checked.shiftBody limit l newLength n) (shiftBody limit l newLength n) p := by
  refine Agrees.of_ok (Agrees.lift _ _) (h.run_readSlot hn) ?_
  cases hb : s.body? with
  | none => exact Agrees.pure _ _
  | some body =>
    obtain ⟨a, k⟩ := body
    by_cases hle : limit ≤ a
    · simp only [if_pos hle]
      exact Agrees.narrow (hfit a k hb hle) (Agrees.lift _ _)
    · simp only [if_neg hle]
      exact Agrees.pure _ _

theorem agrees_forM_shiftBody (limit l newLength : UInt16) :
    ∀ (ns : List SlotNum) {p : SlottedPage} {slots : List Slot}, p.Lists slots → ns.Nodup →
      (∀ n ∈ ns, ∃ s, slots[n.toNat]? = some s ∧ ShiftFits limit l newLength s) →
      Agrees (ns.forM (Checked.shiftBody limit l newLength)) (ns.forM (shiftBody limit l newLength)) p
  | [], p, _, _, _, _ => Agrees.pure _ p
  | n :: ns, p, slots, h, hnd, hfit => by
    obtain ⟨hnot, hnd⟩ := List.nodup_cons.mp hnd
    obtain ⟨s, hs, hfits⟩ := hfit n (List.mem_cons_self ..)
    obtain ⟨b, hrun, hb, -⟩ := run_shiftBody h hs limit l newLength
    refine (h.agrees_shiftBody hs hfits).of_ok hrun (agrees_forM_shiftBody limit l newLength ns hb hnd ?_)
    -- The slots that are still to come are the ones that the step left alone.
    intro m hm
    obtain ⟨t, ht, htfits⟩ := hfit m (List.mem_cons_of_mem _ hm)
    refine ⟨t, ?_, htfits⟩
    rwa [List.getElem?_set_ne]
    rintro he
    exact hnot (UInt16.toNat_inj.mp he ▸ hm)

theorem Lists.agrees_shiftBodies (h : p.Lists slots)
    (hfit : ∀ (m : SlotNum) s, m ≠ n → slots[m.toNat]? = some s → ShiftFits limit l newLength s) :
    Agrees (Checked.shiftBodies n limit l newLength) (shiftBodies n limit l newLength) p := by
  refine Agrees.get (agrees_forM_shiftBody limit l newLength _ h (nodup_others p n) ?_)
  intro m hm
  obtain ⟨hlt, hne⟩ := mem_others.mp hm
  have hs := List.getElem?_eq_getElem (h.lt_slotCount.mp hlt)
  exact ⟨_, hs, hfit m _ hne hs⟩

theorem Holds.agrees_stretch (h : p.Holds slots free) (hn : bodyAt slots n.toNat = some (o, l))
    (hfit : p.trailer.boundary.toNat + newLength.toNat ≤ directoryStart slots.length + l.toNat) :
    Agrees (Checked.stretch n o l newLength) (stretch n o l newLength) p := by
  have hbound := h.boundary_lt
  have hlow := h.lists.low_le
  have hin := h.tiled.inside n.toNat o l hn
  have hps : pageSize = 4096 := rfl
  have hsz : UInt16.size = 65536 := rfl
  obtain ⟨hstop, hdest, b, hmove, hb, -⟩ := h.lists.run_move h.low newLength hin hfit
  refine (Agrees.lift _ _).of_ok (run_sum hstop p) ((Agrees.lift _ _).of_ok (run_sum hdest p) ?_)
  refine Agrees.get ((Agrees.lift _ _).of_ok hmove (hb.agrees_shiftBodies ?_))
  intro m s hm hs a k hak hle
  have hle' : o.toNat + l.toNat ≤ a.toNat := by rwa [UInt16.le_iff_toNat_le, hstop] at hle
  have ha := h.body_le hs hak
  rw [Tiled.toNat_shifted (by omega) (by omega)]
  omega

theorem Holds.agrees_compact (h : p.Holds slots free) (hn : bodyAt slots n.toNat = some (o, l)) :
    Agrees (Checked.compact n o l) (compact n o l) p := by
  have hin := h.tiled.inside n.toNat o l hn
  have hlow := h.low
  have hzero : (0 : UInt16).toNat = 0 := rfl
  have hfit : p.trailer.boundary.toNat + (0 : UInt16).toNat ≤ directoryStart slots.length + l.toNat := by
    omega
  obtain ⟨b, hrun, -⟩ := h.run_stretch 0 hn hfit
  exact (h.agrees_stretch hn hfit).of_ok hrun
    (Agrees.get ((Agrees.lift _ _).bind fun _ _ _ => Agrees.lift _ _))

/-! ## Edits -/

theorem Shows.agrees_insert (h : p.Shows v) (record : Bytes) (isMoved : Bool) :
    Agrees (Checked.insert record isMoved) (insert record isMoved) p := by
  obtain ⟨slots, hh, -⟩ := h
  have hcount := hh.lists.count
  have hlen := hh.lists.length_le
  have hsz : UInt16.size = 65536 := rfl
  refine Agrees.get ?_
  by_cases hcan : p.canHold record.length = true
  · simp only [hcan, if_true]
    refine (Agrees.lift _ _).bind fun _ q hput => ?_
    obtain ⟨hin, rfl⟩ := put_ok hput
    rw [hh.lists.size] at hin
    have hword := toNat_ofNat_length (b := record) (by omega)
    refine Agrees.narrow (w := UInt16.ofNat record.length) (by omega) ?_
    refine (Agrees.lift _ _).bind fun n q _ => (Agrees.lift _ _).bind fun _ q _ => ?_
    refine (Agrees.lift _ _).bind fun _ q _ => (Agrees.lift _ _).bind fun _ q _ => ?_
    exact (Agrees.lift _ _).bind fun _ q _ => Agrees.pure n q
  · simp only [if_neg hcan]
    exact (Agrees.throw _ _).bind fun _ _ he => by cases he

theorem Shows.agrees_remove (h : p.Shows v) (n : SlotNum) :
    Agrees (Checked.remove n) (remove n) p := by
  obtain ⟨slots, hh, -⟩ := h
  refine (Agrees.lift _ _).bind fun s q hread => ?_
  obtain ⟨rfl, hslot⟩ := readSlot_eq_ok hread
  have hs := hh.lists.slot_eq_ok_iff.mp hslot
  have finish {q : SlottedPage} : Agrees (do
      setSlot n (.deleted (← get).trailer.freeHead)
      modify fun p => { p with trailer.freeHead := n }
      storeTrailer : CheckedM Unit) (do
      setSlot n (.deleted (← get).trailer.freeHead)
      modify fun p => { p with trailer.freeHead := n }
      storeTrailer : PageM Unit) q :=
    Agrees.get ((Agrees.lift _ _).bind fun _ q _ => Agrees.lift _ _)
  cases s with
  | occupied o l => exact (hh.agrees_compact (bodyAt_of_slot hs rfl)).bind fun _ q _ => finish
  | moved o l => exact (hh.agrees_compact (bodyAt_of_slot hs rfl)).bind fun _ q _ => finish
  | forwarded t => exact finish
  | deleted next => exact Agrees.get ((Agrees.throw _ _).bind fun _ _ he => by cases he)

theorem Shows.agrees_forward (h : p.Shows v) (n : SlotNum) (target : RecordId) :
    Agrees (Checked.forward n target) (forward n target) p := by
  obtain ⟨slots, hh, -⟩ := h
  refine (Agrees.lift _ _).bind fun s q hread => ?_
  obtain ⟨rfl, hslot⟩ := readSlot_eq_ok hread
  have hs := hh.lists.slot_eq_ok_iff.mp hslot
  cases s with
  | occupied o l =>
    exact (hh.agrees_compact (bodyAt_of_slot hs rfl)).bind fun _ q _ =>
      (Agrees.lift _ _).bind fun _ q _ => Agrees.lift _ _
  | forwarded t => exact (Agrees.lift _ _).bind fun _ q _ => Agrees.lift _ _
  | moved o l => exact (Agrees.lift _ _).bind fun _ _ he => by cases he
  | deleted next => exact (Agrees.lift _ _).bind fun _ _ he => by cases he

theorem Shows.agrees_resize (h : p.Shows v) (n : SlotNum) (record : Bytes) :
    Agrees (Checked.resize n record) (resize n record) p := by
  obtain ⟨slots, hh, hc⟩ := h
  refine (Agrees.lift _ _).bind fun s q hread => ?_
  obtain ⟨rfl, hslot⟩ := readSlot_eq_ok hread
  have hs := hh.lists.slot_eq_ok_iff.mp hslot
  cases hb : s.body? with
  | none => exact Agrees.lift _ _
  | some body =>
    obtain ⟨o, l⟩ := body
    refine Agrees.get ?_
    rw [hh.toNat_space_add hc]
    by_cases hfull : v.space + l.toNat < record.length
    · simp only [if_pos hfull]
      exact Agrees.pure false q
    · have hbody := bodyAt_of_slot hs hb
      have hspace := hh.space_eq hc
      have hin := hh.body_le hs hb
      have hall := hh.lists.low_le
      have hps : pageSize = 4096 := rfl
      have hsz : UInt16.size = 65536 := rfl
      have hlen := toNat_ofNat_length (b := record) (by omega)
      have hfit : q.trailer.boundary.toNat + (UInt16.ofNat record.length).toNat
          ≤ directoryStart slots.length + l.toNat := by omega
      obtain ⟨b, hrun, -⟩ := hh.run_stretch (UInt16.ofNat record.length) hbody hfit
      simp only [if_neg hfull]
      refine Agrees.narrow (w := UInt16.ofNat record.length) (by omega) ?_
      refine (hh.agrees_stretch hbody hfit).of_ok hrun ((Agrees.lift _ _).bind fun _ q₁ hput => ?_)
      obtain ⟨-, rfl⟩ := put_ok hput
      refine (Agrees.lift _ _).bind fun _ q₂ hset => ?_
      obtain ⟨-, rfl⟩ := put_ok hset
      refine Agrees.get (Agrees.narrow
        (w := q.trailer.boundary + UInt16.ofNat record.length - l) ?_ ?_)
      · rw [trailer_withBytes, trailer_withBytes, trailer_withBytes,
          Tiled.toNat_shifted (by omega) (by omega)]
        omega
      · exact (Agrees.lift _ _).bind fun _ q _ => (Agrees.lift _ _).bind fun _ q _ => Agrees.pure true q

theorem Shows.agrees_restore (h : p.Shows v) (n : SlotNum) (record : Bytes) :
    Agrees (Checked.restore n record) (restore n record) p := by
  obtain ⟨slots, hh, hc⟩ := h
  have hspace := hh.space_eq hc
  have hall := hh.lists.low_le
  have restore : Agrees (do
      let p ← get
      if p.freeSpace.toNat < record.length then return false
      let offset := p.trailer.boundary
      let length ← Checked.narrow record.length
      put offset.toNat record
      setSlot n (.occupied offset length)
      setBoundary (← sum offset length)
      storeTrailer
      return true : CheckedM Bool) (do
      let p ← get
      if p.freeSpace.toNat < record.length then return false
      let offset := p.trailer.boundary
      let length := UInt16.ofNat record.length
      put offset.toNat record
      setSlot n (.occupied offset length)
      setBoundary (← sum offset length)
      storeTrailer
      return true : PageM Bool) p := by
    refine Agrees.get ?_
    rw [hh.freeSpace_eq hc]
    by_cases hfull : v.space < record.length
    · simp only [if_pos hfull]
      exact Agrees.pure false p
    · have hlen := toNat_ofNat_length (b := record) (by omega)
      simp only [if_neg hfull]
      refine Agrees.narrow (w := UInt16.ofNat record.length) (by omega) ?_
      refine (Agrees.lift _ _).bind fun _ q _ => (Agrees.lift _ _).bind fun _ q _ => ?_
      refine (Agrees.lift _ _).bind fun _ q _ => (Agrees.lift _ _).bind fun _ q _ => ?_
      exact (Agrees.lift _ _).bind fun _ q _ => Agrees.pure true q
  refine (Agrees.lift _ _).bind fun s q hread => ?_
  obtain ⟨rfl, hslot⟩ := readSlot_eq_ok hread
  have hs := hh.lists.slot_eq_ok_iff.mp hslot
  cases s with
  | forwarded t => exact restore
  | occupied o l => exact (Agrees.lift _ _).bind fun _ _ he => by cases he
  | moved o l => exact (Agrees.lift _ _).bind fun _ _ he => by cases he
  | deleted next => exact (Agrees.lift _ _).bind fun _ _ he => by cases he

theorem Shows.agrees (h : p.Shows v) : ∀ e : Edit, Agrees e.performChecked e.perform p
  | .insert record isMoved => (h.agrees_insert record isMoved).bind fun _ _ _ => Agrees.pure _ _
  | .remove n => (h.agrees_remove n).bind fun _ _ _ => Agrees.pure _ _
  | .resize n record => (h.agrees_resize n record).bind fun _ _ _ => Agrees.pure _ _
  | .forward n target => (h.agrees_forward n target).bind fun _ _ _ => Agrees.pure _ _
  | .restore n record => (h.agrees_restore n record).bind fun _ _ _ => Agrees.pure _ _

end SlottedPage

end Tablespace
