import Mathlib.Logic.Function.Basic
import Tablespace.Proofs.Page.Sheet

/-!
# Forwarding

Seen across pages a record file is a map from identifiers to cells. It keeps a
map of records when every pointer leads in one hop to a guest on another page,
every guest has exactly one pointer to it, and what an identifier leads to is
its record. An operation is a release of what an identifier holds, a store
under an identifier that holds nothing, or both.
-/

namespace Tablespace

abbrev Cells := RecordId → Cell

namespace Cells

open Function (update)

/-- The bytes held for another slot. -/
def guest? : Cell → Option Bytes
  | .guest b => some b
  | _ => none

/-- What a cell holds that no other cell is linked to. -/
def own? : Cell → Option (Option Bytes)
  | .record b => some (some b)
  | .free => some none
  | _ => none

/-- The record that an identifier leads to. -/
def record? (C : Cells) (id : RecordId) : Option Bytes :=
  match C id with
  | .record b => some b
  | .pointer target => guest? (C target)
  | _ => none

structure Keeps (C : Cells) (records : RecordId → Option Bytes) : Prop where
  hop : ∀ id target, C id = .pointer target → target.page ≠ id.page ∧ ∃ b, C target = .guest b
  owned : ∀ target b, C target = .guest b → ∃ id, C id = .pointer target
  unique : ∀ id id' target, C id = .pointer target → C id' = .pointer target → id = id'
  record : ∀ id, C.record? id = records id

def set (C : Cells) (id : RecordId) (c : Cell) : Cells := update C id c

variable {C C' : Cells} {records : RecordId → Option Bytes} {id target : RecordId} {b : Bytes}

@[simp] theorem set_self {c : Cell} : C.set id c id = c := Function.update_self ..

theorem set_of_ne {c : Cell} {a : RecordId} (h : a ≠ id) : C.set id c a = C a :=
  Function.update_of_ne h ..

@[simp] theorem set_set {c c' : Cell} : (C.set id c).set id c' = C.set id c' := Function.update_idem ..

theorem set_comm {c c' : Cell} {a : RecordId} (h : a ≠ id) :
    (C.set a c).set id c' = (C.set id c').set a c := Function.update_comm h ..

@[simp] theorem set_eq {c : Cell} (h : C id = c) : C.set id c = C := by
  rw [set, ← h, Function.update_eq_self]

theorem keeps_free : Keeps (fun _ => .free) (fun _ => none) :=
  ⟨by simp, by simp, by simp, fun _ => rfl⟩

theorem record?_of_record (h : C id = .record b) : C.record? id = some b := by simp [record?, h]

theorem record?_of_pointer (h : C id = .pointer target) (ht : C target = .guest b) :
    C.record? id = some b := by simp [record?, h, ht, guest?]

theorem own?_of_record (h : C id = .record b) : own? (C id) = some (some b) := by simp [own?, h]

theorem own?_of_free (h : C id = .free) : own? (C id) = some none := by simp [own?, h]

theorem Keeps.record_eq_none_iff (h : C.Keeps records) :
    records id = none ↔ C id = .free ∨ ∃ b, C id = .guest b := by
  rw [← h.record]
  cases hc : C id with
  | record b => simp [record?, hc]
  | guest b => simp [record?, hc]
  | free => simp [record?, hc]
  | pointer target =>
    obtain ⟨-, b, ht⟩ := h.hop _ _ hc
    simp [record?, hc, ht, guest?]

/-- An identifier of a record is neither free nor that of moved bytes. -/
theorem Keeps.home_of_some (h : C.Keeps records) (hid : records id = some b) :
    C id ≠ .free ∧ ∀ g, C id ≠ .guest g := by
  have hsome : ¬ (C id = .free ∨ ∃ g, C id = .guest g) := by
    rw [← h.record_eq_none_iff, hid]
    exact Option.some_ne_none b
  exact ⟨fun hfree => hsome (.inl hfree), fun g hguest => hsome (.inr ⟨g, hguest⟩)⟩

theorem Keeps.cell_of_some (h : C.Keeps records) (hid : records id = some b) :
    C id = .record b ∨ ∃ target, C id = .pointer target ∧ C target = .guest b := by
  rw [← h.record] at hid
  cases hc : C id with
  | record b' => simp [record?, hc] at hid; exact .inl (by rw [hid])
  | guest b' => simp [record?, hc] at hid
  | free => simp [record?, hc] at hid
  | pointer target =>
    obtain ⟨-, b', ht⟩ := h.hop _ _ hc
    rw [record?_of_pointer hc ht, Option.some.injEq] at hid
    exact .inr ⟨target, rfl, by rw [ht, hid]⟩

/-- A map that agrees away from one identifier and keeps the hops of the others keeps their records. -/
theorem record?_congr (hid : C' id = C id)
    (ht : ∀ target, C id = .pointer target → C' target = C target) : C'.record? id = C.record? id := by
  unfold record?
  rw [hid]
  cases hc : C id with
  | pointer target => simp only [ht target hc]
  | _ => rfl

/-! ## One release, one store -/

theorem Keeps.put {c : Cell} {r r' : Option Bytes} (h : C.Keeps records) (hid : own? (C id) = some r)
    (hc : own? c = some r') : (C.set id c).Keeps (update records id r') := by
  have hold : (∀ t, C id ≠ .pointer t) ∧ ∀ b, C id ≠ .guest b := by
    constructor <;> intro x hx <;> rw [hx] at hid <;> cases hid
  have hnew : (∀ t, c ≠ .pointer t) ∧ ∀ b, c ≠ .guest b := by
    constructor <;> rintro x rfl <;> cases hc
  have hpointer : ∀ {a t}, C.set id c a = .pointer t → a ≠ id ∧ C a = .pointer t := by
    intro a t ha
    by_cases he : a = id
    · subst he
      rw [set_self] at ha
      exact absurd ha (hnew.1 t)
    · rw [set_of_ne he] at ha
      exact ⟨he, ha⟩
  refine ⟨fun a t ha => ?_, fun t b ht => ?_, fun a a' t ha ha' => ?_, fun a => ?_⟩
  · obtain ⟨hp, b, hb⟩ := h.hop a t (hpointer ha).2
    refine ⟨hp, b, ?_⟩
    rw [set_of_ne (by rintro rfl; exact hold.2 b hb), hb]
  · have hne : t ≠ id := by
      rintro rfl
      rw [set_self] at ht
      exact hnew.2 b ht
    rw [set_of_ne hne] at ht
    obtain ⟨a, ha⟩ := h.owned t b ht
    exact ⟨a, by rw [set_of_ne (by rintro rfl; exact hold.1 t ha), ha]⟩
  · exact h.unique a a' t (hpointer ha).2 (hpointer ha').2
  · by_cases ha : a = id
    · subst ha
      cases c <;> simp_all [record?, own?]
    · rw [Function.update_of_ne ha, ← h.record]
      refine record?_congr (set_of_ne ha ..) fun t ht => ?_
      obtain ⟨-, b, hb⟩ := h.hop a t ht
      exact set_of_ne (by rintro rfl; exact hold.2 b hb) ..

theorem Keeps.unlink (h : C.Keeps records) (hid : C id = .pointer target) :
    ((C.set target .free).set id .free).Keeps (update records id none) := by
  obtain ⟨hpage, g, hg⟩ := h.hop id target hid
  -- No other pointer leads to the target, so the other hops stay as they are.
  have hkeep : ∀ a t, a ≠ id → C a = .pointer t →
      (C.set target .free).set id .free t = C t := by
    intro a t ha hat
    obtain ⟨-, b, hb⟩ := h.hop a t hat
    have h₁ : t ≠ id := by rintro rfl; simp [hid] at hb
    have h₂ : t ≠ target := by rintro rfl; exact ha (h.unique _ _ _ hat hid)
    rw [set_of_ne h₁, set_of_ne h₂]
  have hback : ∀ {a : RecordId} {c : Cell}, (C.set target .free).set id .free a = c →
      c ≠ .free → a ≠ id ∧ a ≠ target ∧ C a = c := by
    intro a c ha hc
    have h₁ : a ≠ id := by rintro rfl; exact hc (by simpa using ha.symm)
    rw [set_of_ne h₁] at ha
    have h₂ : a ≠ target := by rintro rfl; exact hc (by simpa using ha.symm)
    rw [set_of_ne h₂] at ha
    exact ⟨h₁, h₂, ha⟩
  refine ⟨fun a t ha => ?_, fun t b ht => ?_, fun a a' t ha ha' => ?_, fun a => ?_⟩
  · obtain ⟨hne, -, ha⟩ := hback ha (by simp)
    obtain ⟨hp, b, hb⟩ := h.hop a t ha
    exact ⟨hp, b, (hkeep a t hne ha).trans hb⟩
  · obtain ⟨-, hne, ht⟩ := hback ht (by simp)
    obtain ⟨a, ha⟩ := h.owned t b ht
    have h₁ : a ≠ id := by
      rintro rfl
      rw [hid] at ha
      cases ha
      exact hne rfl
    have h₂ : a ≠ target := by rintro rfl; simp [hg] at ha
    exact ⟨a, by rw [set_of_ne h₁, set_of_ne h₂, ha]⟩
  · exact h.unique a a' t (hback ha (by simp)).2.2 (hback ha' (by simp)).2.2
  · by_cases ha : a = id
    · subst ha
      simp [record?]
    · rw [Function.update_of_ne ha, ← h.record]
      by_cases hat : a = target
      · subst hat
        simp [record?, set_of_ne ha, hg]
      · exact record?_congr (by rw [set_of_ne ha, set_of_ne hat])
          fun t ht => hkeep a t ha ht

theorem Keeps.link (h : C.Keeps records) (hid : C id = .free) (ht : C target = .free)
    (hpage : target.page ≠ id.page) (b : Bytes) :
    ((C.set target (.guest b)).set id (.pointer target)).Keeps (update records id (some b)) := by
  have hne : target ≠ id := by rintro rfl; exact hpage rfl
  have htarget : (C.set target (.guest b)).set id (.pointer target) target = .guest b := by
    rw [set_of_ne hne, set_self]
  have hkeep : ∀ a, C a ≠ .free → (C.set target (.guest b)).set id (.pointer target) a = C a := by
    intro a ha
    rw [set_of_ne (by rintro rfl; exact ha hid),
      set_of_ne (by rintro rfl; exact ha ht)]
  have hpointer : ∀ {a t}, (C.set target (.guest b)).set id (.pointer target) a = .pointer t →
      (a = id ∧ t = target) ∨ C a = .pointer t := by
    intro a t ha
    by_cases h₁ : a = id
    · subst h₁
      rw [set_self, Cell.pointer.injEq] at ha
      exact .inl ⟨rfl, ha.symm⟩
    · rw [set_of_ne h₁] at ha
      have h₂ : a ≠ target := by rintro rfl; simp at ha
      rw [set_of_ne h₂] at ha
      exact .inr ha
  -- The target was free, so no old pointer led to it.
  have hold : ∀ a, C a ≠ .pointer target := by
    intro a ha
    obtain ⟨-, c, hc⟩ := h.hop a target ha
    rw [ht] at hc
    cases hc
  refine ⟨fun a t ha => ?_, fun t c hc => ?_, fun a a' t ha ha' => ?_, fun a => ?_⟩
  · rcases hpointer ha with ⟨rfl, rfl⟩ | ha
    · exact ⟨hpage, b, htarget⟩
    · obtain ⟨hp, c, hc⟩ := h.hop a t ha
      exact ⟨hp, c, by rw [hkeep t (by simp [hc]), hc]⟩
  · by_cases h₂ : t = target
    · subst h₂
      exact ⟨id, set_self⟩
    · have h₁ : t ≠ id := by rintro rfl; simp at hc
      rw [set_of_ne h₁, set_of_ne h₂] at hc
      obtain ⟨a, ha⟩ := h.owned t c hc
      exact ⟨a, by rw [hkeep a (by simp [ha]), ha]⟩
  · rcases hpointer ha with ⟨rfl, rfl⟩ | hc
    · rcases hpointer ha' with ⟨rfl, -⟩ | hc'
      · rfl
      · exact absurd hc' (hold a')
    · rcases hpointer ha' with ⟨rfl, rfl⟩ | hc'
      · exact absurd hc (hold a)
      · exact h.unique a a' t hc hc'
  · by_cases h₁ : a = id
    · subst h₁
      rw [Function.update_self, record?_of_pointer set_self htarget]
    · rw [Function.update_of_ne h₁, ← h.record]
      by_cases h₂ : a = target
      · subst h₂
        simp [record?, htarget, ht]
      · refine record?_congr (by rw [set_of_ne h₁, set_of_ne h₂]) fun t ht' => ?_
        obtain ⟨-, c, hc⟩ := h.hop a t ht'
        exact hkeep t (by simp [hc])

/-! ## Rewiring -/

theorem Keeps.put_guest (h : C.Keeps records) (hid : C id = .pointer target) (b : Bytes) :
    (C.set target (.guest b)).Keeps (update records id (some b)) := by
  obtain ⟨hpage, -⟩ := h.hop id target hid
  have hne : target ≠ id := by rintro rfl; exact hpage rfl
  have hl := (h.unlink hid).link set_self (by rw [set_of_ne hne, set_self]) hpage b
  rw [set_comm hne, set_set, set_comm hne.symm, set_set,
    set_eq (by rw [set_of_ne hne.symm, hid])] at hl
  rw [Function.update_idem] at hl
  exact hl

theorem Keeps.restore (h : C.Keeps records) (hid : C id = .pointer target) (b : Bytes) :
    ((C.set id (.record b)).set target .free).Keeps (update records id (some b)) := by
  obtain ⟨hpage, -⟩ := h.hop id target hid
  have hne : target ≠ id := by rintro rfl; exact hpage rfl
  have hl := (h.unlink hid).put (own?_of_free set_self) (c := .record b) rfl
  rw [set_set, Function.update_idem] at hl
  rw [set_comm hne.symm]
  exact hl

theorem Keeps.relocate (h : C.Keeps records) {old : Bytes} (hid : C id = .record old)
    (ht : C target = .free) (hpage : target.page ≠ id.page) (b : Bytes) :
    ((C.set target (.guest b)).set id (.pointer target)).Keeps (update records id (some b)) := by
  have hne : target ≠ id := by rintro rfl; exact hpage rfl
  have hl := (h.put (own?_of_record hid) (c := .free) rfl).link
    set_self (by rw [set_of_ne hne, ht]) hpage b
  rw [set_comm hne, set_set, set_comm hne.symm, Function.update_idem] at hl
  exact hl

theorem Keeps.relocate_again {place : RecordId} (h : C.Keeps records) (hid : C id = .pointer target)
    (ht : C place = .free) (hpage : place.page ≠ id.page) (b : Bytes) :
    (((C.set place (.guest b)).set target .free).set id (.pointer place)).Keeps
      (update records id (some b)) := by
  obtain ⟨-, g, hg⟩ := h.hop id target hid
  have hne : place ≠ id := by rintro rfl; exact hpage rfl
  have hne' : place ≠ target := by rintro rfl; simp [hg] at ht
  have hl := (h.unlink hid).link set_self
    (by rw [set_of_ne hne, set_of_ne hne', ht]) hpage b
  rw [set_comm hne, set_set, set_comm hne.symm, set_comm hne'.symm, Function.update_idem] at hl
  exact hl

end Cells

end Tablespace
