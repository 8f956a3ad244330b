import Mathlib.Algebra.GroupWithZero.Nat
import Tablespace.Proofs.Page.Shift

/-!
# Tilings

The bodies of a page lie in front of its boundary, apart from each other and
without gaps. A body is added at the boundary, or one of them gets another
length and those behind it move.
-/

namespace Tablespace

namespace Slot

/-- How many bytes of its page a slot owns. -/
def bodySize (s : Slot) : Nat :=
  match s.body? with
  | some (_, length) => length.toNat
  | none => 0

theorem bodySize_of_body {s : Slot} {o l : UInt16} (h : s.body? = some (o, l)) :
    s.bodySize = l.toNat := by
  simp [bodySize, h]

theorem bodySize_of_none {s : Slot} (h : s.body? = none) : s.bodySize = 0 := by simp [bodySize, h]

@[simp] theorem body?_withBody (s : Slot) (o l : UInt16) : (s.withBody o l).body? = some (o, l) := by
  cases s <;> rfl

theorem body?_shift (s : Slot) (limit length newLength : UInt16) :
    (s.shift limit length newLength).body? = s.body?.map fun (o, l) =>
      (if limit ≤ o then o + newLength - length else o, l) := by
  unfold shift
  cases hb : s.body? with
  | none => simpa using hb
  | some b =>
    obtain ⟨o, l⟩ := b
    by_cases hl : limit ≤ o
    · simp [hl]
    · simp [hl, hb]

@[simp] theorem bodySize_shift (s : Slot) (limit length newLength : UInt16) :
    (s.shift limit length newLength).bodySize = s.bodySize := by
  unfold bodySize
  rw [body?_shift]
  cases s.body? <;> rfl

end Slot

/-- Offset and length of the bytes that the slot with a number owns. -/
def bodyAt (slots : List Slot) (n : Nat) : Option (UInt16 × UInt16) := slots[n]?.bind Slot.body?

theorem bodyAt_set {slots : List Slot} {n : Nat} (hn : n < slots.length) (t : Slot) (m : Nat) :
    bodyAt (slots.set n t) m = if m = n then t.body? else bodyAt slots m := by
  unfold bodyAt
  by_cases hm : m = n
  · subst hm
    simp [List.getElem?_set_self hn]
  · simp [List.getElem?_set_ne (Ne.symm hm), hm]

theorem bodyAt_push (slots : List Slot) (t : Slot) (m : Nat) :
    bodyAt (slots ++ [t]) m = if m = slots.length then t.body? else bodyAt slots m := by
  unfold bodyAt
  rcases Nat.lt_trichotomy m slots.length with hm | rfl | hm
  · simp [List.getElem?_append_left hm, Nat.ne_of_lt hm]
  · simp
  · rw [List.getElem?_eq_none (by rw [List.length_append, List.length_singleton]; omega),
      List.getElem?_eq_none (Nat.le_of_lt hm), if_neg (Nat.ne_of_gt hm)]

theorem bodyAt_shiftOthers (skip : Nat) (limit length newLength : UInt16) (slots : List Slot) (m : Nat) :
    bodyAt (SlottedPage.shiftOthers skip limit length newLength slots) m = if m = skip then bodyAt slots m
      else (bodyAt slots m).map fun (o, l) => (if limit ≤ o then o + newLength - length else o, l) := by
  unfold bodyAt SlottedPage.shiftOthers
  rw [List.getElem?_mapIdx]
  cases slots[m]? with
  | none => simp
  | some s => by_cases hm : m = skip <;> simp [hm, Slot.body?_shift]

/-- The bodies of the slots fill the bytes in front of the boundary. -/
structure Tiled (boundary : Nat) (slots : List Slot) : Prop where
  inside : ∀ n o l, bodyAt slots n = some (o, l) → o.toNat + l.toNat ≤ boundary
  apart : ∀ m n o l o' l', m ≠ n → bodyAt slots m = some (o, l) → bodyAt slots n = some (o', l') →
    o.toNat + l.toNat ≤ o'.toNat ∨ o'.toNat + l'.toNat ≤ o.toNat
  total : (slots.map Slot.bodySize).sum = boundary

theorem sum_map_set {α : Type} (f : α → Nat) : ∀ (xs : List α) (i : Nat) (x y : α), xs[i]? = some x →
    ((xs.set i y).map f).sum + f x = (xs.map f).sum + f y
  | [], i, x, y, h => by simp at h
  | z :: xs, 0, x, y, h => by
    simp only [List.getElem?_cons_zero, Option.some.injEq] at h
    subst h
    simp only [List.set_cons_zero, List.map_cons, List.sum_cons]
    omega
  | z :: xs, i + 1, x, y, h => by
    rw [List.getElem?_cons_succ] at h
    have := sum_map_set f xs i x y h
    simp only [List.set_cons_succ, List.map_cons, List.sum_cons]
    omega

namespace Tiled

variable {boundary n : Nat} {slots slots' : List Slot} {o l newLength : UInt16}

theorem nil : Tiled 0 [] := ⟨by simp [bodyAt], by simp [bodyAt], rfl⟩

theorem congr (h : Tiled boundary slots) (hb : ∀ m, bodyAt slots' m = bodyAt slots m)
    (hsum : (slots'.map Slot.bodySize).sum = (slots.map Slot.bodySize).sum) :
    Tiled boundary slots' where
  inside m := by rw [hb]; exact h.inside m
  apart i j := by rw [hb, hb]; exact h.apart i j
  total := hsum.trans h.total

theorem add (h : Tiled boundary slots) (ho : o.toNat = boundary)
    (hb : ∀ m, bodyAt slots' m = if m = n then some (o, l) else bodyAt slots m)
    (hsum : (slots'.map Slot.bodySize).sum = boundary + l.toNat) :
    Tiled (boundary + l.toNat) slots' where
  inside m a k hm := by
    rw [hb] at hm
    split at hm
    · cases hm
      omega
    · have := h.inside m a k hm
      omega
  apart i j a k a' k' hij hi hj := by
    rw [hb] at hi hj
    split at hi
    · rw [if_neg (by omega)] at hj
      cases hi
      have := h.inside j a' k' hj
      omega
    · split at hj
      · cases hj
        have := h.inside i a k hi
        omega
      · exact h.apart i j a k a' k' hij hi hj
  total := hsum

theorem toNat_shifted {a : UInt16} (hge : l.toNat ≤ a.toNat)
    (hfit : a.toNat + newLength.toNat < UInt16.size) :
    (a + newLength - l).toNat = a.toNat + newLength.toNat - l.toNat := by
  rw [UInt16.toNat_sub, UInt16.toNat_add]
  simp only [UInt16.size] at hfit
  have := l.toNat_lt
  omega

theorem toNat_limit (h : Tiled boundary slots) (hn : bodyAt slots n = some (o, l))
    (hfit : boundary < UInt16.size) : (o + l).toNat = o.toNat + l.toNat := by
  have := h.inside n o l hn
  rw [UInt16.toNat_add]
  simp only [UInt16.size] at hfit
  omega

/-- Any other body lies in front of the body of a slot and stays, or behind it and is shifted. -/
theorem shifted_cases (h : Tiled boundary slots) (hn : bodyAt slots n = some (o, l))
    (newLength : UInt16) (hfit : boundary + newLength.toNat < UInt16.size) {m : Nat} {a k a' : UInt16}
    (hm : m ≠ n) (ha : bodyAt slots m = some (a, k))
    (ha' : a' = if o + l ≤ a then a + newLength - l else a) :
    (a' = a ∧ a.toNat + k.toNat ≤ o.toNat)
      ∨ (o.toNat + l.toNat ≤ a.toNat ∧ a'.toNat = a.toNat + newLength.toNat - l.toNat) := by
  have hap := h.apart m n a k o l hm ha hn
  have hin := h.inside m a k ha
  have hlim := h.toNat_limit hn (by omega)
  split at ha' <;> rename_i hge <;> rw [UInt16.le_iff_toNat_le, hlim] at hge
  · exact .inr ⟨hge, ha' ▸ toNat_shifted (by omega) (by omega)⟩
  · exact .inl ⟨ha', by omega⟩

/-- A body gets another length, or is given up, and all that lies behind it moves. -/
theorem stretch (h : Tiled boundary slots) (hn : bodyAt slots n = some (o, l)) (newLength : UInt16)
    {t : Slot}
    (hfit : boundary + t.bodySize < UInt16.size)
    (hnew : newLength.toNat = t.bodySize) (ht : ∀ a k, t.body? = some (a, k) → a = o) :
    Tiled (boundary + t.bodySize - l.toNat)
      ((SlottedPage.shiftOthers n (o + l) l newLength slots).set n t) := by
  have hlt : n < slots.length := by
    rcases Nat.lt_or_ge n slots.length with hlt | hge
    · exact hlt
    · simp [bodyAt, List.getElem?_eq_none hge] at hn
  have hin := h.inside n o l hn
  have hb : ∀ m, bodyAt ((SlottedPage.shiftOthers n (o + l) l newLength slots).set n t) m
      = if m = n then t.body? else (bodyAt slots m).map fun (a, k) =>
          (if o + l ≤ a then a + newLength - l else a, k) := by
    intro m
    rw [bodyAt_set (by simpa [SlottedPage.shiftOthers] using hlt), bodyAt_shiftOthers]
    split <;> rfl
  have hold : ∀ m a' k, m ≠ n →
      (bodyAt slots m).map (fun (a, k) => (if o + l ≤ a then a + newLength - l else a, k))
        = some (a', k) →
      ∃ a, bodyAt slots m = some (a, k) ∧ ((a' = a ∧ a.toNat + k.toNat ≤ o.toNat)
        ∨ (o.toNat + l.toNat ≤ a.toNat ∧ a'.toNat = a.toNat + newLength.toNat - l.toNat)) := by
    intro m a' k hm hmap
    obtain ⟨⟨a, k⟩, ha, he⟩ := Option.map_eq_some_iff.mp hmap
    cases he
    exact ⟨a, ha, h.shifted_cases hn newLength (by omega) hm ha rfl⟩
  have hown : ∀ a k, t.body? = some (a, k) → a = o ∧ k.toNat = newLength.toNat := fun a k hak =>
    ⟨ht a k hak, by rw [hnew, Slot.bodySize_of_body hak]⟩
  refine ⟨?_, ?_, ?_⟩
  · intro m a' k hm
    rw [hb] at hm
    split at hm
    · obtain ⟨rfl, hk⟩ := hown a' k hm
      omega
    · obtain ⟨a, ha, hc⟩ := hold m a' k ‹_› hm
      have := h.inside m a k ha
      rcases hc with ⟨rfl, hc⟩ | ⟨hc, hc'⟩ <;> omega
  · intro i j a k a' k' hij hi hj
    rw [hb] at hi hj
    split at hi
    · rw [if_neg (by omega)] at hj
      obtain ⟨rfl, hk⟩ := hown a k hi
      obtain ⟨b, -, hc⟩ := hold j a' k' (by omega) hj
      rcases hc with ⟨rfl, hc⟩ | ⟨hc, hc'⟩ <;> omega
    · obtain ⟨b, hbi, hc⟩ := hold i a k ‹_› hi
      split at hj
      · obtain ⟨rfl, hk⟩ := hown a' k' hj
        rcases hc with ⟨rfl, hc⟩ | ⟨hc, hc'⟩ <;> omega
      · obtain ⟨b', hbj, hd⟩ := hold j a' k' ‹_› hj
        have := h.apart i j b k b' k' hij hbi hbj
        rcases hc with ⟨rfl, hc⟩ | ⟨hc, hc'⟩ <;> rcases hd with ⟨rfl, hd⟩ | ⟨hd, hd'⟩ <;> omega
  · have hmap : (SlottedPage.shiftOthers n (o + l) l newLength slots).map Slot.bodySize
        = slots.map Slot.bodySize := by
      apply List.ext_getElem?
      intro m
      rw [List.getElem?_map, SlottedPage.shiftOthers, List.getElem?_mapIdx, List.getElem?_map]
      cases slots[m]? with
      | none => rfl
      | some s => by_cases hm : m = n <;> simp [hm]
    obtain ⟨s, hs⟩ : ∃ s, (SlottedPage.shiftOthers n (o + l) l newLength slots)[n]? = some s :=
      ⟨_, List.getElem?_eq_getElem (by simpa [SlottedPage.shiftOthers] using hlt)⟩
    have hsize : s.bodySize = l.toNat := by
      have := bodyAt_shiftOthers n (o + l) l newLength slots n
      rw [if_pos rfl, hn, bodyAt, hs] at this
      exact Slot.bodySize_of_body this
    have := sum_map_set Slot.bodySize _ n s t hs
    rw [hmap, h.total, hsize] at this
    omega

end Tiled

end Tablespace
