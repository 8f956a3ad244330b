import Tablespace.Index.Node

/-!
# Half way by size

The midpoint by size is where the sizes from the front first make more than
half of all, so what lies before it and what lies behind it both stay near the
half. Items that are small beside a page then part into halves that fit.
-/

namespace Tablespace

theorem totalSize_append (xs ys : List Nat) : totalSize (xs ++ ys) = totalSize xs + totalSize ys := by
  induction xs with
  | nil => simp [totalSize]
  | cons x xs ih => simp [totalSize, ih, Nat.add_assoc]

theorem totalSize_sublist {xs ys : List Nat} (h : xs.Sublist ys) : totalSize xs ≤ totalSize ys := by
  induction h with
  | slnil => exact Nat.le_refl _
  | cons y _ ih => exact Nat.le_add_left_of_le ih
  | cons_cons y _ ih => exact Nat.add_le_add_left ih y

theorem le_totalSize {x : Nat} {xs : List Nat} (h : x ∈ xs) : x ≤ totalSize xs :=
  totalSize_sublist (List.singleton_sublist.mpr h)

theorem totalSize_take_add_drop (xs : List Nat) (i : Nat) :
    totalSize (xs.take i) + totalSize (xs.drop i) = totalSize xs := by
  rw [← totalSize_append, List.take_append_drop]

theorem totalSize_take_mono (xs : List Nat) {i j : Nat} (h : i ≤ j) :
    totalSize (xs.take i) ≤ totalSize (xs.take j) := by
  have hsplit := totalSize_take_add_drop (xs.take j) i
  rw [List.take_take, Nat.min_eq_left h] at hsplit
  omega

theorem totalSize_take_succ_le {xs : List Nat} {limit : Nat} (h : ∀ x ∈ xs, x ≤ limit) (i : Nat) :
    totalSize (xs.take (i + 1)) ≤ totalSize (xs.take i) + limit := by
  rcases Nat.lt_or_ge i xs.length with hi | hi
  · rw [List.take_succ_eq_append_getElem hi, totalSize_append]
    have := h _ (List.getElem_mem hi)
    simp [totalSize]
    omega
  · rw [List.take_of_length_le hi, List.take_of_length_le (Nat.le_succ_of_le hi)]
    omega

/-- An item adds no more than its own size. -/
theorem totalSize_insertIdx_le {α : Type} {size : α → Nat} {limit : Nat} {x : α} {xs : List α} {i : Nat}
    (h : ∀ y ∈ xs.insertIdx i x, size y ≤ limit) :
    totalSize ((xs.insertIdx i x).map size) ≤ totalSize (xs.map size) + limit := by
  induction xs generalizing i with
  | nil =>
    cases i with
    | zero => simpa [totalSize] using h
    | succ i => simp [totalSize]
  | cons y xs ih =>
    cases i with
    | zero =>
      have := h x (by simp)
      simp only [List.insertIdx_zero, List.map_cons, totalSize]
      omega
    | succ i =>
      rw [List.insertIdx_succ_cons] at h ⊢
      have := ih fun z hz => h z (List.mem_cons_of_mem y hz)
      simp only [List.map_cons, totalSize]
      omega

theorem indexPast_spec {bound i : Nat} : ∀ {sizes : List Nat} {before : Nat}, before ≤ bound →
    indexPast bound sizes before = some i →
    i < sizes.length ∧ before + totalSize (sizes.take i) ≤ bound
      ∧ bound < before + totalSize (sizes.take (i + 1))
  | [], _, _, h => by simp [indexPast] at h
  | size :: rest, before, hb, h => by
    unfold indexPast at h
    by_cases hlt : bound < before + size
    · rw [if_pos hlt, Option.some.injEq] at h
      subst h
      simp [totalSize]
      omega
    · rw [if_neg hlt] at h
      obtain ⟨j, hj, rfl⟩ := Option.map_eq_some_iff.mp h
      obtain ⟨hlen, hle, hgt⟩ := indexPast_spec (Nat.not_lt.mp hlt) hj
      simp only [List.length_cons, List.take_succ_cons, totalSize] at *
      omega

theorem indexPast_none {bound : Nat} : ∀ {sizes : List Nat} {before : Nat},
    indexPast bound sizes before = none → before ≤ bound → before + totalSize sizes ≤ bound
  | [], _, _, hb => by simpa [totalSize] using hb
  | size :: rest, before, h, hb => by
    unfold indexPast at h
    by_cases hlt : bound < before + size
    · rw [if_pos hlt] at h
      cases h
    · rw [if_neg hlt, Option.map_eq_none_iff] at h
      have := indexPast_none h (Nat.not_lt.mp hlt)
      simp only [totalSize]
      omega

theorem sizeMidpoint_spec {sizes : List Nat} (h : 0 < totalSize sizes) :
    sizeMidpoint sizes < sizes.length
      ∧ totalSize (sizes.take (sizeMidpoint sizes)) ≤ totalSize sizes / 2
      ∧ totalSize sizes / 2 < totalSize (sizes.take (sizeMidpoint sizes + 1)) := by
  unfold sizeMidpoint
  cases hi : indexPast (totalSize sizes / 2) sizes 0 with
  | none =>
    have := indexPast_none hi (Nat.zero_le _)
    omega
  | some i =>
    have := indexPast_spec (Nat.zero_le _) hi
    simpa using this

theorem totalSize_take_le {sizes : List Nat} {limit cut : Nat} (hlimit : ∀ x ∈ sizes, x ≤ limit)
    (h : 0 < totalSize sizes) (hcut : cut ≤ max 1 (sizeMidpoint sizes)) :
    totalSize (sizes.take cut) ≤ totalSize sizes / 2 + limit := by
  obtain ⟨-, hle, -⟩ := sizeMidpoint_spec h
  have hmono := totalSize_take_mono sizes hcut
  have hone : totalSize (sizes.take 1) ≤ totalSize (sizes.take 0) + limit :=
    totalSize_take_succ_le hlimit 0
  have hzero : totalSize (sizes.take 0) = 0 := rfl
  rcases Nat.le_total (sizeMidpoint sizes) 1 with hm | hm
  · rw [Nat.max_eq_left hm] at hmono
    omega
  · rw [Nat.max_eq_right hm] at hmono
    omega

/-- From the midpoint on lies little more than half. -/
theorem totalSize_drop_le {sizes : List Nat} {limit cut : Nat} (hlimit : ∀ x ∈ sizes, x ≤ limit)
    (h : 0 < totalSize sizes) (hcut : sizeMidpoint sizes ≤ cut) :
    totalSize (sizes.drop cut) ≤ totalSize sizes / 2 + limit := by
  obtain ⟨-, -, hgt⟩ := sizeMidpoint_spec h
  have hsucc := totalSize_take_succ_le hlimit (sizeMidpoint sizes)
  have hmono := totalSize_take_mono sizes hcut
  have hsum := totalSize_take_add_drop sizes cut
  omega

end Tablespace
