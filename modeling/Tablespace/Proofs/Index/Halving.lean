import Tablespace.Index.Node

/-!
# Halving finds the boundary

Where the elements that pass a test come first, halving finds how many they
are. The range it keeps always has the boundary right behind its first
position or later.
-/

namespace Tablespace

variable {α : Type} {test : α → Bool} {front back : List α}

theorem any_getElem?_iff (hfront : ∀ x ∈ front, test x = true) (hback : ∀ x ∈ back, test x = false)
    (i : Nat) : (front ++ back)[i]?.any test = decide (i < front.length) := by
  rcases Nat.lt_or_ge i front.length with hi | hi
  · rw [List.getElem?_append_left hi, List.getElem?_eq_getElem hi, Option.any_some,
      hfront _ (List.getElem_mem hi)]
    simp [hi]
  · rw [List.getElem?_append_right hi]
    cases hx : back[i - front.length]? with
    | none => simp [Nat.not_lt.mpr hi]
    | some x => simp [hback x (List.mem_of_getElem? hx), Nat.not_lt.mpr hi]

theorem halve_spec (hfront : ∀ x ∈ front, test x = true) (hback : ∀ x ∈ back, test x = false)
    (fuel size base : Nat) (hfuel : size ≤ fuel) (hlow : base = 0 ∨ base < front.length)
    (hhigh : front.length ≤ base + size) :
    (halve test (front ++ back) fuel size base = 0
        ∨ halve test (front ++ back) fuel size base < front.length)
      ∧ front.length ≤ halve test (front ++ back) fuel size base + 1 := by
  induction fuel generalizing size base with
  | zero =>
    unfold halve
    omega
  | succ fuel ih =>
    unfold halve
    by_cases hsize : size ≤ 1
    · rw [if_pos hsize]
      omega
    · rw [if_neg hsize]
      simp only [any_getElem?_iff hfront hback]
      by_cases hmid : base + size / 2 < front.length
      · simp only [hmid, decide_true, if_true]
        exact ih _ _ (by omega) (.inr hmid) (by omega)
      · simp only [hmid, decide_false, Bool.false_eq_true, if_false]
        exact ih _ _ (by omega) hlow (by omega)

theorem partitionPoint_append (hfront : ∀ x ∈ front, test x = true)
    (hback : ∀ x ∈ back, test x = false) : partitionPoint test (front ++ back) = front.length := by
  have hspec := halve_spec hfront hback (front ++ back).length (front ++ back).length 0
    (Nat.le_refl _) (.inl rfl) (by rw [List.length_append]; omega)
  unfold partitionPoint
  simp only [any_getElem?_iff hfront hback]
  by_cases hbase : halve test (front ++ back) (front ++ back).length (front ++ back).length 0 < front.length
  · simp only [hbase, decide_true, if_true]
    omega
  · simp only [hbase, decide_false, Bool.false_eq_true, if_false]
    omega

section
variable {passed failed : List α}

theorem length_le_of_passes (h : front ++ back = passed ++ failed) (hfront : ∀ x ∈ front, test x = true)
    (hfailed : ∀ x ∈ failed, test x = false) : front.length ≤ passed.length := by
  apply Nat.le_of_not_lt
  intro hlt
  have hx : front[passed.length] ∈ failed := by
    have hget : (front ++ back)[passed.length]? = some front[passed.length] := by
      rw [List.getElem?_append_left hlt, List.getElem?_eq_getElem hlt]
    rw [h, List.getElem?_append_right (Nat.le_refl _)] at hget
    exact List.mem_of_getElem? hget
  have := hfailed _ hx
  rw [hfront _ (List.getElem_mem hlt)] at this
  cases this

/-- The place where a test parts a list is told by the elements right before it and right behind it. -/
theorem length_eq_iff_of_parted (h : front ++ back = passed ++ failed) (hpassed : ∀ x ∈ passed, test x = true)
    (hfailed : ∀ x ∈ failed, test x = false) : front.length = passed.length
      ↔ (∀ x ∈ front.getLast?, test x = true) ∧ ∀ x ∈ back.head?, test x = false := by
  constructor
  · intro hlen
    obtain ⟨rfl, rfl⟩ := List.append_inj h hlen
    exact ⟨fun x hx => hpassed x (List.mem_of_getLast? hx), fun x hx => hfailed x (List.mem_of_head? hx)⟩
  · intro hedges
    obtain ⟨hlast, hhead⟩ := hedges
    have hany (i : Nat) : (front ++ back)[i]?.any test = decide (i < passed.length) := by
      rw [h]
      exact any_getElem?_iff hpassed hfailed i
    apply Nat.le_antisymm
    · cases hf : front.getLast? with
      | none =>
        rw [List.getLast?_eq_none_iff.mp hf]
        exact Nat.zero_le _
      | some x =>
        obtain ⟨init, rfl⟩ := List.getLast?_eq_some_iff.mp hf
        have := hany init.length
        rw [List.append_assoc, List.getElem?_append_right (Nat.le_refl _)] at this
        rw [List.length_append, List.length_singleton, Nat.succ_le_iff]
        simpa [hlast x hf] using this
    · cases hb : back.head? with
      | none =>
        have hlen := congrArg List.length h
        rw [List.head?_eq_none_iff.mp hb, List.append_nil, List.length_append] at hlen
        omega
      | some x =>
        have := hany front.length
        rw [List.getElem?_append_right (Nat.le_refl _), Nat.sub_self, ← List.head?_eq_getElem?, hb, Option.any_some,
          hhead x hb] at this
        simpa using this.symm

end

/-- A list in which an element that passes has none before it that fails is parted by the test. -/
theorem exists_parts (xs : List α) (h : xs.Pairwise fun x y => test y = true → test x = true) :
    ∃ front back, xs = front ++ back ∧ (∀ x ∈ front, test x = true) ∧ ∀ x ∈ back, test x = false := by
  induction xs with
  | nil => exact ⟨[], [], rfl, by simp, by simp⟩
  | cons x xs ih =>
    obtain ⟨hx, hxs⟩ := List.pairwise_cons.mp h
    obtain ⟨front, back, rfl, hfront, hback⟩ := ih hxs
    cases ht : test x with
    | true => exact ⟨x :: front, back, rfl, by simpa [ht] using hfront, hback⟩
    | false =>
      refine ⟨[], x :: (front ++ back), rfl, by simp, ?_⟩
      intro y hy
      rcases List.mem_cons.mp hy with rfl | hy
      · exact ht
      · cases hty : test y with
        | false => rfl
        | true =>
          rw [hx y hy hty] at ht
          cases ht

theorem insertIdx_middle (x : α) : (front ++ back).insertIdx front.length x = front ++ x :: back := by
  induction front with
  | nil => rfl
  | cons y front ih => simp [List.insertIdx_succ_cons, ih]

end Tablespace
