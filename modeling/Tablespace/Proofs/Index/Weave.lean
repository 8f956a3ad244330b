/-!
# Parts with keys between them

The keys of a tree in order are those of the children of its root with the
separators of the root between them. A weave joins parts and keys in this way;
around one of its parts it falls into what comes before and what comes after.
-/

namespace Tablespace

namespace Weave

variable {α : Type}

def before : List (List α) → List α → List α
  | part :: parts, k :: keys => part ++ k :: before parts keys
  | _, _ => []

def after : List α → List (List α) → List α
  | k :: keys, part :: parts => k :: part ++ after keys parts
  | _, _ => []

end Weave

open Weave

/-- The parts with the keys between them. -/
def weave {α : Type} (keys : List α) : List (List α) → List α
  | [] => []
  | part :: parts => part ++ after keys parts

namespace Weave

variable {α : Type} {keys keys₁ keys₂ : List α} {parts parts₁ parts₂ : List (List α)} {part : List α}
  {k x : α}

theorem after_append (h : parts₁.length = keys₁.length) :
    after (keys₁ ++ keys₂) (parts₁ ++ parts₂) = after keys₁ parts₁ ++ after keys₂ parts₂ := by
  induction keys₁ generalizing parts₁ with
  | nil =>
    rw [List.length_nil] at h
    rw [List.eq_nil_of_length_eq_zero h]
    rfl
  | cons k keys₁ ih =>
    cases parts₁ with
    | nil => simp at h
    | cons part parts₁ =>
      have := @ih parts₁ (by simpa using h)
      simp [after, this]

theorem weave_around (h : parts₁.length = keys₁.length) :
    weave (keys₁ ++ keys₂) (parts₁ ++ part :: parts₂)
      = before parts₁ keys₁ ++ part ++ after keys₂ parts₂ := by
  induction parts₁ generalizing keys₁ with
  | nil =>
    rw [List.length_nil] at h
    rw [List.eq_nil_of_length_eq_zero h.symm]
    rfl
  | cons first parts₁ ih =>
    cases keys₁ with
    | nil => simp at h
    | cons k keys₁ =>
      have := @ih keys₁ (by simpa using h)
      cases parts₁ with
      | nil =>
        have hk : keys₁ = [] := List.eq_nil_of_length_eq_zero (by simpa using h.symm)
        subst hk
        simp [weave, before, after]
      | cons second parts₁ =>
        simp only [weave, before, List.cons_append, List.append_assoc] at this ⊢
        rw [after, List.cons_append, this]

theorem weave_graft (h₁ : parts₁.length = keys₁.length) (h : parts.length = keys.length + 1) :
    weave (keys₁ ++ keys ++ keys₂) (parts₁ ++ parts ++ parts₂)
      = before parts₁ keys₁ ++ weave keys parts ++ after keys₂ parts₂ := by
  cases parts with
  | nil => simp at h
  | cons first parts =>
    rw [List.append_assoc, List.append_assoc, List.cons_append, weave_around h₁,
      after_append (by simpa using h), weave]
    simp

/-- A weave falls apart at one of its keys. -/
theorem weave_split (h₁ : parts₁.length = keys₁.length + 1) (h₂ : parts₂ ≠ []) :
    weave (keys₁ ++ k :: keys₂) (parts₁ ++ parts₂) = weave keys₁ parts₁ ++ k :: weave keys₂ parts₂ := by
  cases parts₁ with
  | nil => simp at h₁
  | cons first parts₁ =>
    cases parts₂ with
    | nil => exact absurd rfl h₂
    | cons part parts₂ =>
      simp only [weave, List.cons_append]
      rw [after_append (by simpa using h₁), after]
      simp

theorem weave_cons (next : List α) :
    weave (k :: keys) (part :: next :: parts) = part ++ k :: weave keys (next :: parts) := rfl

/-- A weave of weaves is one weave of all their parts. -/
theorem weave_weave {β : Type} {inside : β → List α} {xs : List β} {parts : β → List (List α)}
    (h : xs.length = keys.length + 1) (hparts : ∀ x, (parts x).length = (inside x).length + 1) :
    weave (weave keys (xs.map inside)) (xs.flatMap parts)
      = weave keys (xs.map fun x => weave (inside x) (parts x)) := by
  induction xs generalizing keys with
  | nil => simp at h
  | cons x xs ih =>
    cases xs with
    | nil =>
      obtain rfl : keys = [] := List.eq_nil_of_length_eq_zero (by simpa using h.symm)
      simp [weave, after]
    | cons y xs =>
      cases keys with
      | nil => simp at h
      | cons k keys =>
        have hrest := @ih keys (by simpa using h)
        have hne : (y :: xs).flatMap parts ≠ [] := by
          intro hnil
          have hy := hparts y
          rw [(List.append_eq_nil_iff.mp hnil).1] at hy
          simp at hy
        simp only [List.map_cons, weave_cons] at hrest ⊢
        rw [List.flatMap_cons, weave_split (hparts x) hne, hrest]

/-! ## Lengths -/

section
variable {β γ : Type} {inside : β → List α} {ends : β → List γ} {xs : List β}
  (hone : ∀ x, (ends x).length = (inside x).length + 1)
include hone

theorem length_before (h : xs.length = keys.length) :
    (before (xs.map inside) keys).length = (xs.flatMap ends).length := by
  induction xs generalizing keys with
  | nil => rfl
  | cons x xs ih =>
    cases keys with
    | nil => simp at h
    | cons k keys =>
      have := @ih keys (by simpa using h)
      have := hone x
      simp only [List.map_cons, before, List.length_append, List.length_cons, List.flatMap_cons]
      omega

theorem length_after (h : xs.length = keys.length) :
    (after keys (xs.map inside)).length = (xs.flatMap ends).length := by
  induction xs generalizing keys with
  | nil => cases keys <;> rfl
  | cons x xs ih =>
    cases keys with
    | nil => simp at h
    | cons k keys =>
      have := @ih keys (by simpa using h)
      have := hone x
      simp only [List.map_cons, after, List.length_append, List.length_cons, List.flatMap_cons]
      omega

end

/-! ## Ends -/

theorem getLast?_before (h : parts.length = keys.length) : (before parts keys).getLast? = keys.getLast? := by
  induction parts generalizing keys with
  | nil =>
    rw [List.eq_nil_of_length_eq_zero h.symm]
    rfl
  | cons part parts ih =>
    cases keys with
    | nil => cases h
    | cons k keys =>
      rw [before, List.getLast?_append, List.getLast?_cons, List.getLast?_cons, ih (Nat.succ.inj h)]
      rfl

theorem head?_after (h : parts.length = keys.length) : (after keys parts).head? = keys.head? := by
  cases keys with
  | nil => cases parts <;> rfl
  | cons k keys =>
    cases parts with
    | nil => cases h
    | cons part parts => rfl

/-! ## Order -/

theorem sublist_after (h : parts.length = keys.length) : keys.Sublist (after keys parts) := by
  induction parts generalizing keys with
  | nil =>
    rw [List.eq_nil_of_length_eq_zero h.symm]
    exact List.nil_sublist _
  | cons part parts ih =>
    cases keys with
    | nil => exact List.nil_sublist _
    | cons k keys =>
      have := @ih keys (by simpa using h)
      exact (this.trans (List.sublist_append_right part _)).cons_cons k

theorem sublist_weave (h : parts.length = keys.length + 1) : keys.Sublist (weave keys parts) := by
  cases parts with
  | nil => simp at h
  | cons part parts => exact (sublist_after (by simpa using h)).trans (List.sublist_append_right part _)

theorem flatten_sublist_before (h : parts.length = keys.length) :
    parts.flatten.Sublist (before parts keys) := by
  induction parts generalizing keys with
  | nil => exact List.nil_sublist _
  | cons part parts ih =>
    cases keys with
    | nil => simp at h
    | cons k keys =>
      have := @ih keys (by simpa using h)
      rw [List.flatten_cons, before]
      exact (List.Sublist.refl part).append (this.cons k)

theorem flatten_sublist_after (h : parts.length = keys.length) :
    parts.flatten.Sublist (after keys parts) := by
  induction parts generalizing keys with
  | nil => exact List.nil_sublist _
  | cons part parts ih =>
    cases keys with
    | nil => simp at h
    | cons k keys =>
      have := @ih keys (by simpa using h)
      rw [List.flatten_cons, after, List.cons_append]
      exact ((List.Sublist.refl part).append this).cons k

theorem flatten_sublist_weave (h : parts.length = keys.length + 1) :
    parts.flatten.Sublist (weave keys parts) := by
  cases parts with
  | nil => simp at h
  | cons part parts =>
    exact (List.Sublist.refl part).append (flatten_sublist_after (by simpa using h))

theorem weave_sublist {part' : List α} (h : parts₁.length + parts₂.length = keys.length)
    (hpart : part'.Sublist part) :
    (weave keys (parts₁ ++ part' :: parts₂)).Sublist (weave keys (parts₁ ++ part :: parts₂)) := by
  rw [← List.take_append_drop parts₁.length keys]
  have hlen : parts₁.length = (keys.take parts₁.length).length := by
    rw [List.length_take]
    omega
  rw [weave_around hlen, weave_around hlen]
  exact ((List.Sublist.refl _).append hpart).append (List.Sublist.refl _)

/-- In a weave in order, a key lies between the parts before it and the parts behind it. -/
theorem rel_of_pairwise {R : α → α → Prop} (h : parts.length = keys.length + 1)
    (hs : (weave keys parts).Pairwise R) {i j : Nat} (hk : keys[j]? = some k) (hp : parts[i]? = some part)
    (hx : x ∈ part) : (i ≤ j → R x k) ∧ (j < i → R k x) := by
  obtain ⟨hj, rfl⟩ := List.getElem?_eq_some_iff.mp hk
  have hkeys : keys = keys.take j ++ keys[j] :: keys.drop (j + 1) := by
    rw [← List.drop_eq_getElem_cons hj, List.take_append_drop]
  have htake : (parts.take (j + 1)).length = (keys.take j).length + 1 := by
    rw [List.length_take, List.length_take]
    omega
  have hdrop : (parts.drop (j + 1)).length = (keys.drop (j + 1)).length + 1 := by
    rw [List.length_drop, List.length_drop]
    omega
  have hne : parts.drop (j + 1) ≠ [] := by
    intro hnil
    rw [hnil] at hdrop
    cases hdrop
  have hsplit := @weave_split _ (keys.take j) (keys.drop (j + 1)) (parts.take (j + 1)) (parts.drop (j + 1)) keys[j]
    htake hne
  rw [← hkeys, List.take_append_drop] at hsplit
  rw [hsplit, List.pairwise_append, List.pairwise_cons] at hs
  obtain ⟨-, ⟨hright, -⟩, hleft⟩ := hs
  constructor
  · intro hle
    have hmem : part ∈ parts.take (j + 1) := by
      rw [← List.getElem?_take_of_lt (Nat.lt_succ_of_le hle)] at hp
      exact List.mem_of_getElem? hp
    have hin := (flatten_sublist_weave htake).subset (List.mem_flatten.mpr ⟨part, hmem, hx⟩)
    exact hleft x hin keys[j] List.mem_cons_self
  · intro hlt
    have hmem : part ∈ parts.drop (j + 1) := by
      rw [show i = j + 1 + (i - (j + 1)) by omega, ← List.getElem?_drop] at hp
      exact List.mem_of_getElem? hp
    exact hright x ((flatten_sublist_weave hdrop).subset (List.mem_flatten.mpr ⟨part, hmem, hx⟩))

section
variable {R : α → α → Prop} (hrefl : ∀ x, R x x)
include hrefl

theorem exists_rel_key (h : (before parts keys).Pairwise R) (hx : x ∈ before parts keys) :
    ∃ k ∈ keys, R x k := by
  induction parts generalizing keys with
  | nil => simp [before] at hx
  | cons part parts ih =>
    cases keys with
    | nil => simp [before] at hx
    | cons k keys =>
      simp only [before, List.pairwise_append, List.pairwise_cons] at h
      obtain ⟨-, ⟨-, hrest⟩, hcross⟩ := h
      rcases List.mem_append.mp hx with hx | hx
      · exact ⟨k, by simp, hcross x hx k (by simp)⟩
      · rcases List.mem_cons.mp hx with rfl | hx
        · exact ⟨x, by simp, hrefl x⟩
        · obtain ⟨l, hl, hxl⟩ := ih hrest hx
          exact ⟨l, by simp [hl], hxl⟩

theorem exists_key_rel (h : (after keys parts).Pairwise R) (hx : x ∈ after keys parts) :
    ∃ k ∈ keys, R k x := by
  induction parts generalizing keys with
  | nil => cases keys <;> simp [after] at hx
  | cons part parts ih =>
    cases keys with
    | nil => simp [after] at hx
    | cons k keys =>
      simp only [after, List.cons_append, List.pairwise_cons, List.pairwise_append] at h
      obtain ⟨hhead, -, hrest, -⟩ := h
      simp only [after, List.cons_append, List.mem_cons, List.mem_append] at hx
      rcases hx with rfl | hx | hx
      · exact ⟨x, by simp, hrefl x⟩
      · exact ⟨k, by simp, hhead x (by simp [hx])⟩
      · obtain ⟨l, hl, hlx⟩ := ih hrest hx
        exact ⟨l, by simp [hl], hlx⟩

end

end Weave

end Tablespace
