import Tablespace.Proofs.Record.Fields
import Tablespace.Proofs.Record.Offsets
import Tablespace.Proofs.Record.Values

/-!
# Projections

A projection of a packed record is the tuple of the fields at the given
positions, in their order and as often as they are named. It is a tuple of the
attributes at these positions, and has the values at these positions.
-/

namespace Tablespace

/-- The entries at the given positions, in the order of the positions. -/
def pick {α : Type} (xs : List α) (indices : List Nat) : List α := indices.filterMap (xs[·]?)

section
variable {α β γ : Type} {xs : List α} {ys : List β} {indices : List Nat}

theorem pick_cons {i : Nat} {x : α} (h : xs[i]? = some x) : pick xs (i :: indices) = x :: pick xs indices :=
  List.filterMap_cons_some h

theorem pick_map (f : α → β) : pick (xs.map f) indices = (pick xs indices).map f := by
  simp only [pick, List.map_filterMap, List.getElem?_map]

section
variable (hin : ∀ i ∈ indices, i < xs.length)
include hin

theorem length_pick : (pick xs indices).length = indices.length := by
  induction indices with
  | nil => rfl
  | cons i indices ih =>
    obtain ⟨hi, hrest⟩ := List.forall_mem_cons.mp hin
    rw [pick_cons (List.getElem?_eq_getElem hi), List.length_cons, ih hrest, List.length_cons]

theorem getElem?_pick (k : Nat) : (pick xs indices)[k]? = indices[k]?.bind (xs[·]?) := by
  induction indices generalizing k with
  | nil => rfl
  | cons i indices ih =>
    obtain ⟨hi, hrest⟩ := List.forall_mem_cons.mp hin
    rw [pick_cons (List.getElem?_eq_getElem hi)]
    cases k with
    | zero => exact (List.getElem?_eq_getElem hi).symm
    | succ k => exact ih hrest k

theorem map_getD_eq_pick (x : α) : indices.map (fun i => xs[i]?.getD x) = pick xs indices := by
  induction indices with
  | nil => rfl
  | cons i indices ih =>
    obtain ⟨hi, hrest⟩ := List.forall_mem_cons.mp hin
    rw [pick_cons (List.getElem?_eq_getElem hi), List.map_cons, List.getElem?_eq_getElem hi, ih hrest]
    rfl

theorem pick_zipWith (f : α → β → γ) (hlen : xs.length = ys.length) :
    pick (List.zipWith f xs ys) indices = List.zipWith f (pick xs indices) (pick ys indices) := by
  induction indices with
  | nil => rfl
  | cons i indices ih =>
    obtain ⟨hi, hrest⟩ := List.forall_mem_cons.mp hin
    have hx := List.getElem?_eq_getElem hi
    have hy := List.getElem?_eq_getElem (hlen ▸ hi)
    rw [pick_cons hx, pick_cons hy, List.zipWith_cons_cons, ← ih hrest]
    exact pick_cons (by rw [List.getElem?_zipWith, hx, hy])

theorem forall₂_pick {R : α → β → Prop} (h : List.Forall₂ R xs ys) :
    List.Forall₂ R (pick xs indices) (pick ys indices) := by
  induction indices with
  | nil => exact .nil
  | cons i indices ih =>
    obtain ⟨hi, hrest⟩ := List.forall_mem_cons.mp hin
    have hx := List.getElem?_eq_getElem hi
    have hy := List.getElem?_eq_getElem (h.length_eq ▸ hi)
    rw [pick_cons hx, pick_cons hy]
    exact .cons (Tuple.rel_of_forall₂ h hx hy) (ih hrest)

end

end

namespace Tuple

open Packed (Stores joined tupleField)

variable {schema : Schema} {bitmap tuple packed t : Bytes} {contents : List (Option Bytes)} {indices : List Nat}

/-- The fields of a tuple at the given positions make up a tuple of the attributes there: nulls where
they were, no padding, and the same contents. It can be packed unless it is too large, and has the
values that the other tuple has at these positions. -/
structure Projected (schema : Schema) (tuple : Bytes) (indices : List Nat) (t : Bytes) : Prop where
  fields_eq : t = ofFields (pick (fields schema tuple) indices)
  nulls : ∀ k i : Nat, indices[k]? = some i → NullBitmap.isNull t k = NullBitmap.isNull tuple i
  padding : NullBitmap.clearPadding indices.length t = t
  contents : ∃ contents, WellFormed schema tuple contents
    ∧ WellFormed (pick schema indices) t (pick contents indices)
  packs : (∃ packed, Packed.encode (pick schema indices) t = .ok packed) ∨ ∃ size, Packed.maxSize < size
    ∧ Packed.encode (pick schema indices) t = .error (.recordTooLarge size Packed.maxSize)
  values : ∀ values, decode schema tuple = .ok values → decode (pick schema indices) t = .ok (pick values indices)

theorem fields_of_stores (h : Stores schema bitmap packed contents)
    (htuple : tuple = bitmap ++ joined (List.zipWith tupleField schema contents)) :
    fields schema tuple = List.zipWith tupleField schema contents ∧ WellFormed schema tuple contents := by
  refine ⟨?_, bitmap, _, htuple, h.bitmap_length, (fields_of_allowed h.allowed).2⟩
  rw [htuple]
  exact h.allowed.fields_eq h.bitmap_length

section
variable (hs : Stores schema bitmap packed contents) (hin : ∀ i ∈ indices, i < schema.length)
include hs hin

theorem project_of_stores : Packed.project schema packed indices
    = .ok (ofFields (List.zipWith tupleField (pick schema indices) (pick contents indices))) := by
  have hlen : schema.length = contents.length := hs.allowed.length.symm
  have hin' : ∀ i ∈ indices, i < (List.zipWith tupleField schema contents).length := by
    simpa [List.length_zipWith, hlen] using hin
  unfold Packed.project
  rw [hs.fields_eq hin, map_getD_eq_pick hin', pick_zipWith hin tupleField hlen]
  rfl

theorem wellFormed_pick : WellFormed (pick schema indices)
      (ofFields (List.zipWith tupleField (pick schema indices) (pick contents indices))) (pick contents indices)
    ∧ EachText Declared (pick schema indices) (pick contents indices) := by
  have hin' : ∀ i ∈ indices, i < contents.length := by rwa [hs.allowed.length]
  refine wellFormed_ofFields (by rw [length_pick hin, length_pick hin']) fun k a c ha hc => ?_
  rw [getElem?_pick hin] at ha
  rw [getElem?_pick hin'] at hc
  obtain ⟨i, hi, ha⟩ := Option.bind_eq_some_iff.mp ha
  rw [hi] at hc
  exact hs.allowed.wide i a c ha hc

theorem projected_of_stores (htuple : tuple = bitmap ++ joined (List.zipWith tupleField schema contents)) :
    Projected schema tuple indices
      (ofFields (List.zipWith tupleField (pick schema indices) (pick contents indices))) := by
  have hin' : ∀ i ∈ indices, i < contents.length := by rwa [hs.allowed.length]
  obtain ⟨hfields, hformed⟩ := fields_of_stores hs htuple
  obtain ⟨hpicked, htexts⟩ := wellFormed_pick hs hin
  constructor
  case fields_eq => rw [hfields, pick_zipWith hin tupleField hs.allowed.length.symm]
  case nulls =>
    intro k i hk
    obtain ⟨content, hi⟩ : ∃ content, contents[i]? = some content :=
      ⟨_, List.getElem?_eq_getElem (hin' i (List.mem_of_getElem? hk))⟩
    have hpick : (pick contents indices)[k]? = some content := by
      rw [getElem?_pick hin', hk, Option.bind_some, hi]
    rw [hpicked.isNull_eq hpick, hformed.isNull_eq hi]
  case padding => rw [← length_pick hin, ← hpicked.ofFields_eq]
  case contents => exact ⟨contents, hformed, hpicked⟩
  case packs => exact encode_ok_or_tooLarge hpicked htexts
  case values =>
    intro values hvalues
    obtain ⟨htypes, hvalued⟩ := decode_eq_ok_iff.mp hvalues
    refine decode_eq_ok_iff.mpr ⟨forall₂_pick hin htypes, ?_⟩
    rwa [← pick_map, hvalued.unique hformed]

end

theorem project_ok_iff_lt (he : Packed.encode schema tuple = .ok packed) :
    (∃ t, Packed.project schema packed indices = .ok t) ↔ ∀ i ∈ indices, i < schema.length := by
  obtain ⟨bitmap, contents, hs, -⟩ := Packed.stores_of_encode he
  refine ⟨fun h i hi => ?_, fun hin => ⟨_, project_of_stores hs hin⟩⟩
  obtain ⟨content, hcontent⟩ := Packed.project_ok_iff.mp h i hi
  by_contra hout
  unfold Packed.field at hcontent
  rw [List.getElem?_eq_none (Nat.le_of_not_lt hout)] at hcontent
  cases hcontent

theorem projected_of_encode (he : Packed.encode schema tuple = .ok packed)
    (h : Packed.project schema packed indices = .ok t) : Projected schema tuple indices t := by
  obtain ⟨bitmap, contents, hs, htuple⟩ := Packed.stores_of_encode he
  have hin := (project_ok_iff_lt he).mp ⟨t, h⟩
  rw [project_of_stores hs hin] at h
  cases h
  exact projected_of_stores hs hin htuple

end Tuple

end Tablespace
