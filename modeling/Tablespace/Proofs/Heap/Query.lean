import Tablespace.Heap.Scan
import Tablespace.Proofs.Record.Fields

/-!
# What queries select

A query whose names are those of a schema fails on no record that was packed by
the schema. It selects a record by the tuple that the record unpacks to, and
shows fields of this tuple.
-/

namespace Tablespace

theorem Schema.find_lt {schema : Schema} {name : String} {index : Nat} (h : schema.find name = .ok index) :
    index < schema.length := by
  unfold Schema.find at h
  split at h
  · cases h
    exact (List.findIdx?_eq_some_iff_findIdx_eq.mp ‹_›).1
  · cases h

namespace Query

variable {schema : Schema} {tested : String} {comparison : Comparison} {comparand : Option Bytes}
  {projected : List String}

/-- The names are names of the schema, and the comparand is a key of the type of the tested field. -/
structure Valid (schema : Schema) (tested : String) (comparison : Comparison) (comparand : Option Bytes)
    (projected : List String) : Prop where
  names : ∀ name ∈ projected, ∃ index, schema.find name = .ok index
  key : comparison = .any ∨ ∃ index a key content, schema.find tested = .ok index ∧ schema[index]? = some a
    ∧ comparand = some key ∧ keyContent a.type key = .ok content

theorem exists_positions (h : ∀ name ∈ projected, ∃ index, schema.find name = .ok index) :
    ∃ indices, projected.mapM schema.find = .ok indices ∧ (∀ k ∈ indices, k < schema.length)
      ∧ ∀ tuple, indices.map (fun k => (Tuple.fields schema tuple)[k]?.getD none)
        = projected.map (Tuple.fieldNamed schema tuple) := by
  induction projected with
  | nil => exact ⟨[], rfl, by simp, fun _ => rfl⟩
  | cons name projected ih =>
    obtain ⟨hname, hrest⟩ := List.forall_mem_cons.mp h
    obtain ⟨index, hindex⟩ := hname
    obtain ⟨indices, hindices, hlt, hfields⟩ := ih hrest
    refine ⟨index :: indices, ?_, List.forall_mem_cons.mpr ⟨Schema.find_lt hindex, hlt⟩, ?_⟩
    · rw [List.mapM_cons, hindex, hindices]
      rfl
    · intro tuple
      simp only [List.map_cons, hfields, Tuple.fieldNamed, hindex]

section
variable {bitmap packed tuple : Bytes} {contents : List (Option Bytes)}
  (hs : Packed.Stores schema bitmap packed contents)
  (htuple : tuple = bitmap ++ Packed.joined (List.zipWith Packed.tupleField schema contents))
include hs htuple

theorem project_eq {indices : List Nat} (hlt : ∀ k ∈ indices, k < schema.length)
    (hfields : ∀ tuple, indices.map (fun k => (Tuple.fields schema tuple)[k]?.getD none)
      = projected.map (Tuple.fieldNamed schema tuple)) :
    Packed.project schema packed indices
      = .ok (Tuple.project schema (NullBitmap.clearPadding schema.length tuple) projected) := by
  have hchosen := hfields (NullBitmap.clearPadding schema.length tuple)
  rw [hs.fields_tuple htuple] at hchosen
  unfold Packed.project
  rw [hs.fields_eq hlt, hchosen]
  rfl

theorem fieldNamed_eq {index : Nat} {a : Attribute} {content : Option Bytes}
    (hindex : schema.find tested = .ok index) (ha : schema[index]? = some a)
    (hcontent : contents[index]? = some content) :
    Tuple.fieldNamed schema (NullBitmap.clearPadding schema.length tuple) tested
      = Packed.tupleField a content := by
  simp only [Tuple.fieldNamed, hindex, hs.fields_tuple htuple, List.getElem?_zipWith, ha, hcontent,
    Option.getD_some]

/-- The test of a query is the condition on the tuple that the record unpacks to. -/
theorem accepts_eq (indices : List Nat) {index : Nat} {a : Attribute} {key y : Bytes} (hany : comparison ≠ .any)
    (hindex : schema.find tested = .ok index) (ha : schema[index]? = some a) (hkey : keyContent a.type key = .ok y) :
    ∃ accepted, accepts ⟨schema, some ⟨index, comparison, y⟩, indices⟩ packed = .ok accepted
      ∧ (accepted = true ↔ Tuple.Meets schema (NullBitmap.clearPadding schema.length tuple) tested comparison
          (some key)) := by
  have hlt : index < contents.length := by
    rw [hs.allowed.length]
    exact Schema.find_lt hindex
  have hcontent := List.getElem?_eq_getElem hlt
  have hnamed := fieldNamed_eq hs htuple hindex ha hcontent
  have hfield := hs.field_eq hcontent
  unfold accepts
  rw [Tuple.meets_iff hany hindex ha hkey, hnamed]
  cases hc : contents[index] with
  | none =>
    rw [hc] at hfield
    refine ⟨false, ?_, by simp [Packed.tupleField]⟩
    simp only [hfield, bind, Except.bind]
    rfl
  | some x =>
    rw [hc] at hfield hcontent
    have hx := (hs.allowed.wide index a x ha hcontent).keyContent_eq
    refine ⟨comparison.accepts (compareContents a.type x y), ?_, ?_⟩
    · simp only [hfield, ha, bind, Except.bind]
      rfl
    · simp [Packed.tupleField, hx]

end

theorem select_eq {q : Query} {packed t : Bytes} {accepted : Bool} (haccepts : q.accepts packed = .ok accepted)
    (hproject : Packed.project q.schema packed q.projection = .ok t) :
    q.select packed = .ok (if accepted then some t else none) := by
  unfold select
  simp only [haccepts, bind, Except.bind]
  cases accepted with
  | true => simp only [if_true, hproject]; rfl
  | false => rfl

/-- The query shows of a packed tuple the projection if the tuple meets the condition, else nothing. -/
def Selects (q : Query) (schema : Schema) (tested : String) (comparison : Comparison) (comparand : Option Bytes)
    (projected : List String) : Prop :=
  ∀ tuple packed, Packed.encode schema tuple = .ok packed → ∃ shown, q.select packed = .ok shown
    ∧ ∀ t, shown = some t ↔
      Tuple.Meets schema (NullBitmap.clearPadding schema.length tuple) tested comparison comparand
      ∧ t = Tuple.project schema (NullBitmap.clearPadding schema.length tuple) projected

theorem Valid.exists_selects (h : Valid schema tested comparison comparand projected) :
    ∃ q, ofNames schema tested comparison comparand projected = .ok q
      ∧ q.Selects schema tested comparison comparand projected := by
  obtain ⟨indices, hindices, hlt, hfields⟩ := exists_positions h.names
  by_cases hany : comparison = .any
  · refine ⟨⟨schema, none, indices⟩, ?_, ?_⟩
    · unfold ofNames
      simp only [hindices, bind, Except.bind, hany, if_true]
      rfl
    · intro tuple packed he
      obtain ⟨bitmap, contents, hs, htuple⟩ := Packed.stores_of_encode he
      have haccepts : accepts ⟨schema, none, indices⟩ packed = .ok true := rfl
      refine ⟨_, select_eq haccepts (project_eq hs htuple hlt hfields), ?_⟩
      intro t
      have hmeets : Tuple.Meets schema (NullBitmap.clearPadding schema.length tuple) tested comparison comparand :=
        .inl hany
      simp [hmeets, eq_comm]
  · obtain ⟨index, a, key, y, hindex, ha, rfl, hkey⟩ := h.key.resolve_left hany
    refine ⟨⟨schema, some ⟨index, comparison, y⟩, indices⟩, ?_, ?_⟩
    · unfold ofNames
      simp only [hindices, hindex, ha, hany, if_false, bind, Except.bind, Option.map_some, Option.getD_some, hkey,
        mapError_ok]
      rfl
    · intro tuple packed he
      obtain ⟨bitmap, contents, hs, htuple⟩ := Packed.stores_of_encode he
      obtain ⟨accepted, haccepts, hmeets⟩ := accepts_eq hs htuple indices hany hindex ha hkey
      refine ⟨_, select_eq haccepts (project_eq hs htuple hlt hfields), ?_⟩
      intro t
      cases accepted with
      | true => simp [← hmeets, eq_comm]
      | false => simp [← hmeets]

end Query

end Tablespace
