import Tablespace.Proofs.Heap.Query
import Tablespace.Proofs.Heap.Reachable
import Tablespace.Proofs.Record.Projection

/-!
# Attributes of stored records

What is read of an attribute is a projection to one field. A projection of a
record is known from the tuple that was stored.
-/

namespace Tablespace

namespace Heap

open Access Volume

variable {f : PagedFile} {L : Ledger} {id : RecordId} {schema : Schema} {tuple packed t : Bytes} {attr : String}
  {index : Nat} {e : RecordError}

theorem does_readAttribute (h : f.Stores L) (hb : f.pages.length < UInt32.size) (hid : L id = some (schema, tuple))
    (he : Packed.encode schema tuple = .ok packed) (hindex : schema.find attr = .ok index)
    (ht : Packed.project schema packed [index] = .ok t) : Does (readAttribute schema id attr) f t f := by
  have hread := does_readPacked h.keeps hb (Ledger.packed_eq hid he)
  exact (does_lift hindex).bind (hread.bind (does_lift ht))

theorem refuses_readAttribute (he : schema.find attr = .error e) :
    Refuses (readAttribute schema id attr) f (.failed e) :=
  (refuses_lift he).bind

/-- A record that was packed is projected to any of its fields, in any order and as often as they are
named, and to no others. Of a record in a file the projections to one field are its attributes. -/
theorem projects_fields (he : Packed.encode schema tuple = .ok packed) :
    (∀ indices, ((∃ t, Packed.project schema packed indices = .ok t) ↔ ∀ i ∈ indices, i < schema.length)
      ∧ ∀ t, Packed.project schema packed indices = .ok t → Tuple.Projected schema tuple indices t)
    ∧ ∀ k v L name id attr, Reaches k v L → v.Binds name k → L id = some (schema, tuple) →
      (∀ index, schema.find attr = .ok index → ∃ t v', Packed.project schema packed [index] = .ok t
        ∧ through name (readAttribute schema id attr) v = .ok t v' ∧ v'.files = v.files)
      ∧ ∀ e, schema.find attr = .error e →
        ∃ v', through name (readAttribute schema id attr) v = .error (.failed e) v' ∧ v'.files = v.files := by
  refine ⟨fun indices => ⟨Tuple.project_ok_iff_lt he, fun t => Tuple.projected_of_encode he⟩, ?_⟩
  intro k v L name id attr hreaches hn hid
  obtain ⟨f, hf, hb, hs⟩ := hreaches.stores
  constructor
  · intro index hindex
    obtain ⟨t, ht⟩ := (Tuple.project_ok_iff_lt he).mpr (List.forall_mem_singleton.mpr (Schema.find_lt hindex))
    obtain ⟨v', hv', hfiles⟩ := through_of_looks hn hf (does_readAttribute hs hb hid he hindex ht)
    exact ⟨t, v', ht, hv', hfiles⟩
  · intro e hno
    exact through_of_refuses hn hf (refuses_readAttribute hno)

/-- A text in front of a null, each asked for twice, and the text of the record in a file. -/
theorem projects_fields_repeated :
    Packed.encode [.int "a", .varchar "b" 5] [0x80, 2, 0, 0, 0, 104, 105] = .ok [0x80, 0, 0, 2, 0, 104, 105]
      ∧ Tuple.Projected [.int "a", .varchar "b" 5] [0x80, 2, 0, 0, 0, 104, 105] [1, 0, 0, 1]
        [0x60, 2, 0, 0, 0, 104, 105, 2, 0, 0, 0, 104, 105]
      ∧ ∃ v v', Reaches 0 v (Function.update (fun _ => none) ⟨0, 0⟩
          (some ([.int "a", .varchar "b" 5], [0x80, 2, 0, 0, 0, 104, 105])))
        ∧ through "h" (readAttribute [.int "a", .varchar "b" 5] ⟨0, 0⟩ "b") v = .ok [0, 2, 0, 0, 0, 104, 105] v' := by
  have he : Packed.encode [.int "a", .varchar "b" 5] [0x80, 2, 0, 0, 0, 104, 105]
      = .ok [0x80, 0, 0, 2, 0, 104, 105] := rfl
  obtain ⟨hproject, hstored⟩ := projects_fields he
  obtain ⟨v, hreaches, hn, -⟩ := exists_reaches_stored he
  obtain ⟨hfound, -⟩ := hstored 0 v _ "h" ⟨0, 0⟩ "b" hreaches hn rfl
  obtain ⟨t, v', ht, hv', -⟩ := hfound 1 rfl
  cases ht
  exact ⟨he, (hproject [1, 0, 0, 1]).2 _ rfl, v, v', hreaches, hv'⟩

end Heap

end Tablespace
