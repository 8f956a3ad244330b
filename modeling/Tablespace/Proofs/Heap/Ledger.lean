import Tablespace.Proofs.Heap.Operations
import Tablespace.Proofs.Record.RoundTrip
import Tablespace.Proofs.Volume.Through

/-!
# Ledgers

A ledger knows the tuples that a record file was told to keep. It follows the
calls by what they return: an insert that succeeds enters a tuple under the new
identifier, an update replaces it and a delete strikes it out. Whatever calls
were made, the file does what the ledger says.
-/

namespace Tablespace

open Access

/-- The last tuple that was stored under each identifier, with its schema. -/
abbrev Ledger := RecordId → Option (Schema × Bytes)

namespace Ledger

def packed (L : Ledger) : RecordId → Option Bytes := fun id =>
  (L id).bind fun entry => (Packed.encode entry.1 entry.2).toOption

variable {L : Ledger} {id : RecordId} {schema : Schema} {tuple b : Bytes}

theorem packed_eq (hid : L id = some (schema, tuple)) (he : Packed.encode schema tuple = .ok b) :
    L.packed id = some b := by
  simp [packed, hid, he, Except.toOption]

theorem packed_of_none (hid : L id = none) : L.packed id = none := by simp [packed, hid]

theorem packed_enter (he : Packed.encode schema tuple = .ok b) :
    packed (Function.update L id (some (schema, tuple))) = Function.update L.packed id (some b) := by
  funext a
  by_cases ha : a = id
  · subst ha
    rw [Function.update_self, packed_eq (Function.update_self ..) he]
  · simp [packed, Function.update_of_ne ha]

theorem packed_strike : packed (Function.update L id none) = Function.update L.packed id none := by
  funext a
  by_cases ha : a = id
  · subst ha
    simp [packed]
  · simp [packed, Function.update_of_ne ha]

end Ledger

/-- The file keeps the packed records of the tuples of a ledger, which can all be packed. -/
structure PagedFile.Stores (f : PagedFile) (L : Ledger) : Prop where
  keeps : f.Keeps L.packed
  encodable : ∀ id schema tuple, L id = some (schema, tuple) →
    ∃ b, Packed.encode schema tuple = .ok b

namespace Heap

variable {f : PagedFile} {L : Ledger} {id : RecordId} {schema : Schema} {tuple b : Bytes}
  {e : RecordError}

theorem stores_empty : PagedFile.empty.Stores fun _ => none := ⟨keeps_empty, by simp⟩

section
variable (h : f.Stores L)
include h

theorem stores_enter {f' : PagedFile} (he : Packed.encode schema tuple = .ok b)
    (hf' : f'.Keeps (Function.update L.packed id (some b))) :
    f'.Stores (Function.update L id (some (schema, tuple))) where
  keeps := by
    rw [Ledger.packed_enter he]
    exact hf'
  encodable a s t ha := by
    by_cases hid : a = id
    · subst hid
      rw [Function.update_self] at ha
      cases ha
      exact ⟨b, he⟩
    · rw [Function.update_of_ne hid] at ha
      exact h.encodable a s t ha

theorem exists_packed (hid : L id ≠ none) : ∃ b, L.packed id = some b := by
  obtain ⟨⟨s, t⟩, hs⟩ := Option.ne_none_iff_exists'.mp hid
  obtain ⟨b, hb⟩ := h.encodable id s t hs
  exact ⟨b, Ledger.packed_eq hs hb⟩

end

/-! ## Calls -/

section
variable (h : f.Stores L) (hb : f.pages.length < UInt32.size)
include h hb

theorem does_insert (he : Packed.encode schema tuple = .ok b) :
    ∃ id f', Does (insert schema tuple) f id f' ∧ L id = none
      ∧ f'.Stores (Function.update L id (some (schema, tuple))) := by
  obtain ⟨id, f', hdoes, hnone, hf'⟩ := does_place_record h.keeps hb (Packed.length_le_of_encode he)
  refine ⟨id, f', (does_lift he).bind hdoes, ?_, stores_enter h he hf'⟩
  by_cases hid : L id = none
  · exact hid
  · obtain ⟨c, hc⟩ := exists_packed h hid
    rw [hnone] at hc
    cases hc

theorem does_delete_live (hid : L id ≠ none) :
    ∃ f', Does (delete id) f () f' ∧ f'.Stores (Function.update L id none) := by
  obtain ⟨b, hpacked⟩ := exists_packed h hid
  obtain ⟨f', hdoes, hf'⟩ := does_delete h.keeps hb hpacked
  refine ⟨f', hdoes, by rw [Ledger.packed_strike]; exact hf', fun a s t ha => ?_⟩
  by_cases hne : a = id
  · subst hne
    rw [Function.update_self] at ha
    cases ha
  · rw [Function.update_of_ne hne] at ha
    exact h.encodable a s t ha

theorem refuses_delete_dead (hid : L id = none) : Refuses (delete id) f (.failed (.recordNotFound id)) :=
  refuses_delete h.keeps hb (Ledger.packed_of_none hid)

/-- An update fails for want of a page number at most. -/
theorem update_cases (hid : L id ≠ none) (he : Packed.encode schema tuple = .ok b) :
    (∃ f', Does (update schema tuple id) f () f'
      ∧ f'.Stores (Function.update L id (some (schema, tuple))))
    ∨ ∃ e f', Fails (update schema tuple id) f (.failed e) f' ∧ f'.pages.length = UInt32.size := by
  obtain ⟨old, hold⟩ := exists_packed h hid
  obtain ⟨sheets, hf, hc⟩ := h.keeps
  have hb' := hf.length_eq ▸ hb
  have hsize := Packed.length_le_of_encode he
  have hpack : Does (liftM (Packed.encode schema tuple) : RecordM Bytes) f b f := does_lift he
  rcases hc.cell_of_some hold with hrec | ⟨target, hptr, -⟩
  · obtain ⟨o, l, hslot⟩ := does_homeSlot_record hf hb' hrec
    obtain ⟨f', hdoes, hf'⟩ := does_updateAtHome hf hb' hsize hc hrec
    exact .inl ⟨f', hpack.bind (hslot.bind hdoes), stores_enter h he hf'⟩
  · have hslot := does_homeSlot_pointer hf hb' hptr
    rcases does_or_fails_updateMoved hf hb' hsize hc hptr with ⟨f', hdoes, hf'⟩ | ⟨e, f', hfails, hlen⟩
    · exact .inl ⟨f', hpack.bind (hslot.bind hdoes), stores_enter h he hf'⟩
    · exact .inr ⟨e, f', hpack.bind_fails (hslot.bind_fails hfails), hlen⟩

theorem refuses_update_dead (hid : L id = none) (he : Packed.encode schema tuple = .ok b) :
    Refuses (update schema tuple id) f (.failed (.recordNotFound id)) := by
  obtain ⟨sheets, hf, hc⟩ := h.keeps
  refine (does_lift he).bind_fails ?_
  exact refuses_of_homeSlot hf (hf.length_eq ▸ hb) hc (Ledger.packed_of_none hid) (fun _ => rfl) fun _ _ => rfl

theorem does_read (hid : L id = some (schema, tuple)) :
    Does (read schema id) f (NullBitmap.clearPadding schema.length tuple) f := by
  obtain ⟨b, he⟩ := h.encodable id schema tuple hid
  exact (does_readPacked h.keeps hb (Ledger.packed_eq hid he)).bind
    (does_lift (Packed.decode_encode he))

theorem refuses_read_dead (hid : L id = none) : Refuses (read schema id) f (.failed (.recordNotFound id)) :=
  (refuses_readPacked h.keeps hb (Ledger.packed_of_none hid)).bind

theorem read_cases (schema : Schema) (id : RecordId) :
    (∃ t, Does (read schema id) f t f) ∨ ∃ e, Refuses (read schema id) f (.failed e) := by
  by_cases hid : L id = none
  · exact .inr ⟨_, refuses_read_dead h hb hid⟩
  · obtain ⟨b, hpacked⟩ := exists_packed h hid
    have hlook := does_readPacked h.keeps hb hpacked
    cases hd : Packed.decode schema b with
    | ok t => exact .inl ⟨t, hlook.bind (does_lift hd)⟩
    | error e => exact .inr ⟨e, hlook.bind_fails (refuses_lift hd)⟩

end

theorem refuses_insert (he : Packed.encode schema tuple = .error e) :
    Refuses (insert schema tuple) f (.failed e) := (refuses_lift he).bind

theorem refuses_update (he : Packed.encode schema tuple = .error e) :
    Refuses (update schema tuple id) f (.failed e) := (refuses_lift he).bind

end Heap

end Tablespace
