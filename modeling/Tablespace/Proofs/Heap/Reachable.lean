import Tablespace.Proofs.Heap.Ledger

/-!
# Runs on a record file

A run starts from an empty file and makes calls through handles that are bound
to it, in any order and with any arguments; in between, anything may happen to
the volume that leaves the file alone. The ledger follows the replies, and what
it says is what the next calls find.
-/

namespace Tablespace

namespace Heap

open Access Volume

inductive Call where
  | insert (schema : Schema) (tuple : Bytes)
  | update (schema : Schema) (tuple : Bytes) (id : RecordId)
  | delete (id : RecordId)
  | read (schema : Schema) (id : RecordId)

inductive Reply where
  | placed (id : RecordId)
  | done
  | found (tuple : Bytes)

def Call.perform : Call → RecordM Reply
  | .insert schema tuple => do return .placed (← Heap.insert schema tuple)
  | .update schema tuple id => do
    Heap.update schema tuple id
    return .done
  | .delete id => do
    Heap.delete id
    return .done
  | .read schema id => do return .found (← Heap.read schema id)

/-- The ledger after a call that got a reply; a call that fails leaves it as it is. -/
def Ledger.after (L : Ledger) : Call → Reply → Ledger
  | .insert schema tuple, .placed id => Function.update L id (some (schema, tuple))
  | .update schema tuple id, .done => Function.update L id (some (schema, tuple))
  | .delete id, .done => Function.update L id none
  | _, _ => L

/-- The volumes that a run on a file leads to, with the ledger of the run. -/
inductive Reaches (k : Nat) : Volume → Ledger → Prop
  | start {v} : v.files[k]? = some .empty → Reaches k v fun _ => none
  | elsewhere {v v' L} : Reaches k v L → v'.files[k]? = v.files[k]? → Reaches k v' L
  | replied {v v' L name call reply} : Reaches k v L → v.Binds name k →
      through name (Call.perform call) v = .ok reply v' → v'.Below k →
      Reaches k v' (Ledger.after L call reply)
  | failed {v v' L name call e} : Reaches k v L → v.Binds name k →
      through name (Call.perform call) v = .error e v' → v'.Below k → Reaches k v' L

/-! ## One call -/

section
variable {f : PagedFile} {L : Ledger}

/-- A call gets a reply and leaves a file that stores the ledger after it, or it fails and leaves
the file as it was, or it fails for want of page numbers. -/
theorem perform_cases (h : f.Stores L) (hb : f.pages.length < UInt32.size) (call : Call) :
    (∃ reply f', Does call.perform f reply f' ∧ f'.Stores (Ledger.after L call reply))
    ∨ (∃ e, Refuses call.perform f (.failed e))
    ∨ ∃ e f', Fails call.perform f (.failed e) f' ∧ f'.pages.length = UInt32.size := by
  cases call with
  | insert schema tuple =>
    cases he : Packed.encode schema tuple with
    | ok b =>
      obtain ⟨id, f', hdoes, -, hf'⟩ := does_insert h hb he
      exact .inl ⟨.placed id, f', hdoes.bind (Does.pure f' _), hf'⟩
    | error e => exact .inr (.inl ⟨e, (refuses_insert he).bind⟩)
  | update schema tuple id =>
    cases he : Packed.encode schema tuple with
    | error e => exact .inr (.inl ⟨e, (refuses_update he).bind⟩)
    | ok b =>
      by_cases hid : L id = none
      · exact .inr (.inl ⟨_, (refuses_update_dead h hb hid he).bind⟩)
      · rcases update_cases h hb hid he with ⟨f', hdoes, hf'⟩ | ⟨e, f', hfails, hlen⟩
        · exact .inl ⟨.done, f', hdoes.bind (Does.pure f' _), hf'⟩
        · exact .inr (.inr ⟨e, f', hfails.bind, hlen⟩)
  | delete id =>
    by_cases hid : L id = none
    · exact .inr (.inl ⟨_, (refuses_delete_dead h hb hid).bind⟩)
    · obtain ⟨f', hdoes, hf'⟩ := does_delete_live h hb hid
      exact .inl ⟨.done, f', hdoes.bind (Does.pure f' _), hf'⟩
  | read schema id =>
    rcases read_cases h hb schema id with ⟨t, hdoes⟩ | ⟨e, hno⟩
    · exact .inl ⟨.found t, f, hdoes.bind (Does.pure f _), h⟩
    · exact .inr (.inl ⟨e, hno.bind⟩)

end

/-! ## Runs -/

variable {k : Nat} {v v' : Volume} {L : Ledger} {name : String}

theorem not_below {f : PagedFile} (hf : v.files[k]? = some f) (hlen : f.pages.length = UInt32.size) :
    ¬ v.Below k := by
  rintro ⟨g, hg, hlt⟩
  rw [hf, Option.some.injEq] at hg
  rw [← hg, hlen] at hlt
  exact Nat.lt_irrefl _ hlt

theorem Reaches.stores (h : Reaches k v L) :
    ∃ f, v.files[k]? = some f ∧ f.pages.length < UInt32.size ∧ f.Stores L := by
  induction h with
  | start hv => exact ⟨_, hv, by decide, stores_empty⟩
  | elsewhere _ hv ih => rwa [hv]
  | @replied v v' L name call reply _ hn hcall hbelow ih =>
    obtain ⟨f, hf, hb, hs⟩ := ih
    obtain ⟨g, hg, hlt⟩ := hbelow
    rcases perform_cases hs hb call with ⟨r, f', hdoes, hs'⟩ | ⟨e, hno⟩ | ⟨e, f', hfails, -⟩
    · obtain ⟨w, hw, hfiles⟩ := through_of_does hn hf hdoes
      rw [hcall] at hw
      cases hw
      have hf' := getElem?_files_set hf hfiles
      rw [hg, Option.some.injEq] at hf'
      exact ⟨g, hg, hlt, hf' ▸ hs'⟩
    · obtain ⟨w, hw, -⟩ := through_of_refuses hn hf hno
      rw [hcall] at hw
      cases hw
    · obtain ⟨w, hw, -⟩ := through_of_fails hn hf hfails
      rw [hcall] at hw
      cases hw
  | @failed v v' L name call e _ hn hcall hbelow ih =>
    obtain ⟨f, hf, hb, hs⟩ := ih
    rcases perform_cases hs hb call with ⟨r, f', hdoes, -⟩ | ⟨e', hno⟩ | ⟨e', f', hfails, hlen⟩
    · obtain ⟨w, hw, -⟩ := through_of_does hn hf hdoes
      rw [hcall] at hw
      cases hw
    · obtain ⟨w, hw, hfiles⟩ := through_of_refuses hn hf hno
      rw [hcall] at hw
      cases hw
      exact ⟨f, by rw [hfiles, hf], hb, hs⟩
    · obtain ⟨w, hw, hfiles⟩ := through_of_fails hn hf hfails
      rw [hcall] at hw
      cases hw
      exact absurd hbelow (not_below (getElem?_files_set hf hfiles) hlen)

theorem exists_reaches_replied {f f' : PagedFile} {call : Call} {reply : Reply} (h : Reaches k v L)
    (hn : v.Binds name k) (hf : v.files[k]? = some f) (hcall : Does call.perform f reply f')
    (hlt : f'.pages.length < UInt32.size) :
    ∃ v', Reaches k v' (Ledger.after L call reply) ∧ v'.Binds name k ∧ v'.files[k]? = some f' := by
  obtain ⟨c, hc⟩ := hcall (v.handle name).counters
  obtain ⟨v', hv', hwent⟩ := through_went hn hf hc
  have hf' := getElem?_files_set hf hwent.files
  obtain ⟨b, hb, hk⟩ := hn
  exact ⟨v', .replied h ⟨b, hb, hk⟩ hv' ⟨f', hf', hlt⟩, ⟨b, hwent.binding.trans hb, hk⟩, hf'⟩

section
variable {schema schema' schema'' : Schema} {tuple tuple' tuple'' b b' b'' : Bytes}

/-- A file with one record, at its first identifier. -/
theorem exists_reaches_stored (he : Packed.encode schema tuple = .ok b) :
    ∃ v, Reaches 0 v (Function.update (fun _ => none) ⟨0, 0⟩ (some (schema, tuple))) ∧ v.Binds "h" 0
      ∧ ∃ f, v.files[0]? = some f ∧ f.Shows [⟨[.record b], []⟩] := by
  obtain ⟨id, f, sheets, hplace, hf, hplaced⟩ :=
    does_place shows_empty false (Packed.length_le_of_encode he) (by decide)
  cases hplaced with
  | onPage page _ _ hv _ => cases hv
  | onNew page _ =>
    have hcall : Does (Call.insert schema tuple).perform .empty (.placed ⟨0, 0⟩) _ :=
      ((does_lift he).bind hplace).bind (Does.pure _ _)
    obtain ⟨v, hreaches, hn, hv⟩ := exists_reaches_replied (.start rfl) fresh_binds rfl hcall
      (by decide : 1 < UInt32.size)
    exact ⟨v, hreaches, hn, _, hv, hf⟩

/-- A file with two records on its first page. -/
theorem exists_reaches_beside (he : Packed.encode schema tuple = .ok b)
    (he' : Packed.encode schema' tuple' = .ok b')
    (hfit : Trailer.size + 2 * Slot.size + b.length + b'.length ≤ pageSize) :
    ∃ v, Reaches 0 v (Function.update (Function.update (fun _ => none) ⟨0, 0⟩ (some (schema, tuple)))
        ⟨0, 1⟩ (some (schema', tuple'))) ∧ v.Binds "h" 0
      ∧ ∃ f, v.files[0]? = some f ∧ f.Shows [⟨[.record b, .record b'], []⟩] := by
  obtain ⟨v, hreaches, hn, f, hv, hf⟩ := exists_reaches_stored he
  obtain ⟨id, f', sheets, hplace, hf', hplaced⟩ :=
    does_place hf false (Packed.length_le_of_encode he') (by simp [UInt32.size])
  cases hplaced with
  | onNew page hfull =>
    refine absurd ?_ (hfull 0 _ rfl)
    simp only [Sheet.CanHold, Sheet.space, Sheet.used, List.length_singleton, List.map_cons, List.map_nil,
      List.sum_singleton, Cell.size, if_true]
    omega
  | @onPage before n after w page hcandidates _ hw _ =>
    obtain rfl : n = 0 := by
      have hlt := SlottedPage.lt_of_getElem?_eq_some hw
      exact UInt32.toNat_inj.mp (Nat.lt_one_iff.mp hlt)
    cases hw
    have hcall : Does (Call.insert schema' tuple').perform f (.placed ⟨0, 1⟩) _ :=
      ((does_lift he').bind hplace).bind (Does.pure _ _)
    obtain ⟨v', hreaches', hn', hv'⟩ := exists_reaches_replied hreaches hn hv hcall
      (by rw [hf'.length_eq]; simp [UInt32.size])
    exact ⟨v', hreaches', hn', _, hv', hf'⟩

/-- A file with a record that has left its page, since the record beside it leaves no room. -/
theorem exists_reaches_relocated (he : Packed.encode schema tuple = .ok b)
    (he' : Packed.encode schema' tuple' = .ok b') (he'' : Packed.encode schema'' tuple'' = .ok b'')
    (hfit : Trailer.size + 2 * Slot.size + b.length + b'.length ≤ pageSize)
    (hfull : pageSize < Trailer.size + 2 * Slot.size + b'.length + b''.length) :
    ∃ v, Reaches 0 v (Function.update (Function.update (Function.update (fun _ => none)
        ⟨0, 0⟩ (some (schema, tuple))) ⟨0, 1⟩ (some (schema', tuple'))) ⟨0, 0⟩ (some (schema'', tuple'')))
      ∧ v.Binds "h" 0 ∧ ∃ f sheets target, v.files[0]? = some f ∧ f.Shows sheets
        ∧ cells sheets ⟨0, 0⟩ = .pointer target := by
  obtain ⟨v, hreaches, hn, f, hv, hf⟩ := exists_reaches_beside he he' hfit
  have hid : cells [⟨[.record b, .record b'], []⟩] ⟨0, 0⟩ = .record b := rfl
  have hb : [(⟨[.record b, .record b'], []⟩ : Sheet)].length < UInt32.size := by simp [UInt32.size]
  obtain ⟨o, l, hslot⟩ := does_homeSlot_record hf hb hid
  rcases updateAtHome_cases hf hb (Packed.length_le_of_encode he'') hid with
    ⟨hle, -⟩ | ⟨-, target, _, _, -, -, hplaced, -, f', sheets', hdoes, hf', hlen, hcells⟩
  · simp only [spaceOn, List.getElem?_cons_zero, Option.map_some, Option.getD_some, Sheet.space, Sheet.used,
      List.length_cons, List.length_nil, List.map_cons, List.map_nil, List.sum_cons, List.sum_nil, Cell.size,
      show (⟨0, 0⟩ : RecordId).page.toNat = 0 from rfl] at hle
    omega
  · have hcall : Does (Call.update schema'' tuple'' ⟨0, 0⟩).perform f .done f' :=
      ((does_lift he'').bind (hslot.bind hdoes)).bind (Does.pure _ _)
    have hlt : f'.pages.length < UInt32.size := by
      rw [hf'.length_eq, hlen]
      exact Nat.lt_of_le_of_lt hplaced.length_le (by simp [UInt32.size])
    obtain ⟨v', hreaches', hn', hv'⟩ := exists_reaches_replied hreaches hn hv hcall hlt
    exact ⟨v', hreaches', hn', f', sheets', target, hv', hf', by rw [hcells, Cells.set_self]⟩

end

/-- Through every handle the next call finds what the ledger says: an insert gets an identifier that
the ledger does not know, an update needs a page number at most, a read finds the last tuple with
the padding of its bitmap cleared, and what is not in the ledger is not in the file. -/
theorem reply_of_ledger (h : Reaches k v L) (hn : v.Binds name k) :
    (∀ schema tuple b, Packed.encode schema tuple = .ok b →
      ∃ id v', through name (Call.insert schema tuple).perform v = .ok (.placed id) v' ∧ L id = none)
    ∧ (∀ schema tuple b id, Packed.encode schema tuple = .ok b → L id ≠ none →
      (finalState (through name (Call.update schema tuple id).perform v)).Below k →
      ∃ v', through name (Call.update schema tuple id).perform v = .ok .done v')
    ∧ (∀ id, L id ≠ none → ∃ v', through name (Call.delete id).perform v = .ok .done v')
    ∧ (∀ id schema tuple, L id = some (schema, tuple) →
      ∃ v', through name (Call.read schema id).perform v
          = .ok (.found (NullBitmap.clearPadding schema.length tuple)) v' ∧ v'.files = v.files)
    ∧ ∀ id, L id = none →
      (∀ schema, ∃ v', through name (Call.read schema id).perform v = .error (.failed (.recordNotFound id)) v'
        ∧ v'.files = v.files)
      ∧ (∃ v', through name (Call.delete id).perform v = .error (.failed (.recordNotFound id)) v'
        ∧ v'.files = v.files)
      ∧ ∀ schema tuple b, Packed.encode schema tuple = .ok b →
        ∃ v', through name (Call.update schema tuple id).perform v = .error (.failed (.recordNotFound id)) v'
          ∧ v'.files = v.files := by
  obtain ⟨f, hf, hb, hs⟩ := h.stores
  refine ⟨?_, ?_, ?_, ?_, ?_⟩
  · intro schema tuple b he
    obtain ⟨id, f', hdoes, hnone, -⟩ := does_insert hs hb he
    have hcall : Does (Call.insert schema tuple).perform f (.placed id) f' := hdoes.bind (Does.pure f' _)
    obtain ⟨v', hv', -⟩ := through_of_does hn hf hcall
    exact ⟨id, v', hv', hnone⟩
  · intro schema tuple b id he hid hbelow
    rcases update_cases hs hb hid he with ⟨f', hdoes, -⟩ | ⟨e, f', hfails, hlen⟩
    · have hcall : Does (Call.update schema tuple id).perform f .done f' := hdoes.bind (Does.pure f' _)
      obtain ⟨v', hv', -⟩ := through_of_does hn hf hcall
      exact ⟨v', hv'⟩
    · have hfails' : Fails (Call.update schema tuple id).perform f (.failed e) f' := hfails.bind
      obtain ⟨v', hv', hfiles⟩ := through_of_fails hn hf hfails'
      rw [hv'] at hbelow
      exact absurd hbelow (not_below (getElem?_files_set hf hfiles) hlen)
  · intro id hid
    obtain ⟨f', hdoes, -⟩ := does_delete_live hs hb hid
    have hcall : Does (Call.delete id).perform f .done f' := hdoes.bind (Does.pure f' _)
    obtain ⟨v', hv', -⟩ := through_of_does hn hf hcall
    exact ⟨v', hv'⟩
  · intro id schema tuple hid
    exact through_of_looks hn hf ((does_read hs hb hid).bind (Does.pure f _))
  · intro id hid
    refine ⟨fun schema => ?_, ?_, fun schema tuple b he => ?_⟩
    · exact through_of_refuses hn hf (refuses_read_dead hs hb hid).bind
    · exact through_of_refuses hn hf (refuses_delete_dead hs hb hid).bind
    · exact through_of_refuses hn hf (refuses_update_dead hs hb hid he).bind

/-- A tuple that was inserted with bits in the padding of its bitmap is read back without them. -/
theorem reply_of_ledger_stored : ∃ v,
    Reaches 0 v (Function.update (fun _ => none) ⟨0, 0⟩ (some ([⟨"a", .int, 4⟩], [127, 7, 0, 0, 0])))
    ∧ v.Binds "h" 0
    ∧ (∃ id v', through "h" (Call.insert [⟨"a", .int, 4⟩] [0, 8, 0, 0, 0]).perform v = .ok (.placed id) v'
      ∧ id ≠ ⟨0, 0⟩)
    ∧ (∃ v', through "h" (Call.read [⟨"a", .int, 4⟩] ⟨0, 0⟩).perform v = .ok (.found [0, 7, 0, 0, 0]) v'
      ∧ v'.files = v.files)
    ∧ (∃ v', through "h" (Call.delete ⟨0, 0⟩).perform v = .ok .done v')
    ∧ ∃ v', through "h" (Call.delete ⟨0, 1⟩).perform v = .error (.failed (.recordNotFound ⟨0, 1⟩)) v'
      ∧ v'.files = v.files := by
  have he : Packed.encode [⟨"a", .int, 4⟩] [127, 7, 0, 0, 0] = .ok [127, 4, 0, 7, 0, 0, 0] := rfl
  obtain ⟨v, hv, hn, -⟩ := exists_reaches_stored he
  obtain ⟨hinsert, -, hdelete, hread, hmissing⟩ := reply_of_ledger hv hn
  obtain ⟨id, w, hw, hfresh⟩ := hinsert [⟨"a", .int, 4⟩] [0, 8, 0, 0, 0] [0, 4, 0, 8, 0, 0, 0] rfl
  refine ⟨v, hv, hn, ⟨id, w, hw, ?_⟩, hread ⟨0, 0⟩ _ _ (Function.update_self ..),
    hdelete ⟨0, 0⟩ (by simp), (hmissing ⟨0, 1⟩ (Function.update_of_ne (by decide) _ _)).2.1⟩
  rintro rfl
  simp at hfresh

end Heap

end Tablespace
