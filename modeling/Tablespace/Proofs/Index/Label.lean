import Mathlib
import Tablespace.Index.Outline
import Tablespace.Proofs.Text.Lossy

/-!
# The labels of an outline

A label shows the key of a run and, behind it in brackets, the identifiers of
the run in the order of the run. The text of a key may hold brackets and
digits of its own, so a label is cut at its last opening bracket, which is
never part of the key.
-/

namespace Tablespace.Outline

/-- The numbers that stand in a text, in decimal. -/
def numbersIn (text : List Char) : List Nat :=
  ((text.splitOnP fun c => !c.isDigit).filter (· ≠ [])).map fun digits => Nat.ofDigitChars 10 digits 0

def idsOf : List Nat → List RecordId
  | page :: slot :: rest => ⟨page.toUInt32, slot.toUInt16⟩ :: idsOf rest
  | _ => []

/-- The identifiers that a label lists behind its last opening bracket. -/
def idsIn (label : String) : List RecordId := idsOf (numbersIn (label.toList.rtakeWhile (· ≠ '[')))

/-- The key that a label shows in front of that bracket and a colon. -/
def keyIn (label : String) : String :=
  String.ofList ((label.toList.rdropWhile (· ≠ '[')).dropLast.dropLast)

/-- The label spells out the first key of the run and the identifiers of all its entries. The
identifiers can be read off it again, and so can a key that is a number or a text in UTF-8. -/
structure Labels (label : String) (r : List Entry) : Prop where
  spelled : ∃ e ∈ r.head?, label = e.key.display ++ ":["
    ++ ",".intercalate (r.map fun f => "(" ++ toString f.id.page ++ "," ++ toString f.id.slot ++ ")") ++ "]"
  ids : idsIn label = r.map Entry.id
  number : ∀ i, r.head?.map Entry.key = some (.int i) → (keyIn label).toInt? = some i.toInt
  text : ∀ s, r.head?.map Entry.key = some (.varchar (Utf8.encode s)) → keyIn label = s

/-! ## Numbers in a text -/

theorem numbersIn_cons {c : Char} (hc : c.isDigit = false) (text : List Char) :
    numbersIn (c :: text) = numbersIn text := by
  simp [numbersIn, List.splitOnP_cons_eq_if_modifyHead, hc]

theorem numbersIn_append_cons {digits : List Char} (hdigits : ∀ d ∈ digits, d.isDigit = true)
    (hne : digits ≠ []) {c : Char} (hc : c.isDigit = false) (text : List Char) :
    numbersIn (digits ++ c :: text) = Nat.ofDigitChars 10 digits 0 :: numbersIn text := by
  have hsplit : (digits ++ c :: text).splitOnP (fun d => !d.isDigit)
      = digits :: text.splitOnP fun d => !d.isDigit :=
    List.splitOnP_append_cons_of_forall_mem (fun d hd => by rw [hdigits d hd]; rfl) c (by rw [hc]; rfl) text
  simp [numbersIn, hsplit, hne]

theorem isDigit_of_mem_toString {n : Nat} {c : Char} (hc : c ∈ (toString n).toList) : c.isDigit = true := by
  rw [Nat.toString_eq_ofList_toDigits, String.toList_ofList] at hc
  exact Nat.isDigit_of_mem_toDigits (by decide) (by decide) hc

theorem numbersIn_toString (n : Nat) {c : Char} (hc : c.isDigit = false) (text : List Char) :
    numbersIn ((toString n).toList ++ c :: text) = n :: numbersIn text := by
  have hne : (toString n).toList ≠ [] := by
    rw [Nat.toString_eq_ofList_toDigits, String.toList_ofList]
    exact Nat.toDigits_ne_nil
  rw [numbersIn_append_cons (fun _ => isDigit_of_mem_toString) hne hc, Nat.toString_eq_ofList_toDigits,
    String.toList_ofList, Nat.ofDigitChars_toDigits (by decide) (by decide)]

theorem display_eq (id : RecordId) :
    id.display = "(" ++ toString id.page.toNat ++ "," ++ toString id.slot.toNat ++ ")" := rfl

theorem toList_display (id : RecordId) :
    id.display.toList
      = '(' :: ((toString id.page.toNat).toList ++ ',' :: ((toString id.slot.toNat).toList ++ [')'])) := by
  rw [display_eq]
  simp only [String.toList_append, List.append_assoc]
  rfl

theorem numbersIn_display (id : RecordId) (text : List Char) :
    numbersIn (id.display.toList ++ text) = id.page.toNat :: id.slot.toNat :: numbersIn text := by
  rw [toList_display, List.cons_append, numbersIn_cons (by decide), List.append_assoc, List.cons_append,
    numbersIn_toString _ (by decide), List.append_assoc, List.singleton_append, numbersIn_toString _ (by decide)]

/-! ## Lists of identifiers -/

theorem idsOf_cons (id : RecordId) (rest : List Nat) :
    idsOf (id.page.toNat :: id.slot.toNat :: rest) = id :: idsOf rest := by
  rw [idsOf, Nat.toUInt32_eq, UInt32.ofNat_toNat, Nat.toUInt16_eq, UInt16.ofNat_toNat]

/-- The text of a list of identifiers, up to the bracket that closes it. -/
def listed (ids : List RecordId) : List Char := (",".intercalate (ids.map RecordId.display)).toList ++ [']']

theorem listed_cons_cons (id next : RecordId) (ids : List RecordId) :
    listed (id :: next :: ids) = id.display.toList ++ ',' :: listed (next :: ids) := by
  simp only [listed, List.map_cons, String.intercalate_cons_cons, String.toList_append, List.append_assoc]
  rfl

theorem idsOf_listed (ids : List RecordId) : idsOf (numbersIn (listed ids)) = ids := by
  induction ids with
  | nil => rfl
  | cons id ids ih =>
    cases ids with
    | nil =>
      rw [listed, List.map_singleton, String.intercalate_singleton, numbersIn_display, idsOf_cons]
      rfl
    | cons next ids => rw [listed_cons_cons, numbersIn_display, numbersIn_cons (by decide), idsOf_cons, ih]

theorem ne_of_mem_display {id : RecordId} {c : Char} (hc : c ∈ id.display.toList) : c ≠ '[' := by
  have hnumber : ∀ {n : Nat}, c ∈ (toString n).toList → c ≠ '[' := by
    rintro n hn rfl
    exact Bool.false_ne_true (isDigit_of_mem_toString hn)
  rw [toList_display, List.mem_cons, List.mem_append, List.mem_cons, List.mem_append, List.mem_singleton] at hc
  obtain rfl | hpage | rfl | hslot | rfl := hc
  · decide
  · exact hnumber hpage
  · decide
  · exact hnumber hslot
  · decide

theorem ne_of_mem_listed {ids : List RecordId} {c : Char} (hc : c ∈ listed ids) : c ≠ '[' := by
  induction ids with
  | nil =>
    obtain rfl := List.mem_singleton.mp hc
    decide
  | cons id ids ih =>
    cases ids with
    | nil =>
      rw [listed, List.map_singleton, String.intercalate_singleton, List.mem_append, List.mem_singleton] at hc
      obtain hid | rfl := hc
      · exact ne_of_mem_display hid
      · decide
    | cons next ids =>
      rw [listed_cons_cons, List.mem_append, List.mem_cons] at hc
      obtain hid | rfl | hrest := hc
      · exact ne_of_mem_display hid
      · decide
      · exact ih hrest

/-! ## Labels -/

theorem runLabel_cons (e : Entry) (r : List Entry) :
    runLabel (e :: r) = e.key.display ++ ":[" ++ ",".intercalate ((e :: r).map fun f => f.id.display) ++ "]" := rfl

theorem toList_runLabel (e : Entry) (r : List Entry) :
    (runLabel (e :: r)).toList = (e.key.display ++ ":").toList ++ '[' :: listed ((e :: r).map Entry.id) := by
  rw [runLabel_cons, listed, List.map_map]
  simp only [String.toList_append, List.append_assoc]
  rfl

/-- From the right, a list falls apart at the first item that fails a test. -/
theorem rspan_append_cons {α : Type} {p : α → Bool} {a : α} (ha : p a = false) {l : List α}
    (hl : ∀ x ∈ l, p x = true) (front : List α) :
    (front ++ a :: l).rtakeWhile p = l ∧ (front ++ a :: l).rdropWhile p = front ++ [a] := by
  have hrev : (front ++ a :: l).reverse = l.reverse ++ a :: front.reverse := by
    rw [List.reverse_append, List.reverse_cons, List.append_assoc, List.singleton_append]
  have hpass : ∀ x ∈ l.reverse, p x = true := fun x hx => hl x (List.mem_reverse.mp hx)
  have hfail : ¬ p a = true := by
    rw [ha]
    exact Bool.false_ne_true
  constructor
  · rw [List.rtakeWhile, hrev, List.takeWhile_append_of_pos hpass, List.takeWhile_cons_of_neg hfail,
      List.append_nil, List.reverse_reverse]
  · rw [List.rdropWhile, hrev, List.dropWhile_append_of_pos hpass, List.dropWhile_cons_of_neg hfail,
      List.reverse_cons, List.reverse_reverse]

theorem rspan_runLabel (e : Entry) (r : List Entry) :
    (runLabel (e :: r)).toList.rtakeWhile (· ≠ '[') = listed ((e :: r).map Entry.id)
    ∧ (runLabel (e :: r)).toList.rdropWhile (· ≠ '[') = (e.key.display ++ ":").toList ++ ['['] := by
  rw [toList_runLabel]
  exact rspan_append_cons (by decide) (fun c hc => decide_eq_true (ne_of_mem_listed hc)) _

theorem idsIn_runLabel (e : Entry) (r : List Entry) : idsIn (runLabel (e :: r)) = (e :: r).map Entry.id := by
  rw [idsIn, (rspan_runLabel e r).1, idsOf_listed]

theorem keyIn_runLabel (e : Entry) (r : List Entry) : keyIn (runLabel (e :: r)) = e.key.display := by
  rw [keyIn, (rspan_runLabel e r).2, List.dropLast_concat, String.toList_append]
  exact (congrArg String.ofList List.dropLast_concat).trans String.ofList_toList

theorem labels_runLabel {r : List Entry} (hr : r ≠ []) : Labels (runLabel r) r := by
  obtain ⟨e, r, rfl⟩ := List.exists_cons_of_ne_nil hr
  refine ⟨⟨e, rfl, runLabel_cons e r⟩, idsIn_runLabel e r, ?_, ?_⟩
  · intro i hi
    rw [keyIn_runLabel, Option.some.inj hi]
    exact Int.toInt?_repr _
  · intro s hs
    rw [keyIn_runLabel, Option.some.inj hs]
    exact Utf8.lossy_encode s

example : runLabel [⟨.int 1, ⟨1, 1⟩⟩, ⟨.int 1, ⟨1, 2⟩⟩] = "1:[(1,1),(1,2)]" := by rfl

end Tablespace.Outline
