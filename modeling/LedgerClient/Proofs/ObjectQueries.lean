import LedgerClient.Proofs.FormReading
import LedgerClient.Proofs.RecordValues
import LedgerClient.Proofs.Tables
import LedgerClient.Query

/-! Objects as queries. The entries of an object are read back from its query, each key once
and in order, as long as their values are texts, whole numbers and truth values. An object
with a value that has no text in a query is refused as a whole. -/

namespace LedgerClient.Query

/-- The values that a query holds exactly, with their texts. -/
inductive Written : Json → String → Prop
  | text (text : String) : Written (.string text) text
  | number (n : Json.Integer) : Written (.integer n) (toString n.val)
  | flag (flag : Bool) : Written (.bool flag) (toString flag)

/-- The values that have no text in a query. -/
inductive Unfit : Json → Prop
  | null : Unfit .null
  | array (items : List Json) : Unfit (.array items)
  | object (members : List (String × Json)) : Unfit (.object members)

private theorem toString_integer (n : Int) : String.ofList (Json.integerText n) = toString n := by
  unfold Json.integerText
  cases n with
  | ofNat n =>
    have positive : ¬Int.ofNat n < 0 := Int.not_lt.mpr (Int.natCast_nonneg n)
    rw [if_neg positive]
    rfl
  | negSucc n =>
    rw [if_pos (Int.negSucc_lt_zero n), String.ofList_cons]
    rfl

private theorem valueText_of_written {value : Json} {text : String} (written : Written value text) :
    valueText value = .ok text := by
  cases written with
  | text text => rfl
  | number n => exact congrArg Except.ok (toString_integer n.val)
  | flag flag => cases flag <;> rfl

private theorem Written.fit {value : Json} {text : String} (written : Written value text) : ¬Unfit value := by
  intro unfit
  cases unfit <;> cases written

private theorem valueText_fails_iff {value : Json} : (∃ fault, valueText value = .error fault) ↔ Unfit value := by
  constructor
  · intro failed
    obtain ⟨fault, failed⟩ := failed
    cases value with
    | null => exact .null
    | array items => exact .array items
    | object members => exact .object members
    | bool flag => cases flag <;> cases failed
    | integer n => cases failed
    | float x => cases failed
    | string text => cases failed
  · intro unfit
    cases unfit <;> exact ⟨_, rfl⟩

private theorem valueText_canonical (value : Json) : valueText value.canonical = valueText value := by
  cases value <;> simp only [Json.canonical, valueText]

/-- The text of a value that has one. -/
def textOf (value : Json) : String := (valueText value).toOption.getD ""

private theorem valueText_of_fit {value : Json} (fit : ¬Unfit value) : valueText value = .ok (textOf value) := by
  cases read : valueText value with
  | ok text => simp [textOf, read, Except.toOption]
  | error fault => exact absurd (valueText_fails_iff.mp ⟨fault, read⟩) fit

private theorem textOf_of_written {value : Json} {text : String} (written : Written value text) :
    textOf value = text := by
  simp [textOf, valueText_of_written written, Except.toOption]

/-- The pairs in a query, as a server reads them. -/
def pairs (query : Option String) : List (String × String) :=
  match query with
  | some text => Form.decode text.toList
  | none => []

private theorem pairs_ofPairs (entries : List (String × String)) : pairs (ofPairs entries) = entries := by
  cases entries with
  | nil => rfl
  | cons entry rest =>
    simp only [ofPairs, pairs, String.toList_ofList]
    exact Form.decode_encode (entry :: rest)

private theorem ofPairs_eq_none {entries : List (String × String)} : ofPairs entries = none ↔ entries = [] := by
  cases entries <;> simp [ofPairs]

private theorem inQuery_of_ofPairs {entries : List (String × String)} {text : String}
    (made : ofPairs entries = some text) :
    ∀ c ∈ text.toList, c.isAlphanum = true ∨ c ∈ ['*', '-', '.', '_', '+', '%', '&', '='] := by
  intro c inside
  cases entries with
  | nil => cases made
  | cons entry rest =>
    cases made
    rw [String.toList_ofList] at inside
    rcases Form.written_encode c inside with written | equals | ampersand
    · simp only [Form.isWritten, Bool.and_eq_true, Bool.or_eq_true, List.contains_eq_mem, decide_eq_true_eq] at written
      apply written.2.imp id
      intro mark
      exact List.mem_append_left ['&', '='] mark
    · simp [equals]
    · simp [ampersand]

section
variable {members : List (String × Json)}

/-- The entries of an object with the texts of their values. -/
def entryTexts (members : List (String × Json)) : List (String × String) :=
  (Entries.ascending members).map fun member => (member.1, textOf member.2)

/-- The values that count, one for each key, are those that are given last. -/
def Holds (members : List (String × Json)) (key : String) (value : Json) : Prop :=
  Entries.last? key members = some value

private theorem mem_ascending_iff {key : String} {value : Json} :
    (key, value) ∈ Entries.ascending members ↔ Holds members key value := Entries.mem_ascending_iff_last?

private theorem sorted_entryTexts :
    (entryTexts members).Pairwise (fun a b => Utf8.encode a.1.toList < Utf8.encode b.1.toList) := by
  apply List.pairwise_map.mpr
  apply (Entries.ascending_ascending members).imp
  intro member other less
  exact Utf8.encode_lt_of_lt (String.lt_iff.mp less)

private theorem entryTexts_eq_nil : entryTexts members = [] ↔ members = [] := by
  constructor
  · intro empty
    apply List.eq_nil_iff_forall_not_mem.mpr
    intro member inside
    obtain ⟨kept, stays⟩ := Entries.exists_mem_ascending inside
    rw [List.map_eq_nil_iff.mp empty] at stays
    cases stays
  · intro empty
    rw [empty]
    rfl

private theorem mem_entryTexts (written : ∀ key value, Holds members key value → ∃ text, Written value text)
    {key text : String} : (key, text) ∈ entryTexts members ↔ ∃ value, Holds members key value ∧ Written value text := by
  constructor
  · intro found
    obtain ⟨⟨_, value⟩, inside, same⟩ := List.mem_map.mp found
    cases same
    obtain ⟨text, shown⟩ := written _ value (mem_ascending_iff.mp inside)
    refine ⟨value, mem_ascending_iff.mp inside, ?_⟩
    rwa [textOf_of_written shown]
  · intro found
    obtain ⟨value, held, shown⟩ := found
    exact List.mem_map.mpr ⟨(key, value), mem_ascending_iff.mpr held, Prod.ext rfl (textOf_of_written shown)⟩

private theorem encode_object (members : List (String × Json)) : encode (.object members) =
    (Entries.ascending members).mapM (fun member => return (member.1, ← valueText member.2)) >>=
      fun entries => return ofPairs entries := by
  unfold encode
  simp only [Json.canonical, Json.canonicalMembers_eq_map, Entries.ascending_map, List.mapM_map, Function.comp_def,
    valueText_canonical]

private theorem encode_of_fit (fit : ∀ key value, Holds members key value → ¬Unfit value) :
    encode (.object members) = .ok (ofPairs (entryTexts members)) := by
  rw [encode_object]
  apply bind_eq_ok.mpr
  refine ⟨entryTexts members, mapM_eq_ok.mpr ?_, rfl⟩
  apply List.forall₂_map_right_iff.mpr
  apply List.forall₂_same.mpr
  intro member inside
  have shown := valueText_of_fit (fit member.1 member.2 (mem_ascending_iff.mp inside))
  exact bind_eq_ok.mpr ⟨_, shown, rfl⟩

/-- One value without a text is enough. -/
theorem encode_ne_ok {key : String} {value : Json} (held : Holds members key value) (unfit : Unfit value)
    (query : Option String) : encode (.object members) ≠ .ok query := by
  intro encoded
  rw [encode_object] at encoded
  obtain ⟨entries, shown, _⟩ := bind_eq_ok.mp encoded
  obtain ⟨_, _, entry⟩ := Json.exists_of_forall₂ (mapM_eq_ok.mp shown) (mem_ascending_iff.mpr held)
  obtain ⟨text, fits, _⟩ := bind_eq_ok.mp entry
  obtain ⟨fault, failed⟩ := valueText_fails_iff.mpr unfit
  cases fits.symm.trans failed

private theorem encode_fails_iff :
    (∃ fault, encode (.object members) = .error fault) ↔ ∃ key value, Holds members key value ∧ Unfit value := by
  constructor
  · intro failed
    obtain ⟨fault, failed⟩ := failed
    apply Classical.byContradiction
    intro none
    have encoded := encode_of_fit fun key value held unfit => none ⟨key, value, held, unfit⟩
    cases failed.symm.trans encoded
  · intro found
    obtain ⟨key, value, held, unfit⟩ := found
    cases encoded : encode (.object members) with
    | ok query => exact absurd encoded (encode_ne_ok held unfit query)
    | error fault => exact ⟨fault, rfl⟩

end

/-- An object whose values are texts, whole numbers and truth values is written with no other
characters than those of a form, and read back from there: each key stands once with the text
of its value, in the order of the octets of the keys. There is no query just if there are no
members. An object fails to be written just if a value of it is null, a list or an object. -/
theorem encode_object_reads_back (members : List (String × Json)) :
    ((∀ key value, Holds members key value → ∃ text, Written value text) →
      ∃ query, encode (.object members) = .ok query ∧ (query = none ↔ members = []) ∧
        (∀ text, query = some text →
          ∀ c ∈ text.toList, c.isAlphanum = true ∨ c ∈ ['*', '-', '.', '_', '+', '%', '&', '=']) ∧
        (pairs query).Pairwise (fun a b => Utf8.encode a.1.toList < Utf8.encode b.1.toList) ∧
        ∀ key text, (key, text) ∈ pairs query ↔ ∃ value, Holds members key value ∧ Written value text) ∧
    ((∃ fault, encode (.object members) = .error fault) ↔
      ∃ key value, Holds members key value ∧ Unfit value) := by
  refine ⟨?_, encode_fails_iff⟩
  intro written
  have encoded : encode (.object members) = .ok (ofPairs (entryTexts members)) := by
    apply encode_of_fit
    intro key value held
    obtain ⟨text, shown⟩ := written key value held
    exact shown.fit
  refine ⟨_, encoded, ofPairs_eq_none.trans entryTexts_eq_nil, ?_, ?_, ?_⟩
  · intro text made
    exact inQuery_of_ofPairs made
  · rw [pairs_ofPairs]
    exact sorted_entryTexts
  · intro key text
    rw [pairs_ofPairs]
    exact mem_entryTexts written

/-- Values of all three kinds, an empty key, a key that is given twice, and characters that are
marks of a form; and the same object with a list in it. -/
theorem encode_object_reads_back_marks :
    let members : List (String × Json) := [("b&=", .string "old"), ("", .bool true), ("a", .integer ⟨-5, by decide⟩),
      ("b&=", .string "+ %€")]
    (∀ key value, Holds members key value → ∃ text, Written value text) ∧
      (∃ query, encode (.object members) = .ok query ∧ query ≠ none ∧ ("", "true") ∈ pairs query ∧
        ("a", "-5") ∈ pairs query ∧ ("b&=", "+ %€") ∈ pairs query ∧ ("b&=", "old") ∉ pairs query) ∧
      ∃ fault, encode (.object (members ++ [("a", .array [])])) = .error fault := by
  intro members
  have held : ∀ key value, Holds members key value →
      (key, value) ∈ [("", Json.bool true), ("a", .integer ⟨-5, by decide⟩), ("b&=", .string "+ %€")] := by
    intro key value held
    exact mem_ascending_iff.mpr held
  have written : ∀ key value, Holds members key value → ∃ text, Written value text := by
    intro key value holds
    have among := held key value holds
    simp only [List.mem_cons, Prod.mk.injEq, List.not_mem_nil, or_false] at among
    rcases among with ⟨_, rfl⟩ | ⟨_, rfl⟩ | ⟨_, rfl⟩
    · exact ⟨_, .flag true⟩
    · exact ⟨_, .number _⟩
    · exact ⟨_, .text _⟩
  obtain ⟨reads, _⟩ := encode_object_reads_back members
  obtain ⟨query, encoded, absent, _, _, stands⟩ := reads written
  refine ⟨written, ⟨query, encoded, fun none => List.cons_ne_nil _ _ (absent.mp none), ?_, ?_, ?_, ?_⟩, ?_⟩
  · exact (stands _ _).mpr ⟨.bool true, rfl, .flag true⟩
  · exact (stands _ _).mpr ⟨.integer ⟨-5, by decide⟩, rfl, .number _⟩
  · exact (stands _ _).mpr ⟨.string "+ %€", rfl, .text _⟩
  · intro inside
    obtain ⟨value, holds, shown⟩ := (stands _ _).mp inside
    cases holds
    exact absurd (textOf_of_written shown) (by decide)
  · exact (encode_object_reads_back _).2.mpr ⟨"a", .array [], rfl, .array []⟩

end LedgerClient.Query
