import LedgerClient.Proofs.Numerals
import LedgerClient.Proofs.ObjectReading

/-! Values without floats as they are printed: their texts are well-formed, and are read
back to the values as far as the reader may go down into them. -/

namespace LedgerClient.Json

mutual

/-- Whether no number in the value is a float. -/
def floatless : Json → Bool
  | float _ => false
  | array items => floatlessItems items
  | object members => floatlessMembers members
  | _ => true

def floatlessItems : List Json → Bool
  | [] => true
  | item :: items => floatless item && floatlessItems items

def floatlessMembers : List (String × Json) → Bool
  | [] => true
  | (_, value) :: members => floatless value && floatlessMembers members

end

mutual

/-- How many brackets stand around what is deepest in the value. -/
def nesting : Json → Nat
  | array items => nestingItems items + 1
  | object members => nestingMembers members + 1
  | _ => 0

def nestingItems : List Json → Nat
  | [] => 0
  | item :: items => max (nesting item) (nestingItems items)

def nestingMembers : List (String × Json) → Nat
  | [] => 0
  | (_, value) :: members => max (nesting value) (nestingMembers members)

end

theorem floatlessItems_iff {items : List Json} :
    floatlessItems items = true ↔ ∀ item ∈ items, item.floatless = true := by
  induction items with
  | nil => exact iff_of_true rfl nofun
  | cons item items ih => rw [floatlessItems, Bool.and_eq_true, ih, List.forall_mem_cons]

theorem floatlessMembers_iff {members : List (String × Json)} :
    floatlessMembers members = true ↔ ∀ member ∈ members, member.2.floatless = true := by
  induction members with
  | nil => exact iff_of_true rfl nofun
  | cons member members ih => rw [floatlessMembers, Bool.and_eq_true, ih, List.forall_mem_cons]

theorem nestingItems_le {items : List Json} {depth : Nat} :
    nestingItems items ≤ depth ↔ ∀ item ∈ items, item.nesting ≤ depth := by
  induction items with
  | nil => exact iff_of_true (Nat.zero_le _) nofun
  | cons item items ih => rw [nestingItems, Nat.max_le, ih, List.forall_mem_cons]

theorem nestingMembers_le {members : List (String × Json)} {depth : Nat} :
    nestingMembers members ≤ depth ↔ ∀ member ∈ members, member.2.nesting ≤ depth := by
  induction members with
  | nil => exact iff_of_true (Nat.zero_le _) nofun
  | cons member members ih => rw [nestingMembers, Nat.max_le, ih, List.forall_mem_cons]

/-- Induction on values, through the items and members inside brackets. -/
@[elab_as_elim]
theorem tree_induction {p : Json → Prop} (null : p .null) (bool : ∀ value, p (.bool value))
    (integer : ∀ value, p (.integer value)) (float : ∀ value, p (.float value)) (string : ∀ value, p (.string value))
    (array : ∀ items, (∀ item ∈ items, p item) → p (.array items))
    (object : ∀ members : List (String × Json), (∀ member ∈ members, p member.2) → p (.object members))
    (value : Json) : p value :=
  @Json.rec p (fun items => ∀ item ∈ items, p item) (fun members => ∀ member ∈ members, p member.2)
    (fun member => p member.2) null bool integer float string array object nofun
    (fun _ _ first others => List.forall_mem_cons.mpr ⟨first, others⟩) nofun
    (fun _ _ first others => List.forall_mem_cons.mpr ⟨first, others⟩) (fun _ _ holds => holds) value

/-- The octets of a printed value. -/
def printed (value : Json) : List UInt8 := Utf8.encode value.text

namespace Grammar
open Reader

/-- A member as it is written, without blanks. -/
def Member.written (key : String) (value : List UInt8) : Member :=
  ⟨[], Utf8.encode (key.toList.flatMap escaped), [], value⟩

theorem Member.written_denotes (key : String) {value : List UInt8} (sound : Text value) :
    (written key value).Denotes key :=
  ⟨nofun, spells_escaped key.toList, nofun, sound⟩

private theorem encode_stringText (text : String) :
    Utf8.encode (stringText text) = 34 :: (Utf8.encode (text.toList.flatMap escaped) ++ [34]) := by
  rw [stringText, Utf8.encode_cons, Utf8.encode_append]
  rfl

private theorem encode_itemsText (items : List Json) :
    Utf8.encode (itemsText items) = commas (items.map printed) := by
  induction items with
  | nil => rfl
  | cons item items ih =>
    cases items with
    | nil => rfl
    | cons next items =>
      rw [itemsText, Utf8.encode_append, Utf8.encode_cons, ih]
      · rfl
      · exact List.cons_ne_nil _ _

private theorem encode_membersText (members : List (String × Json)) : Utf8.encode (membersText members) =
    commas (members.map fun member => (Member.written member.1 (printed member.2)).text) := by
  have here (key : String) (value : Json) :
      Utf8.encode (stringText key ++ ':' :: value.text) = (Member.written key (printed value)).text := by
    rw [Utf8.encode_append, encode_stringText, Utf8.encode_cons, List.cons_append, List.append_assoc]
    rfl
  induction members with
  | nil => rfl
  | cons member members ih =>
    obtain ⟨key, value⟩ := member
    cases members with
    | nil =>
      rw [membersText, here]
      rfl
    | cons next members =>
      rw [membersText, ← List.cons_append, ← List.append_assoc, Utf8.encode_append, here, Utf8.encode_cons, ih]
      · rfl
      · exact List.cons_ne_nil _ _

theorem printed_string (text : String) :
    printed (.string text) = 34 :: (Utf8.encode (text.toList.flatMap escaped) ++ [34]) := encode_stringText text

theorem printed_array (items : List Json) : printed (.array items) = 91 :: (commas (items.map printed) ++ [93]) := by
  rw [printed, text, Utf8.encode_cons, Utf8.encode_append, encode_itemsText]
  rfl

private theorem printed_object (members : List (String × Json)) : printed (.object members) =
    123 :: (commas (members.map fun member => (Member.written member.1 (printed member.2)).text) ++ [125]) := by
  rw [printed, text, Utf8.encode_cons, Utf8.encode_append, encode_membersText]
  rfl

private theorem inside_printed {members : List (String × Json)} (sound : ∀ member ∈ members, Text (printed member.2)) :
    Inside (members.map fun member => (member.1, printed member.2))
      (commas (members.map fun member => (Member.written member.1 (printed member.2)).text)) := by
  cases members with
  | nil => exact .blank nofun
  | cons member members =>
    have parts := @Inside.members
      ((member :: members).map fun member => (Member.written member.1 (printed member.2), member.1)) (by simp)
      (List.forall_mem_map.mpr fun member among => Member.written_denotes _ (sound member among))
    rwa [List.map_map, List.map_map] at parts

theorem object_printed {members : List (String × Json)} (sound : ∀ member ∈ members, Text (printed member.2)) :
    Object (members.map fun member => (member.1, printed member.2)) (printed (.object members)) := by
  rw [printed_object]
  exact @Object.braces _ [] _ [] nofun (inside_printed sound) nofun

theorem text_printed (value : Json) (exact : value.floatless = Bool.true) : Text (printed value) := by
  induction value using tree_induction with
  | null => exact .null
  | bool value =>
    cases value with
    | false => exact .false
    | true => exact .true
  | integer n =>
    rw [printed, text, encode_integerText]
    have digits {sign : List UInt8} (signed : sign = [] ∨ sign = [45]) : Text (sign ++ numeral n.val.natAbs) := by
      have number := Text.number signed (whole_numeral n.val.natAbs) .none .none
      rwa [List.append_nil, List.append_nil] at number
    split
    · exact digits (.inr rfl)
    · exact digits (.inl rfl)
  | float => cases exact
  | string text =>
    rw [printed_string]
    exact .string (spells_escaped text.toList).body
  | array items ih =>
    have exact := floatlessItems_iff.mp exact
    rw [printed_array]
    cases items with
    | nil => exact .emptyList nofun
    | cons item items =>
      exact .list (by simp) (List.forall_mem_map.mpr fun item among => ih item among (exact item among))
  | object members ih =>
    have exact := floatlessMembers_iff.mp exact
    exact (object_printed fun member among => ih member among (exact member among)).text

end Grammar
namespace Reader
open Grammar

theorem reads_of_done {reader : Reader α} (reads : Extends reader reader) {text : List UInt8} {value : α}
    (read : reader text = .done value []) : Reads reader text value :=
  fun rest ends => ⟨[], nofun, (reads read).2 rest ends⟩

/-- The text starts with an octet that is seen and closes no list. -/
def Starts (text : List UInt8) : Prop := ∃ octet others, text = octet :: others ∧ isSpace octet = false ∧ octet ≠ 93

private theorem Starts.next {text : List UInt8} (starts : Starts text) (rest : List UInt8) :
    ∃ octet others, text ++ rest = octet :: others ∧ octet ≠ 93 ∧ Next octet (text ++ rest) others := by
  obtain ⟨octet, others, rfl, visible, item⟩ := starts
  exact ⟨octet, others ++ rest, rfl, item, Next.here visible _⟩

section
variable {item : Reader α} (spell : α → List UInt8)

/-- Behind an item come the others, each behind a comma. -/
theorem items_behind {values : List α} (reads : ∀ value ∈ values, Reads item (spell value) value)
    (starts : ∀ value ∈ values, Starts (spell value)) (rest : List UInt8) :
    ∃ tail, Ends tail ∧ values.length < tail.length ∧
      (∀ text, commas (text :: values.map spell) ++ 93 :: rest = text ++ tail) ∧
      ∀ blank bound, Blank blank → values.length < bound →
        items item false bound (blank ++ tail) = .done values (93 :: rest) := by
  induction values with
  | nil =>
    refine ⟨93 :: rest, ends_of_mark (by simp) _, Nat.zero_lt_succ _, fun _ => rfl, fun blank bound all enough => ?_⟩
    obtain ⟨bound, rfl⟩ := Nat.exists_eq_add_of_le' (Nat.one_le_of_lt enough)
    rw [items, bind_of_done (moreItems_eq_done.mpr (.ends (Next.behind all rfl rest)))]
    rfl
  | cons value values ih =>
    obtain ⟨here, reads⟩ := List.forall_mem_cons.mp reads
    obtain ⟨first, starts⟩ := List.forall_mem_cons.mp starts
    obtain ⟨tail, ends, longer, same, others⟩ := ih reads starts
    refine ⟨44 :: (spell value ++ tail), ends_of_mark (by simp) _, ?_, fun text => ?_,
      fun blank bound all enough => ?_⟩
    · simp only [List.length_cons, List.length_append]
      omega
    · rw [← same, List.map_cons, commas, List.append_assoc, List.cons_append]
      exact List.cons_ne_nil _ _
    · obtain ⟨bound, rfl⟩ := Nat.exists_eq_add_of_le' (Nat.one_le_of_lt enough)
      obtain ⟨octet, behind, split, mark, seen⟩ := first.next tail
      obtain ⟨blank, all', read⟩ := here tail ends
      rw [items, bind_of_done (moreItems_eq_done.mpr (.continues (Next.behind all rfl _) seen mark)), ← split]
      change (item >>= _) _ = _
      rw [bind_of_done read, bind_of_done (others blank bound all' (Nat.lt_of_succ_lt_succ enough))]
      rfl

/-- A list is read whose items are. -/
theorem list_of_reads {values : List α} (reads : ∀ value ∈ values, Reads item (spell value) value)
    (starts : ∀ value ∈ values, Starts (spell value)) (rest : List UInt8) :
    list item (91 :: (commas (values.map spell) ++ 93 :: rest)) = .done values rest := by
  have close : closeList (93 :: rest) = .done () rest := closeList_eq_done.mpr (Next.here rfl rest)
  refine enclosed_eq_done.mpr ⟨93 :: rest, ?_, close⟩
  cases values with
  | nil => rfl
  | cons value values =>
    obtain ⟨here, reads⟩ := List.forall_mem_cons.mp reads
    obtain ⟨first, starts⟩ := List.forall_mem_cons.mp starts
    obtain ⟨tail, ends, longer, same, others⟩ := items_behind spell reads starts rest
    obtain ⟨octet, behind, split, mark, seen⟩ := first.next tail
    obtain ⟨blank, all, read⟩ := here tail ends
    have enough : values.length < behind.length := by
      have length := congrArg List.length split
      obtain ⟨_, _, nonempty, _⟩ := first
      simp only [nonempty, List.length_append, List.length_cons] at length
      omega
    rw [List.map_cons, same, split]
    change items item true (behind.length + 1) (octet :: behind) = _
    rw [items, ← split, bind_of_done (moreItems_eq_done.mpr (.starts seen mark)), ← split]
    change (item >>= _) _ = _
    rw [bind_of_done read, bind_of_done (others blank _ all enough)]
    rfl

end

theorem printed_integer (n : Integer) : ∃ octet others, printed (.integer n) = octet :: others ∧
    (character octet = '-' ∨ (character octet).isDigit = true) := by
  rw [printed, text, encode_integerText]
  split
  · exact ⟨45, _, rfl, .inl rfl⟩
  · obtain ⟨octet, others, same, digit⟩ := (whole_numeral n.val.natAbs).first
    exact ⟨octet, others, same, .inr ((isDigit_eq octet).symm.trans digit)⟩

theorem number_printed (n : Integer) : number (printed (.integer n)) = .done (.integer n) [] := number_integer n

theorem visible_of_number {octet : UInt8} : character octet = '-' ∨ (character octet).isDigit = true →
    isSpace octet = false ∧ octet ≠ 93 ∧ octet ≠ 110 :=
  Percent.forall_octet (p := fun octet => character octet = '-' ∨ (character octet).isDigit = true →
    isSpace octet = false ∧ octet ≠ 93 ∧ octet ≠ 110) (by decide +kernel) octet

/-- Only null starts with the letter of null. -/
theorem starts_printed {value : Json} (exact : value.floatless = true) :
    ∃ octet others, printed value = octet :: others ∧
    isSpace octet = false ∧ octet ≠ 93 ∧ (octet = 110 → value = .null) := by
  cases value with
  | null => exact ⟨110, _, rfl, rfl, by decide, fun _ => rfl⟩
  | bool value =>
    cases value with
    | false => exact ⟨102, _, rfl, rfl, by decide, nofun⟩
    | true => exact ⟨116, _, rfl, rfl, by decide, nofun⟩
  | integer n =>
    obtain ⟨octet, others, same, first⟩ := printed_integer n
    obtain ⟨visible, item, letter⟩ := visible_of_number first
    exact ⟨octet, others, same, visible, item, fun null => absurd null letter⟩
  | float => cases exact
  | string text => exact ⟨34, _, printed_string text, rfl, by decide, nofun⟩
  | array items => exact ⟨91, _, printed_array items, rfl, by decide, nofun⟩
  | object members => exact ⟨123, _, printed_object members, rfl, by decide, nofun⟩

theorem Starts.printed {value : Json} (exact : value.floatless = true) : Starts (Json.printed value) := by
  obtain ⟨octet, others, same, visible, item, _⟩ := starts_printed exact
  exact ⟨octet, others, same, visible, item⟩

private theorem start_visible {octet : UInt8} (visible : isSpace octet = false) (list object : Reader Json)
    (input : List UInt8) :
    value.start list object (octet :: input) = startingWith list object (character octet) (octet :: input) :=
  ahead_of_next (Next.here visible input) _

private theorem start_number {octet : UInt8} (first : character octet = '-' ∨ (character octet).isDigit = true)
    (list object : Reader Json) (input : List UInt8) :
    value.start list object (octet :: input) = number (octet :: input) := by
  rw [start_visible (visible_of_number first).1]
  generalize character octet = c at first
  unfold startingWith
  split
  case h_7 => rw [if_pos first]
  all_goals exact absurd first (by decide)

theorem value_eq_start (depth : Nat) : ∃ list object, value depth = value.start list object := by
  cases depth <;> exact ⟨_, _, rfl⟩

theorem string_printed (text : String) (rest : List UInt8) :
    string (Utf8.encode (text.toList.flatMap escaped) ++ 34 :: rest) = .done text rest := by
  have read := string_of_spells (spells_escaped text.toList) rest
  rwa [String.ofList_toList] at read

section
variable {item : Reader Json} {members : List (String × Json)}

/-- The members that were read, the last one first, and those to come are all members. -/
def Gathers (item : Reader Json) (members : List (String × Json)) (remaining : List (String × List UInt8))
    (reversed : List (String × Json)) : Prop :=
  ∃ left : List (String × Json), remaining = left.map (fun member => (member.1, printed member.2)) ∧
    (∀ member ∈ left, Reads item (printed member.2) member.2) ∧ reversed.reverse ++ left = members

private theorem gathers_step {key : String} {text : List UInt8} {remaining : List (String × List UInt8)}
    {reversed : List (String × Json)} (gathers : Gathers item members ((key, text) :: remaining) reversed) :
    ∃ next, Gathers item members remaining next ∧ ∀ between, Blank between →
      Reads (do colon; return (key, ← item) :: reversed) (between ++ 58 :: text) next := by
  obtain ⟨left, same, reads, all⟩ := gathers
  cases left with
  | nil => cases same
  | cons member left =>
    cases same
    obtain ⟨here, reads⟩ := List.forall_mem_cons.mp reads
    refine ⟨(member.1, member.2) :: reversed, ⟨left, rfl, reads, ?_⟩, fun between blank => (here.map _).colon blank⟩
    rw [← all, List.reverse_cons, List.append_assoc]
    rfl

private theorem object_of_reads (sound : ∀ member ∈ members, Text (printed member.2))
    (reads : ∀ member ∈ members, Reads item (printed member.2) member.2) (rest : List UInt8) :
    object (fun key members => do colon; return (key, ← item) :: members) []
      (123 :: (commas (members.map fun member => (Member.written member.1 (printed member.2)).text) ++ 125 :: rest)) =
        .done members.reverse rest := by
  have start : Gathers item members (members.map fun member => (member.1, printed member.2)) [] :=
    ⟨members, rfl, reads, rfl⟩
  obtain ⟨reversed, ⟨left, none, _, all⟩, read⟩ := object_of_steps (Gathers item members)
    (fun _ _ _ _ _ gathers => gathers_step gathers) (inside_printed sound) start rest
  cases List.map_eq_nil_iff.mp none.symm
  rw [List.append_nil] at all
  rw [read, ← all, List.reverse_reverse]

end

theorem reads_value (value : Json) (exact : value.floatless = true) {depth : Nat} (nests : value.nesting ≤ depth) :
    Reads (Reader.value depth) (printed value) value := by
  induction value using tree_induction generalizing depth with
  | null => exact reads_of_done (extends_value depth) (by cases depth <;> rfl)
  | bool value => exact reads_of_done (extends_value depth) (by cases depth <;> cases value <;> rfl)
  | integer n =>
    obtain ⟨list, object, start⟩ := value_eq_start depth
    obtain ⟨octet, others, same, first⟩ := printed_integer n
    refine reads_of_done (extends_value depth) ?_
    rw [start, same, start_number first, ← same, number_printed]
  | float => cases exact
  | string text =>
    obtain ⟨list, object, start⟩ := value_eq_start depth
    refine reads_of_done (extends_value depth) ?_
    rw [start, printed_string, start_visible rfl]
    change (string >>= _) (_ ++ [34]) = _
    rw [bind_of_done (string_printed text [])]
    rfl
  | array items ih =>
    cases depth with
    | zero => cases nests
    | succ depth =>
      have exact := floatlessItems_iff.mp exact
      have nests := nestingItems_le.mp (Nat.le_of_succ_le_succ nests)
      have read := list_of_reads printed
        (fun item among => ih item among (exact item among) (nests item among))
        (fun item among => .printed (exact item among)) []
      refine reads_of_done (extends_value _) ?_
      rw [printed_array]
      change value.start _ _ _ = _
      rw [start_visible rfl]
      change (list (Reader.value depth) >>= _) (91 :: _) = _
      rw [bind_of_done read]
      rfl
  | object members ih =>
    cases depth with
    | zero => cases nests
    | succ depth =>
      have exact := floatlessMembers_iff.mp exact
      have nests := nestingMembers_le.mp (Nat.le_of_succ_le_succ nests)
      have read := object_of_reads (fun member among => text_printed member.2 (exact member among))
        (fun member among => ih member among (exact member among) (nests member among)) []
      refine reads_of_done (extends_value _) ?_
      rw [printed_object]
      change value.start _ _ _ = _
      rw [start_visible rfl]
      change (object _ [] >>= _) (123 :: _) = _
      rw [bind_of_done read, List.reverse_reverse]
      rfl

end Reader
end LedgerClient.Json
