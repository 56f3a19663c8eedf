import LedgerClient.Proofs.RecordWriting
import LedgerClient.Proofs.Tables

/-! What the readers may yield at all, whatever the text. A value that was read nests no
deeper than the reader goes, apart from the values that fields have by default, and an
optional value of JSON that is there is not null. -/

namespace LedgerClient

/-- Whether the value is a number, exact or not. -/
def Json.IsNumber : Json → Prop
  | .integer _ | .float _ => True
  | _ => False

namespace Json.Reader

/-- The reader takes the value from some text. -/
def Yields (reader : Reader α) (value : α) : Prop := ∃ input left, reader input = .done value left

private theorem Yields.bind {reader : Reader α} {next : α → Reader β} {value : β}
    (yields : Yields (reader >>= next) value) :
    ∃ first, Yields reader first ∧ Yields (next first) value := by
  obtain ⟨input, left, read⟩ := yields
  obtain ⟨first, middle, here, read⟩ := bind_eq_done.mp read
  exact ⟨first, ⟨input, middle, here⟩, middle, left, read⟩

private theorem Yields.pure {first value : α} (yields : Yields (Pure.pure first) value) : value = first := by
  obtain ⟨input, left, read⟩ := yields
  cases read
  rfl

private theorem Yields.map {reader : Reader α} {f : α → β} {value : β}
    (yields : Yields (reader >>= fun first => Pure.pure (f first)) value) :
    ∃ first, Yields reader first ∧ value = f first := by
  obtain ⟨first, here, done⟩ := yields.bind
  exact ⟨first, here, done.pure⟩

private theorem Yields.behind {mark : Reader α} {reader : Reader β} {f : β → γ} {value : γ}
    (yields : Yields (mark >>= fun _ => reader >>= fun found => Pure.pure (f found)) value) :
    ∃ found, value = f found := by
  obtain ⟨_, _, yields⟩ := yields.bind
  obtain ⟨found, _, same⟩ := yields.map
  exact ⟨found, same⟩

private theorem Fails.yields {reader : Reader α} (fails : Fails reader) {value : α} : ¬Yields reader value :=
  fun ⟨input, left, read⟩ => fails input value left read

private theorem Yields.enclosed {body : Reader α} {close : Reader Unit} {value : α}
    (yields : Yields (enclosed body close) value) :
    Yields body value := by
  obtain ⟨input, left, read⟩ := yields
  obtain ⟨middle, read, _⟩ := enclosed_eq_done.mp read
  exact ⟨input, middle, read⟩

private theorem Yields.bounded {loop : Nat → Reader α} {value : α} (yields : Yields (bounded loop) value) :
    ∃ bound, Yields (loop bound) value := by
  obtain ⟨input, left, read⟩ := yields
  exact ⟨input.length, input, left, read⟩

private theorem yields_items {item : Reader α} {first : Bool} {bound : Nat} {values : List α}
    (yields : Yields (items item first bound) values) : ∀ value ∈ values, Yields item value := by
  induction bound generalizing first values with
  | zero => exact absurd yields (fails_failAhead _).yields
  | succ bound ih =>
    obtain ⟨more, _, yields⟩ := yields.bind
    cases more with
    | false =>
      cases yields.pure
      exact nofun
    | true =>
      obtain ⟨value, here, yields⟩ := yields.bind
      obtain ⟨others, behind, rfl⟩ := yields.map
      exact List.forall_mem_cons.mpr ⟨here, ih behind⟩

private theorem yields_list {item : Reader α} {values : List α} (yields : Yields (list item) values) :
    ∀ value ∈ values, Yields item value := by
  obtain ⟨_, _, yields⟩ := yields.bind
  obtain ⟨bound, yields⟩ := yields.enclosed.bounded
  exact yields_items yields

/-- What the steps keep holds of the state behind all members. -/
theorem yields_members {step : String → σ → Reader σ} {key : Reader String} (P : σ → Prop)
    (steps : ∀ key state next, P state → Yields (step key state) next → P next) {first : Bool} {bound : Nat}
    {state final : σ} (holds : P state) (yields : Yields (members key step first state bound) final) : P final := by
  induction bound generalizing first state with
  | zero => exact absurd yields (fails_failAhead _).yields
  | succ bound ih =>
    obtain ⟨more, _, yields⟩ := yields.bind
    cases more with
    | false =>
      cases yields.pure
      exact holds
    | true =>
      obtain ⟨name, _, yields⟩ := yields.bind
      obtain ⟨next, here, yields⟩ := yields.bind
      exact ih (steps name state next holds here) yields

private theorem yields_object {step : String → σ → Reader σ} (P : σ → Prop)
    (steps : ∀ key state next, P state → Yields (step key state) next → P next) {state final : σ} (holds : P state)
    (yields : Yields (object step state) final) : P final := by
  obtain ⟨_, _, yields⟩ := yields.bind
  obtain ⟨bound, yields⟩ := yields.enclosed.bounded
  exact yields_members P steps holds yields

private theorem isNumber_wholeNumber {negative : Bool} {whole : List Nat} {value : Json}
    (same : wholeNumber negative whole = some value) : value.IsNumber := by
  have float {x? : Option Binary64} (same : (x?.map fun x => Json.float (signed negative x)) = some value) :
      value.IsNumber := by
    obtain ⟨x, _, rfl⟩ := Option.map_eq_some_iff.mp same
    trivial
  rw [wholeNumber] at same
  generalize gather 0 whole = gathered at same
  obtain ⟨n, left⟩ := gathered
  dsimp only at same
  by_cases long : left ≠ 0
  · rw [if_pos long] at same
    exact float same
  · rw [if_neg long] at same
    generalize inexact : (Binary64.ofNat n).map (fun x => Json.float (signed negative x)) = other at same
    have exact {p : Prop} [Decidable p] {n : p → Integer}
        (same : (if h : p then some (Json.integer (n h)) else other) = some value) : value.IsNumber := by
      split at same
      · cases same
        trivial
      · exact float (inexact.trans same)
    exact exact same

theorem float_inexact {negative : Bool} {significand : Nat} {power : Int} {value : Json}
    (yields : Yields (inexact negative significand power) value) : ∃ x, value = .float x := by
  have finish {power : Int} (yields : Yields (inexact.finish negative significand power) value) :
      ∃ x, value = .float x := by
    unfold inexact.finish at yields
    split at yields
    · exact ⟨_, yields.pure⟩
    · exact absurd yields (fails_failHere _).yields
  obtain ⟨letter, _, yields⟩ := yields.bind
  split at yields
  · obtain ⟨_, _, yields⟩ := yields.bind
    obtain ⟨e, _, yields⟩ := yields.bind
    split at yields
    · exact ⟨_, yields.pure⟩
    · exact finish yields
  · exact finish yields

private theorem isNumber_inexact {negative : Bool} {significand : Nat} {power : Int} {value : Json}
    (yields : Yields (inexact negative significand power) value) : value.IsNumber := by
  obtain ⟨x, rfl⟩ := float_inexact yields
  trivial

theorem isNumber_number {value : Json} (yields : Yields number value) : value.IsNumber := by
  obtain ⟨sign, _, yields⟩ := yields.bind
  dsimp only at yields
  split at yields
  case' isTrue => obtain ⟨_, _, yields⟩ := yields.bind
  all_goals
    obtain ⟨whole, _, yields⟩ := yields.bind
    obtain ⟨mark, _, yields⟩ := yields.bind
    split at yields
    next =>
      obtain ⟨_, _, yields⟩ := yields.bind
      obtain ⟨fraction, _, yields⟩ := yields.bind
      split at yields
      · obtain ⟨c, _, yields⟩ := yields.bind
        split at yields <;> exact absurd yields (fails_failAhead _).yields
      · exact isNumber_inexact yields
    next => exact isNumber_inexact yields
    next => exact isNumber_inexact yields
    next =>
      split at yields
      next same =>
        cases yields.pure
        exact isNumber_wholeNumber same
      next => exact absurd yields (fails_failHere _).yields

private theorem yields_startingWith {list object : Reader Json} {c : Char} {value : Json}
    (yields : Yields (startingWith list object c) value) :
    (value = .null → c = 'n') ∧ value.nesting = 0 ∨ Yields list value ∨ Yields object value := by
  unfold startingWith at yields
  split at yields
  next =>
    obtain ⟨_, rfl⟩ := yields.behind
    exact .inl ⟨fun _ => rfl, rfl⟩
  next =>
    obtain ⟨_, rfl⟩ := yields.behind
    exact .inl ⟨nofun, rfl⟩
  next =>
    obtain ⟨_, rfl⟩ := yields.behind
    exact .inl ⟨nofun, rfl⟩
  next =>
    obtain ⟨_, rfl⟩ := yields.behind
    exact .inl ⟨nofun, rfl⟩
  next => exact .inr (.inl yields)
  next => exact .inr (.inr yields)
  next =>
    split at yields
    next =>
      have number := isNumber_number yields
      cases value <;> first | exact number.elim | exact .inl ⟨nofun, rfl⟩
    next => exact absurd yields (fails_failAhead _).yields

private theorem yields_start {list object : Reader Json} {found : Json}
    (yields : Yields (value.start list object) found) :
    ∃ c, Yields (startingWith list object c) found := by
  obtain ⟨c, _, yields⟩ := yields.bind
  cases c with
  | none => exact absurd yields (fails_failAhead _).yields
  | some c => exact ⟨c, yields⟩

/-- A value nests no deeper than the reader goes. -/
theorem nesting_value {depth : Nat} {found : Json} (yields : Yields (value depth) found) : found.nesting ≤ depth := by
  induction depth generalizing found with
  | zero =>
    have started : Yields (value.start (failAhead .tooDeep) (failAhead .tooDeep)) found := yields
    obtain ⟨c, yields⟩ := yields_start started
    rcases yields_startingWith yields with ⟨_, flat⟩ | yields | yields
    · exact Nat.le_of_eq flat
    · exact absurd yields (fails_failAhead _).yields
    · exact absurd yields (fails_failAhead _).yields
  | succ depth ih =>
    have started : Yields (value.start _ _) found := yields
    obtain ⟨c, yields⟩ := yields_start started
    rcases yields_startingWith yields with ⟨_, flat⟩ | yields | yields
    · exact Nat.le_trans (Nat.le_of_eq flat) (Nat.zero_le _)
    · obtain ⟨items, listed, rfl⟩ := yields.map
      exact Nat.succ_le_succ (nestingItems_le.mpr fun item among => ih (yields_list listed item among))
    · obtain ⟨reversed, folded, rfl⟩ := yields.map
      have bounded := yields_object
        (fun members : List (String × Json) => ∀ member ∈ members, member.2.nesting ≤ depth) ?_
          (List.forall_mem_nil _) folded
      · refine Nat.succ_le_succ (nestingMembers_le.mpr fun member among => ?_)
        exact bounded member (List.mem_reverse.mp among)
      · intro key members next holds yields
        obtain ⟨_, _, yields⟩ := yields.bind
        obtain ⟨inner, here, rfl⟩ := yields.map
        exact List.forall_mem_cons.mpr ⟨ih here, holds⟩

end Json.Reader

namespace Json

theorem canonicalItems_eq_map (items : List Json) : canonicalItems items = items.map canonical := by
  induction items with
  | nil => rfl
  | cons item items ih => rw [canonicalItems, ih, List.map_cons]

private theorem nesting_canonical (value : Json) {depth : Nat} (nests : value.nesting ≤ depth) :
    value.canonical.nesting ≤ depth := by
  induction value using tree_induction generalizing depth with
  | null | bool | integer | float | string => exact nests
  | array items ih =>
    cases depth with
    | zero => cases nests
    | succ depth =>
      have nests := nestingItems_le.mp (Nat.le_of_succ_le_succ nests)
      rw [canonical, canonicalItems_eq_map]
      exact Nat.succ_le_succ (nestingItems_le.mpr
        (List.forall_mem_map.mpr fun item among => ih item among (nests item among)))
  | object members ih =>
    cases depth with
    | zero => cases nests
    | succ depth =>
      have nests := nestingMembers_le.mp (Nat.le_of_succ_le_succ nests)
      rw [canonical, canonicalMembers_eq_map]
      refine Nat.succ_le_succ (nestingMembers_le.mpr fun member among => ?_)
      obtain ⟨member, inside, rfl⟩ := List.mem_map.mp (Entries.mem_of_mem_ascending among)
      exact ih member inside (nests member inside)

end Json

open Json Json.Reader

/-- What is read of the type nests no deeper than the reader goes, or than the limit, which
stands for values that fields have by default. -/
class Codec.Bounded (limit : Nat) (α : Type) [Codec α] : Prop where
  nests {depth : Nat} {value : α} (yields : Yields (Codec.read depth) value) :
    (Codec.write value).nesting ≤ max depth limit

namespace Codec
variable {limit : Nat}

private theorem yields_read? {expected : String} {fits : Char → Bool} {reader : Reader α} {value : α}
    (yields : Yields (read? expected fits reader) value) : Yields reader value := by
  obtain ⟨c, _, yields⟩ := yields.bind
  cases c with
  | none => exact absurd yields (fails_failAhead _).yields
  | some c =>
    dsimp only at yields
    split at yields
    · obtain ⟨input, left, read⟩ := yields
      exact ⟨input, left, placed_eq_done.mp read⟩
    · exact absurd yields (fails_mismatch _).yields

private theorem yields_nested {depth : Nat} {reader : Nat → Reader α} {value : α}
    (yields : Yields (nested depth reader) value) :
    ∃ inner, depth = inner + 1 ∧ Yields (reader inner) value := by
  cases depth with
  | zero => exact absurd yields (fails_failAhead _).yields
  | succ depth => exact ⟨depth, rfl, yields⟩

instance : Bounded limit UInt64 := ⟨fun _ => Nat.zero_le _⟩

instance : Bounded limit Bool := ⟨fun _ => Nat.zero_le _⟩

instance : Bounded limit String := ⟨fun _ => Nat.zero_le _⟩

instance : Bounded limit Bytes := ⟨fun _ => Nat.zero_le _⟩

instance : Bounded limit RawJson where
  nests yields := by
    obtain ⟨found, here, rfl⟩ := yields.map
    exact Nat.le_trans (nesting_canonical found (nesting_value here)) (Nat.le_max_left _ _)

private theorem bounded_option [Codec α] (here : Bounded limit α) : Bounded limit (Option α) where
  nests {depth value} yields := by
    cases value with
    | none => exact Nat.zero_le _
    | some value =>
      obtain ⟨c, _, yields⟩ := yields.bind
      split at yields
      · obtain ⟨_, none⟩ := yields.behind
        cases none
      · obtain ⟨found, inner, same⟩ := yields.map
        cases same
        exact here.nests inner

private theorem bounded_list [Codec α] (here : Bounded limit α) : Bounded (limit + 1) (List α) where
  nests {depth values} yields := by
    obtain ⟨inner, rfl, listed⟩ := yields_nested (yields_read? yields)
    have deeper : max (inner + 1) (limit + 1) = max inner limit + 1 := by omega
    rw [deeper]
    refine Nat.succ_le_succ (nestingItems_le.mpr (List.forall_mem_map.mpr fun value among => ?_))
    exact here.nests (yields_list listed value among)

end Codec

/-- Null is read from its own word only. -/
theorem Json.Reader.next_of_null {depth : Nat} {input left : List UInt8}
    (read : value depth input = .done .null left) :
    ∃ rest, Next 110 input rest := by
  have brackets : ∃ list object, value depth = value.start list object ∧ ¬Yields list .null ∧
    ¬Yields object .null := by
    cases depth with
    | zero => exact ⟨_, _, rfl, (fails_failAhead _).yields, (fails_failAhead _).yields⟩
    | succ depth =>
      refine ⟨_, _, rfl, fun yields => ?_, fun yields => ?_⟩
      · obtain ⟨_, _, same⟩ := yields.map
        cases same
      · obtain ⟨_, _, same⟩ := yields.map
        cases same
  obtain ⟨list, object, start, no_list, no_object⟩ := brackets
  rw [start] at read
  obtain ⟨mark, rest, seen, read⟩ := Next.of_ahead (fails_failAhead _ _) read
  rcases yields_startingWith ⟨_, _, read⟩ with ⟨letter, _⟩ | yields | yields
  · cases eq_of_character (k := 110) (letter rfl) rfl
    exact ⟨rest, seen⟩
  · exact absurd yields no_list
  · exact absurd yields no_object

theorem Codec.optional_not_null {depth : Nat} {value : Option RawJson} (yields : Yields (Codec.read depth) value) :
    value ≠ some ⟨.null, rfl⟩ := by
  rintro rfl
  obtain ⟨input, left, read⟩ := yields
  change (ahead >>= _) input = _ at read
  rw [ahead_bind, peek_bind] at read
  change Takes _ _ _ _ at read
  split at read
  next =>
    obtain ⟨_, _, _, read⟩ := bind_eq_done.mp read
    obtain ⟨_, _, _, done⟩ := bind_eq_done.mp read
    cases done
  next other =>
    obtain ⟨raw, _, inner, done⟩ := bind_eq_done.mp read
    cases done
    obtain ⟨found, _, inner, done⟩ := bind_eq_done.mp inner
    have null : found = .null := by
      have canonical : found.canonical = .null := by
        injection done with same
        exact congrArg RawJson.json same
      cases found <;> first | rfl | cases canonical
    rw [null] at inner
    obtain ⟨rest, seen⟩ := next_of_null inner
    rw [Next, dropWhile_again] at seen
    rw [seen] at other
    exact other rfl

/-- The value is what the field has by default, or was read. -/
def Field.Found (depth : Nat) (field : Field) (value : field.Value) : Prop :=
  value = field.blank ∨ Yields (field.codec.read depth) value

namespace Slots
variable {depth : Nat}

/-- All values that were found were read. -/
def Found (depth : Nat) : {fields : List Field} → Slots fields → Prop
  | [], _ => True
  | field :: _, slots => (∀ value ∈ slots.1, Yields (field.codec.read depth) value) ∧ Found depth slots.2

private theorem found_empty : {fields : List Field} → Found depth (empty fields)
  | [] => trivial
  | _ :: _ => ⟨nofun, found_empty⟩

private theorem Found.member {key : String} : {fields : List Field} → {slots next : Slots fields} → Found depth slots →
    Yields (member depth key slots) next → Found depth next
  | [], _, _, _, _ => trivial
  | field :: _, (slot, rest), next, ⟨here, others⟩, yields => by
    by_cases same : field.key = key
    · cases slot with
      | some value =>
        rw [member_again same] at yields
        exact absurd yields (fails_misfit _).yields
      | none =>
        rw [member_here same] at yields
        obtain ⟨_, _, yields⟩ := yields.bind
        obtain ⟨value, read, rfl⟩ := yields.map
        refine ⟨fun other inside => ?_, others⟩
        cases inside
        exact read
    · rw [member_other same] at yields
      obtain ⟨rest, step, rfl⟩ := yields.map
      exact ⟨here, others.member step⟩

private theorem Found.fill : {fields : List Field} → {slots : Slots fields} → Found depth slots →
    slots.fill.All (Field.Found depth)
  | [], _, _ => trivial
  | _ :: _, (some value, _), ⟨here, others⟩ => ⟨.inr (here value rfl), others.fill⟩
  | _ :: _, (none, _), ⟨_, others⟩ => ⟨.inl rfl, others.fill⟩

end Slots

namespace Row
variable {depth : Nat}

private theorem found_blank : {fields : List Field} → (blank fields).All (Field.Found depth)
  | [] => trivial
  | _ :: _ => ⟨.inl rfl, found_blank⟩

private theorem found_items : {fields : List Field} → {first : Bool} → {row : Row fields} →
    Yields (items depth fields first) row → row.All (Field.Found depth)
  | [], _, _, _ => trivial
  | field :: fields, first, row, yields => by
    obtain ⟨more, _, yields⟩ := yields.bind
    cases more with
    | false =>
      cases yields.pure
      exact found_blank
    | true =>
      obtain ⟨value, here, yields⟩ := yields.bind
      obtain ⟨others, read, rfl⟩ := yields.map
      exact ⟨.inr here, found_items read⟩

/-- Every value of a record was read or is that of the blank record. -/
theorem found_read {name : String} {fields : List Field} {row : Row fields}
    (yields : Yields (read name fields depth) row) :
    ∃ inner, depth = inner + 1 ∧ row.All (Field.Found inner) := by
  obtain ⟨inner, rfl, nested⟩ := Codec.yields_nested (Codec.yields_read? yields)
  refine ⟨inner, rfl, ?_⟩
  obtain ⟨c, _, body⟩ := nested.bind
  split at body
  · obtain ⟨_, _, listed⟩ := body.bind
    exact found_items listed.enclosed
  · obtain ⟨slots, folded, rfl⟩ := body.map
    have found : Slots.Found inner slots := yields_object (Slots.Found inner)
      (fun key slots next found step => found.member step) Slots.found_empty folded
    exact found.fill

/-- What holds of all that is written of fit values holds of all members. -/
theorem members_of_all {fit : (field : Field) → field.Value → Prop} (P : Json → Prop) : {fields : List Field} →
    (∀ field ∈ fields, ∀ value, fit field value → P (field.codec.write value)) → {row : Row fields} → row.All fit →
    ∀ member ∈ row.members, P member.2
  | [], _, _, _ => nofun
  | field :: fields, holds, (value, row), ⟨here, others⟩ => by
    obtain ⟨first, holds⟩ := List.forall_mem_cons.mp holds
    by_cases omitted : field.omitted value = true
    · rw [members_omitted omitted]
      exact members_of_all P holds others
    · rw [members_written omitted]
      exact List.forall_mem_cons.mpr ⟨first value here, members_of_all P holds others⟩

end Row

/-- The same for the types of all fields, and for what the fields have by default. -/
structure BoundedFields (limit : Nat) (fields : List Field) : Prop where
  each : ∀ field ∈ fields, @Codec.Bounded limit field.Value field.codec ∧
    (field.codec.write field.blank).nesting ≤ limit

namespace BoundedFields
variable {limit : Nat} {key : String} {fields : List Field}

private theorem nil : BoundedFields limit [] := ⟨nofun⟩

private theorem always [Codec α] [Inhabited α] (here : Codec.Bounded limit α)
    (blank : (Codec.write (default : α)).nesting ≤ limit) (rest : BoundedFields limit fields) :
    BoundedFields limit (.always key α :: fields) := ⟨List.forall_mem_cons.mpr ⟨⟨here, blank⟩, rest.each⟩⟩

private theorem whenSome [Codec α] (here : Codec.Bounded limit (Option α)) (rest : BoundedFields limit fields) :
    BoundedFields limit (.whenSome key α :: fields) :=
  ⟨List.forall_mem_cons.mpr ⟨⟨here, Nat.zero_le _⟩, rest.each⟩⟩

/-- The values of a record nest as deep as is said of its fields. -/
theorem nests {row : Row fields} (bounded : BoundedFields limit fields) {depth : Nat}
    (found : row.All (Field.Found depth)) : ∀ member ∈ row.members, member.2.nesting ≤ max depth limit := by
  refine Row.members_of_all (fun json => json.nesting ≤ max depth limit) (fun field taken value found => ?_) found
  obtain ⟨here, blank⟩ := bounded.each field taken
  rcases found with rfl | yields
  · exact Nat.le_trans blank (Nat.le_max_right _ _)
  · exact here.nests yields

end BoundedFields

section
variable [Inhabited α] [Model α] {depth : Nat} {value : α}

theorem found_record (yields : Yields (Codec.read depth) value) :
    ∃ inner, depth = inner + 1 ∧ (Model.toRow value).All (Field.Found inner) := by
  obtain ⟨row, read, rfl⟩ := yields.map
  obtain ⟨inner, same, found⟩ := Row.found_read read
  refine ⟨inner, same, ?_⟩
  rwa [Model.toRow_ofRow]

theorem Codec.bounded_model {limit : Nat} (bounded : BoundedFields limit (Model.fields α)) :
    Codec.Bounded (limit + 1) α where
  nests {depth value} yields := by
    obtain ⟨inner, rfl, found⟩ := found_record yields
    have deeper : max (inner + 1) (limit + 1) = max inner limit + 1 := by omega
    rw [deeper]
    exact Nat.succ_le_succ (nestingMembers_le.mpr (bounded.nests found))

end

namespace Catalogue

theorem bounded_of_mem : ∀ entry ∈ entries, BoundedFields (depthLimit - 1) entry.fields := by
  simp only [entries, List.forall_mem_cons, List.not_mem_nil, false_imp_iff, implies_true, and_true, depthLimit]
  repeat' first
    | infer_instance
    | apply And.intro
    | exact BoundedFields.nil
    | apply BoundedFields.always
    | apply BoundedFields.whenSome
    | apply Codec.bounded_option
    | apply Codec.bounded_list
    | apply Codec.bounded_model
    | decide +kernel

end Catalogue
end LedgerClient
