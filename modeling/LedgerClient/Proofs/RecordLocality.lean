import LedgerClient.Model.Catalogue
import LedgerClient.Proofs.Skipping

/-! What is said of readers holds of the readers of all types that stand in JSON: they look
no further than the value, and stop where passing over the value would stop. -/

namespace LedgerClient
open Json Json.Reader

/-- A type whose reader takes a value of JSON from the text and no more. -/
class Codec.Local (α : Type) [codec : Codec α] : Prop where
  reads (depth : Nat) : Extends (codec.read depth) (codec.read depth)
  passes (depth : Nat) : Follows skip (codec.read depth)

/-- The same for the types of all fields. -/
class LocalFields (fields : List Field) : Prop where
  each : ∀ field ∈ fields, @Codec.Local field.Value field.codec

namespace Codec

private theorem extends_read? {expected : String} {fits : Char → Bool} {reader : Reader α}
    (reads : ExtendsInside reader reader) : Extends (read? expected fits reader) (read? expected fits reader) := by
  refine .ahead (fails_failAhead _ _) fun c => ?_
  dsimp only
  split
  · exact reads.placed
  · exact (fails_mismatch _).extendsInside _

theorem placed_eq_done {reader : Reader α} {input left : List UInt8} {value : α} :
    placed reader input = .done value left ↔ reader input = .done value left := by
  unfold placed
  constructor
  · intro read
    split at read
    next same =>
      cases read
      exact same
    next => cases read
  · intro read
    rw [read]

theorem read?_eq_done {expected : String} {fits : Char → Bool} {reader : Reader α} {input left : List UInt8}
    {value : α} : read? expected fits reader input = .done value left ↔
      ∃ mark rest, Next mark input rest ∧ fits (character mark) = true ∧ reader (mark :: rest) = .done value left := by
  constructor
  · intro read
    obtain ⟨mark, rest, seen, read⟩ := Next.of_ahead (fails_failAhead _ _) read
    dsimp only at read
    split at read
    next fit => exact ⟨mark, rest, seen, fit, placed_eq_done.mp read⟩
    next => exact absurd read (fails_mismatch _ _ _ _)
  · rintro ⟨mark, rest, seen, fit, read⟩
    rw [read?, ahead_of_next seen]
    dsimp only
    rw [if_pos fit, placed_eq_done, read]

private theorem passes_read? {expected : String} {fits : Char → Bool} {reader : Reader α}
    (passes : ∀ ⦃mark rest value left⦄, fits (character mark) = true → reader (mark :: rest) = .done value left →
      skip (mark :: rest) = .done () left) : Follows skip (read? expected fits reader) := by
  intro input value left read
  obtain ⟨mark, rest, seen, fit, here⟩ := read?_eq_done.mp read
  have skipped := passes fit here
  rw [← seen] at skipped
  exact ⟨(), skip_blank skipped⟩

private theorem extends_lift (result : Except Misfit α) : Extends (lift result) (lift result) := by
  cases result with
  | ok value => exact .pure value
  | error cause => exact (fails_misfit cause).extends _

private theorem still_lift (result : Except Misfit α) : Still (lift result) := by
  cases result with
  | ok value => exact .pure value
  | error cause => exact (fails_misfit cause).still

instance : Local UInt64 where
  reads _ := extends_read? (extends_number.bind fun number => extends_lift _).inside
  passes _ := passes_read? fun mark rest value left fits read => by
    obtain ⟨number, _, read, lifted⟩ := bind_eq_done.mp read
    cases still_lift _ lifted
    exact skip_of_number (by simpa using fits) read

instance : Local Bool where
  reads _ := extends_read? (.peek fun c =>
    (extends_startingWith ((fails_failAhead _).extendsInside _) ((fails_failAhead _).extendsInside _) _).bind
      fun _ => .pure _)
  passes _ := passes_read? fun mark rest value left _ read => by
    obtain ⟨_, _, peeked, read⟩ := bind_eq_done.mp read
    cases peeked
    obtain ⟨word, _, read, done⟩ := bind_eq_done.mp read
    cases done
    exact skip_of_startingWith (fun _ => Fails.skipped (fails_failAhead _))
      (fun _ => Fails.skipped (fails_failAhead _)) read

theorem local_text (expected : String) (parse : String → Except String α) (print : α → String) :
    @Local α (text expected parse print) :=
  letI := text expected parse print
  { reads := fun _ => extends_read? (extends_skipOne.bind fun _ => extends_string.bind fun _ => extends_lift _)
    passes := fun _ => passes_read? fun mark rest value left fits read => by
      cases eq_of_character (k := 34) (of_decide_eq_true fits) rfl
      obtain ⟨_, _, skipped, read⟩ := bind_eq_done.mp read
      cases skipped
      obtain ⟨text, _, read, lifted⟩ := bind_eq_done.mp read
      cases still_lift _ lifted
      obtain ⟨_, skipped⟩ := follows_string read
      exact skipped }

instance : Local String := local_text ..

instance : Local Bytes := local_text ..

instance : Local RawJson where
  reads depth := (extends_value depth).bind fun _ => .pure _
  passes depth := (passes_value depth).still fun _ => .pure _

/-- Nothing is read from nothing. -/
theorem Local.nothing [Codec α] [Local α] (depth : Nat) (value : α) (left : List UInt8) :
    Codec.read depth [] ≠ .done value left := fun read =>
  have ⟨_, skipped⟩ := Local.passes depth read
  fails_failAhead .valueEnds [] () left skipped

theorem local_option [Codec α] (_ : Local α) : Local (Option α) where
  reads depth := by
    have some : Extends _ _ := (Local.reads (α := α) depth).bind fun value => .pure (some value)
    refine .ahead (fun value left read => ?_) fun c => ?_
    · obtain ⟨value, _, read, _⟩ := bind_eq_done.mp read
      exact Local.nothing _ _ _ read
    · split
      · exact extends_skipOne.bind fun _ => (extends_word _).bind fun _ => .pure none
      · exact some.inside
  passes depth := by
    have some : Follows _ _ := (Local.passes (α := α) depth).still fun value => .pure (some value)
    intro input value left read
    change (ahead >>= _) input = _ at read
    rw [ahead_bind, peek_bind] at read
    change Takes _ _ _ _ at read
    split at read
    next letter =>
      obtain ⟨octet, rest, seen, letter⟩ := next_of_head letter
      cases eq_of_character (k := 110) letter rfl
      rw [seen] at read
      have skipped : skip (110 :: rest) = .done () left := (word_of_startingWith read).2
      rw [← seen] at skipped
      exact ⟨(), skip_blank skipped⟩
    next =>
      obtain ⟨_, skipped⟩ := some read
      exact ⟨(), skip_blank skipped⟩

theorem local_list [Codec α] (_ : Local α) : Local (List α) where
  reads depth := extends_read? (by
    cases depth with
    | zero => exact (fails_failAhead _).extendsInside _
    | succ depth => exact extends_list (Local.reads depth))
  passes depth := passes_read? fun mark rest value left fits read => by
    cases eq_of_character (k := 91) (of_decide_eq_true fits) rfl
    cases depth with
    | zero => cases read
    | succ depth => exact skip_of_list (Local.passes depth) read

theorem local_dictionary [Codec α] (_ : Local α) : Local (Dictionary α) where
  reads depth := extends_read? (by
    cases depth with
    | zero => exact (fails_failAhead _).extendsInside _
    | succ depth =>
      exact extends_object (fun key table => extends_colon.bind fun _ => (Local.reads depth).bind fun _ => .pure _) _)
  passes depth := passes_read? fun mark rest value left fits read => by
    cases eq_of_character (k := 123) (of_decide_eq_true fits) rfl
    cases depth with
    | zero => cases read
    | succ depth =>
      exact skip_of_object (fun key table => .after fun _ => (Local.passes depth).still fun _ => .pure _) read

end Codec

private theorem LocalFields.nil : LocalFields [] := ⟨nofun⟩

private theorem LocalFields.always [codec : Codec α] [Inhabited α] (here : Codec.Local α) (rest : LocalFields fields) :
    LocalFields (.always key α :: fields) := ⟨List.forall_mem_cons.mpr ⟨here, rest.each⟩⟩

private theorem LocalFields.whenSome [codec : Codec α] (here : Codec.Local (Option α)) (rest : LocalFields fields) :
    LocalFields (.whenSome key α :: fields) := ⟨List.forall_mem_cons.mpr ⟨here, rest.each⟩⟩

theorem LocalFields.head {field : Field} {fields : List Field} (fits : LocalFields (field :: fields)) :
    @Codec.Local field.Value field.codec := fits.each field List.mem_cons_self

theorem LocalFields.tail {field : Field} {fields : List Field} (fits : LocalFields (field :: fields)) :
    LocalFields fields := ⟨fun field inside => fits.each field (List.mem_cons_of_mem _ inside)⟩

namespace Slots
variable {field : Field} {fields : List Field} {key : String}

theorem member_here (same : field.key = key) (depth : Nat) (rest : Slots fields) :
    @member depth key (field :: fields) (none, rest) =
      (do colon; return (some (← field.codec.read depth), rest)) := by
  exact if_pos same

theorem member_again (same : field.key = key) (depth : Nat) (value : field.Value) (rest : Slots fields) :
    @member depth key (field :: fields) (some value, rest) = misfit (.duplicate key) := by
  exact if_pos same

theorem member_other (other : field.key ≠ key) (depth : Nat) (slot : Option field.Value) (rest : Slots fields) :
    @member depth key (field :: fields) (slot, rest) = (do return (slot, ← member depth key rest)) := by
  exact if_neg other

private theorem extends_member : {fields : List Field} → LocalFields fields → (depth : Nat) → (key : String) →
    (slots : Slots fields) → Extends (member depth key slots) (member depth key slots)
  | [], _, _, _, _ => extends_colon.bind fun _ => extends_skip
  | field :: _, fits, depth, key, (slot, rest) => by
    by_cases same : field.key = key
    · cases slot with
      | none =>
        rw [member_here same]
        exact extends_colon.bind fun _ => (fits.head.reads depth).bind fun _ => .pure _
      | some value =>
        rw [member_again same]
        exact (fails_misfit _).extends _
    · rw [member_other same]
      exact (extends_member fits.tail depth key rest).bind fun _ => .pure _

theorem passes_member : {fields : List Field} → LocalFields fields → (depth : Nat) → (key : String) →
    (slots : Slots fields) → Follows (colon >>= fun _ => skip) (member depth key slots)
  | [], _, _, _, _ => .refl _
  | field :: _, fits, depth, key, (slot, rest) => by
    by_cases same : field.key = key
    · cases slot with
      | none =>
        rw [member_here same]
        exact .after fun _ => (fits.head.passes depth).still fun _ => .pure _
      | some value =>
        rw [member_again same]
        exact (fails_misfit _).follows _
    · rw [member_other same]
      exact (passes_member fits.tail depth key rest).still fun _ => .pure _

end Slots

namespace Row

private theorem extends_items : {fields : List Field} → LocalFields fields → (depth : Nat) → (first : Bool) →
    Extends (items depth fields first) (items depth fields first)
  | [], _, _, _ => .pure _
  | field :: _, fits, depth, first => by
    refine (extends_moreItems first).bind fun more => ?_
    cases more with
    | false => exact .pure _
    | true => exact (fits.head.reads depth).bind fun _ => (extends_items fits.tail depth false).bind fun _ => .pure _

private theorem listed_of_items : {fields : List Field} → LocalFields fields → {depth : Nat} → {first : Bool} →
    {input stop left : List UInt8} → {row : Row fields} → items depth fields first input = .done row stop →
    closeList stop = .done () left → Listed first input left
  | [], _, _, _, _, _, _, _, read, closed => by
    cases read
    exact .ends (closeList_eq_done.mp closed)
  | field :: _, fits, depth, first, _, _, _, _, read, closed => by
    obtain ⟨more, middle, goes, read⟩ := bind_eq_done.mp read
    have goes := moreItems_eq_done.mp goes
    cases more with
    | false =>
      cases read
      cases goes with
      | ends seen =>
        cases (closeList_eq_done.mp closed).again rfl
        exact .ends seen
    | true =>
      obtain ⟨value, behind, first, read⟩ := bind_eq_done.mp read
      obtain ⟨values, rest, others, done⟩ := bind_eq_done.mp read
      cases done
      obtain ⟨_, skipped⟩ := fits.head.passes depth first
      exact goes.listed skipped (listed_of_items fits.tail others closed)

private theorem extends_read (name : String) {fields : List Field} (fits : LocalFields fields) (depth : Nat) :
    Extends (read name fields depth) (read name fields depth) := by
  refine Codec.extends_read? ?_
  cases depth with
  | zero => exact (fails_failAhead _).extendsInside _
  | succ depth =>
    refine .peek fun c => ?_
    split
    · exact extends_skipOne.bind fun _ => (extends_items fits depth true).enclosed extends_closeList
    · exact (extends_object (fun key slots => Slots.extends_member fits depth key slots) _).bind fun _ => .pure _

private theorem passes_read (name : String) {fields : List Field} (fits : LocalFields fields) (depth : Nat) :
    Follows skip (read name fields depth) := by
  refine Codec.passes_read? fun mark rest row left fit read => ?_
  cases depth with
  | zero => cases read
  | succ depth =>
    obtain ⟨_, _, peeked, read⟩ := bind_eq_done.mp read
    cases peeked
    change Takes _ _ _ _ at read
    split at read
    next bracket =>
      cases eq_of_character (k := 91) (Option.some.inj bracket) rfl
      obtain ⟨_, _, skipped, read⟩ := bind_eq_done.mp read
      cases skipped
      obtain ⟨stop, body, closed⟩ := enclosed_eq_done.mp read
      exact skip_of_listed (listed_of_items fits body closed)
    next other =>
      have brace : character mark = '\x7b' := by
        simp only [Bool.or_eq_true, decide_eq_true_eq] at fit
        exact fit.resolve_left fun bracket => other (congrArg some bracket)
      cases eq_of_character (k := 123) brace rfl
      obtain ⟨slots, _, read, done⟩ := bind_eq_done.mp read
      cases done
      exact skip_of_object (fun key slots => Slots.passes_member fits depth key slots) read

end Row

theorem Codec.local_model [Inhabited α] [Model α] (fits : LocalFields (Model.fields α)) : Codec.Local α where
  reads depth := (Row.extends_read _ fits depth).bind fun _ => .pure _
  passes depth := (Row.passes_read _ fits depth).still fun _ => .pure _

namespace Catalogue

def Entry.fields (entry : Entry) : List Field :=
  letI := entry.blank
  letI := entry.model
  Model.fields entry.Record

/-- All records of the library are read so, those inside others first. -/
theorem local_of_mem : ∀ entry ∈ entries, LocalFields entry.fields := by
  simp only [entries, List.forall_mem_cons, List.not_mem_nil, false_imp_iff, implies_true, and_true]
  repeat' first
    | infer_instance
    | apply And.intro
    | exact LocalFields.nil
    | apply LocalFields.always
    | apply LocalFields.whenSome
    | apply Codec.local_option
    | apply Codec.local_list
    | apply Codec.local_model

end Catalogue
end LedgerClient
