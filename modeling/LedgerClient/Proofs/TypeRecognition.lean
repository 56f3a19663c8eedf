import LedgerClient.Proofs.RecordRecognition

/-! Every type that stands in JSON is read from a text of its own: what its reader takes in
front of an end it takes again, to the same value, wherever that text stands. -/

namespace LedgerClient
open Json Json.Reader Json.Grammar

/-- A type whose values are read from texts of their own. -/
class Codec.Recognising (α : Type) [codec : Codec α] : Prop extends Codec.Local α where
  recognises (depth : Nat) : Recognises (codec.read depth)
  blank (depth : Nat) (input : List UInt8) : codec.read depth (input.dropWhile isSpace) = codec.read depth input

theorem Codec.Recognising.proper {codec : Codec α} (here : Codec.Recognising α) (depth : Nat) :
    (codec.read depth).Proper :=
  ⟨here.passes depth, here.recognises depth, here.blank depth⟩

/-- The same for the types of all fields. -/
structure RecognisingFields (fields : List Field) : Prop where
  each : ∀ field ∈ fields, @Codec.Recognising field.Value field.codec

namespace Codec

/-- What starts with a character of the type is recognised as far as it does not start like an end. -/
theorem recognises_read? {expected : String} {fits : Char → Bool} {reader : Reader α}
    (takes : ∀ ⦃mark rest value left⦄, fits (character mark) = true → reader (mark :: rest) = .done value left →
      Ends left → ∃ text, rest = text ++ left ∧ Reads reader (mark :: text) value) :
    Recognises (read? expected fits reader) := by
  intro input value left read ends
  obtain ⟨mark, rest, seen, fit, here⟩ := read?_eq_done.mp read
  obtain ⟨text, rfl, reads⟩ := takes fit here ends
  have visible := seen.visible
  obtain ⟨before, front, rfl⟩ := exists_blank seen
  refine ⟨before ++ mark :: text, by simp, fun rest ends => ?_⟩
  obtain ⟨behind, back, again⟩ := reads rest ends
  refine ⟨behind, back, read?_eq_done.mpr ⟨mark, text ++ rest, ?_, fit, again⟩⟩
  rw [List.append_assoc]
  exact Next.behind front visible _

theorem read?_blank {expected : String} {fits : Char → Bool} {reader : Reader α} (input : List UInt8) :
    read? expected fits reader (input.dropWhile isSpace) = read? expected fits reader input :=
  ahead_blank _ _

/-- The same for a reader that is known to recognise. -/
theorem takes_of_recognises {reader : Reader α} (recognises : Recognises reader) {mark : UInt8}
    (opens : ¬Closing (character mark)) {rest left : List UInt8} {value : α}
    (read : reader (mark :: rest) = .done value left) (ends : Ends left) :
    ∃ text, rest = text ++ left ∧ Reads reader (mark :: text) value := by
  obtain ⟨text, same, reads⟩ := recognises read ends
  obtain ⟨others, rfl, rfl⟩ := cons_of_append same ends opens
  exact ⟨others, rfl, reads⟩

private theorem bind_blank {reader : Reader α} {next : α → Reader β}
    (blank : ∀ input, reader (input.dropWhile isSpace) = reader input) (input : List UInt8) :
    (reader >>= next) (input.dropWhile isSpace) = (reader >>= next) input := by
  simp only [bind, blank]

instance : Recognising UInt64 where
  blank _ := read?_blank
  recognises _ := recognises_read? fun mark rest value left fit read ends => by
    obtain ⟨found, _, number, lifted⟩ := bind_eq_done.mp read
    obtain ⟨exact, rfl⟩ := lift_eq_done.mp lifted
    obtain ⟨text, rfl, reads⟩ := number_taken (by simpa using fit) number ends
    refine ⟨text, rfl, fun rest ends => ?_⟩
    obtain ⟨behind, back, again⟩ := reads rest ends
    exact ⟨behind, back, (bind_of_done again _).trans (lift_eq_done.mpr ⟨exact, rfl⟩)⟩

instance : Recognising Bool where
  blank _ := read?_blank
  recognises _ := recognises_read? fun mark rest value left _ read ends => by
    have fails : Recognises (failAhead .noValue : Reader Json) := (fails_failAhead _).recognises
    obtain ⟨_, _, peeked, worded⟩ := bind_eq_done.mp read
    cases peeked
    obtain ⟨word, _, started, done⟩ := bind_eq_done.mp worded
    cases done
    obtain ⟨text, same, reads⟩ := recognises_startingWith fails fails started ends
    exact ⟨text, same, reads.map fun word => decide (word = .bool true)⟩

theorem recognising_text (expected : String) (parse : String → Except String α) (print : α → String) :
    @Recognising α (text expected parse print) :=
  letI := text expected parse print
  { local_text expected parse print with
    recognises := fun _ => recognises_text
    blank := fun _ => read?_blank }

instance : Recognising String := recognising_text ..

instance : Recognising Bytes := recognising_text ..

instance : Recognising RawJson where
  recognises depth := (recognises_value depth).map _
  blank _ := bind_blank value_blank

theorem recognising_option [Codec α] (here : Recognising α) : Recognising (Option α) where
  toLocal := local_option here.toLocal
  blank _ := ahead_blank _
  recognises depth := by
    intro input value left read ends
    change (ahead >>= _) input = _ at read
    rw [ahead_bind, peek_bind] at read
    change Takes _ _ _ _ at read
    split at read
    next letter =>
      obtain ⟨octet, rest, seen, same⟩ := next_of_head letter
      cases eq_of_character (k := 110) same rfl
      rw [seen] at read
      obtain ⟨rfl, word⟩ : value = none ∧ word ['u', 'l', 'l'] rest = .done () left := word_of_startingWith read
      obtain ⟨before, front, rfl⟩ := exists_blank seen
      cases eq_of_word [117, 108, 108] rfl word
      refine ⟨before ++ [110, 117, 108, 108], by simp, fun rest _ => ⟨[], nofun, ?_⟩⟩
      rw [List.append_assoc]
      exact ahead_of_next (Next.behind front rfl _) _
    next other =>
      obtain ⟨found, _, inner, done⟩ := bind_eq_done.mp read
      cases done
      obtain ⟨text, same, reads⟩ := here.recognises depth inner ends
      cases text with
      | nil =>
        obtain ⟨_, _, nothing⟩ := reads [] ends_nil
        exact absurd nothing (Local.nothing _ _ _)
      | cons octet text =>
        have seen : Next octet input (text ++ left) := same
        have visible := seen.visible
        rw [same] at other
        obtain ⟨before, front, rfl⟩ := exists_blank seen
        refine ⟨before ++ octet :: text, by simp, fun rest ends => ?_⟩
        obtain ⟨behind, back, again⟩ := reads rest ends
        refine ⟨behind, back, ?_⟩
        rw [List.append_assoc]
        refine (ahead_of_next (Next.behind front visible _) _).trans ?_
        change Takes _ _ _ _
        split
        next null => exact absurd null other
        next => exact bind_of_done again _

/-- What does not start like null is read as it would be if it could not be missing. -/
theorem run_some_iff [Codec α] (here : Recognising α) {depth : Nat} {text rest : List UInt8} {octet : UInt8}
    (seen : Next octet text rest) (other : octet ≠ 110) {value : Option α} :
    (Codec.read depth : Reader (Option α)).run text = .ok value ↔
      ∃ found, (Codec.read depth : Reader α).run text = .ok found ∧ some found = value := by
  have same : (Codec.read depth : Reader (Option α)) text =
      (Codec.read depth >>= fun found => pure (some found)) text := by
    rw [← bind_blank (here.blank depth) text, seen]
    refine (ahead_of_next seen _).trans (congrFun ?_ _)
    split
    next letter => exact absurd (eq_of_character (Option.some.inj letter) rfl) other
    next => rfl
  rw [← run_map_iff, run_eq_ok_iff, run_eq_ok_iff, same]

theorem run_null [Codec α] {depth : Nat} {text rest blank : List UInt8} (seen : Next 110 text rest)
    (read : word ['u', 'l', 'l'] rest = .done () blank) (back : Blank blank) :
    (Codec.read depth : Reader (Option α)).run text = .ok none := by
  refine run_eq_ok_iff.mpr ⟨blank, back, ?_⟩
  refine (ahead_of_next seen _).trans ?_
  change (word ['u', 'l', 'l'] >>= fun _ => pure none) rest = _
  rw [bind_of_done read]
  rfl

theorem recognising_list [Codec α] (here : Recognising α) : Recognising (List α) where
  toLocal := local_list here.toLocal
  blank _ := read?_blank
  recognises depth := recognises_read? fun mark rest value left fit read ends => by
    cases eq_of_character (k := 91) (of_decide_eq_true fit) rfl
    cases depth with
    | zero => cases read
    | succ depth =>
      exact takes_of_recognises (recognises_list (here.recognises depth) (Local.nothing depth)) (by decide) read ends

section
variable [Codec α] (here : Recognising α) {depth : Nat} {texts : List (List UInt8)} {text : List UInt8}
include here

/-- A list is read just if every item is, each by itself. -/
theorem run_list_iff (sequence : Sequence texts text) {values : List α} :
    (Codec.read (depth + 1) : Reader (List α)).run text = .ok values ↔
      texts.Forall₂ (fun item value => (Codec.read depth).run item = .ok value) values := by
  cases sequence with
  | @brackets before inside after front sound back =>
    have seen : Next 91 (before ++ 91 :: (inside ++ 93 :: after)) _ := Next.behind front rfl _
    have read_iff {left : List UInt8} :
        (Codec.read (depth + 1) : Reader (List α)) (before ++ 91 :: (inside ++ 93 :: after)) = .done values left ↔
          list (Codec.read depth) (91 :: (inside ++ 93 :: after)) = .done values left := by
      refine read?_eq_done.trans ⟨?_, fun read => ⟨91, _, seen, rfl, read⟩⟩
      rintro ⟨mark, rest, seen', _, read⟩
      cases seen.symm.trans seen'
      exact read
    simp only [run_eq_ok_iff, read_iff, list_eq_done (here.proper depth) sound]
    exact ⟨fun ⟨_, _, _, alone⟩ => alone, fun alone => ⟨after, back, rfl, alone⟩⟩

/-- Whether a list is read depends on each item by itself. -/
theorem list_succeeds_middle {before after : List (List UInt8)} {item : List UInt8}
    (sequence : Sequence (before ++ item :: after) text) :
    (∃ values, (Codec.read (depth + 1) : Reader (List α)).run text = .ok values) ↔
      (∃ value : α, (Codec.read depth).run item = .ok value) ∧
        ∀ other ∈ before ++ after, ∃ value : α, (Codec.read depth).run other = .ok value := by
  simp only [run_list_iff here sequence, exists_forall₂_iff, List.forall_mem_append, List.forall_mem_cons]
  rw [and_left_comm]

end

end Codec

namespace RecognisingFields
variable {key : String} {fields : List Field}

private theorem nil : RecognisingFields [] := ⟨nofun⟩

private theorem always [Codec α] [Inhabited α] (here : Codec.Recognising α) (rest : RecognisingFields fields) :
    RecognisingFields (.always key α :: fields) := ⟨List.forall_mem_cons.mpr ⟨here, rest.each⟩⟩

private theorem whenSome [Codec α] (here : Codec.Recognising (Option α)) (rest : RecognisingFields fields) :
    RecognisingFields (.whenSome key α :: fields) := ⟨List.forall_mem_cons.mpr ⟨here, rest.each⟩⟩

theorem head {field : Field} (fits : RecognisingFields (field :: fields)) :
    @Codec.Recognising field.Value field.codec := fits.each field List.mem_cons_self

theorem tail {field : Field} (fits : RecognisingFields (field :: fields)) : RecognisingFields fields :=
  ⟨fun field inside => fits.each field (List.mem_cons_of_mem _ inside)⟩

theorem toLocal (fits : RecognisingFields fields) : LocalFields fields :=
  ⟨fun field taken => (fits.each field taken).toLocal⟩

private theorem recognises (fits : RecognisingFields fields) (depth : Nat) :
    ∀ field ∈ fields, Recognises (field.codec.read depth) :=
  fun field taken => (fits.each field taken).recognises depth

end RecognisingFields

namespace Row

private theorem ends_of_items {fields : List Field} {depth : Nat} {input stop left : List UInt8} {row : Row fields}
    (read : items depth fields false input = .done row stop) (closed : closeList stop = .done () left) :
    Ends input := by
  cases fields with
  | nil =>
    cases read
    exact ends_of_next (by simp) (closeList_eq_done.mp closed)
  | cons field fields =>
    obtain ⟨more, _, goes, _⟩ := bind_eq_done.mp read
    cases moreItems_eq_done.mp goes with
    | ends seen => exact ends_of_next (by simp) seen
    | continues comma => exact ends_of_next (by simp) comma

/-- The fields up to the closing bracket are read again, whatever stands behind that. -/
theorem items_again : {fields : List Field} → RecognisingFields fields → {depth : Nat} → {first : Bool} →
    {input stop left : List UInt8} → {row : Row fields} → items depth fields first input = .done row stop →
    closeList stop = .done () left → ∃ text, input = text ++ 93 :: left ∧
      ∀ blank rest, Blank blank → ∃ stop, items depth fields first (blank ++ (text ++ 93 :: rest)) = .done row stop ∧
        closeList stop = .done () rest
  | [], _, _, _, _, _, _, _, read, closed => by
    cases read
    obtain ⟨text, all, rfl⟩ := exists_blank (closeList_eq_done.mp closed)
    refine ⟨text, rfl, fun blank rest before => ⟨_, rfl, closeList_eq_done.mpr ?_⟩⟩
    rw [← List.append_assoc]
    exact Next.behind (before.append all) rfl rest
  | field :: fields, fits, depth, first, input, stop, left, row, read, closed => by
    obtain ⟨more, middle, goes, went⟩ := bind_eq_done.mp read
    have goes := moreItems_eq_done.mp goes
    cases more with
    | false =>
      cases went
      cases goes with
      | ends seen =>
        cases (closeList_eq_done.mp closed).again rfl
        obtain ⟨text, all, rfl⟩ := exists_blank seen
        refine ⟨text, rfl, fun blank rest before => ⟨93 :: rest, ?_, closeList_eq_done.mpr (Next.here rfl rest)⟩⟩
        rw [← List.append_assoc, items,
          bind_of_done (moreItems_eq_done.mpr (.ends (Next.behind (before.append all) rfl rest)))]
        rfl
    | true =>
      obtain ⟨value, behind, here, others⟩ := bind_eq_done.mp went
      obtain ⟨values, _, others, done⟩ := bind_eq_done.mp others
      cases done
      have ends := ends_of_items others closed
      obtain ⟨taken, rfl, reads⟩ := fits.head.recognises depth here ends
      obtain ⟨text, rfl, again⟩ := items_again fits.tail others closed
      cases taken with
      | nil =>
        obtain ⟨_, _, nothing⟩ := reads [] ends_nil
        exact absurd nothing (@Codec.Local.nothing _ field.codec fits.head.toLocal _ _ _)
      | cons octet taken =>
        obtain ⟨front, rfl, more⟩ := goes.front
        refine ⟨front ++ octet :: (taken ++ text), by simp, fun blank rest before => ?_⟩
        obtain ⟨blank', all, read⟩ := reads (text ++ 93 :: rest) (ends_again rfl ends rest)
        obtain ⟨stop, others, closes⟩ := again blank' rest all
        refine ⟨stop, ?_, closes⟩
        rw [items]
        simp only [List.append_assoc, List.cons_append] at read ⊢
        rw [bind_of_done (moreItems_eq_done.mpr (more blank _ before))]
        change (field.codec.read depth >>= _) _ = _
        rw [bind_of_done read, bind_of_done others]
        rfl

private theorem recognises_read (name : String) {fields : List Field} (fits : RecognisingFields fields) (depth : Nat) :
    Recognises (read name fields depth) := by
  refine Codec.recognises_read? fun mark rest row left fit read ends => ?_
  cases depth with
  | zero => cases read
  | succ depth =>
    simp only [Bool.or_eq_true, decide_eq_true_eq] at fit
    rcases fit with bracket | brace
    · cases eq_of_character (k := 91) bracket rfl
      obtain ⟨stop, body, closed⟩ := enclosed_eq_done.mp
        (show enclosed (items depth fields true) closeList rest = .done row left from read)
      obtain ⟨text, rfl, again⟩ := items_again fits body closed
      refine ⟨text ++ [93], by simp, fun rest _ => ⟨[], nofun, ?_⟩⟩
      obtain ⟨stop, body, closed⟩ := again [] rest nofun
      rw [List.cons_append, List.append_assoc]
      exact enclosed_eq_done.mpr ⟨stop, body, closed⟩
    · cases eq_of_character (k := 123) brace rfl
      have recognises := Slots.recognises_member fits.toLocal (fits.recognises depth)
      exact Codec.takes_of_recognises ((recognises_object recognises (Slots.empty fields)).map Slots.fill)
        (by decide) read ends

end Row

theorem Codec.recognising_model [Inhabited α] [Model α] (fits : RecognisingFields (Model.fields α)) :
    Codec.Recognising α where
  toLocal := local_model fits.toLocal
  recognises depth := (Row.recognises_read _ fits depth).map _
  blank _ := bind_blank read?_blank

/-- All records of the library are read so, those inside others first. -/
theorem Catalogue.recognising_of_mem : ∀ entry ∈ entries, RecognisingFields entry.fields := by
  simp only [entries, List.forall_mem_cons, List.not_mem_nil, false_imp_iff, implies_true, and_true]
  repeat' first
    | infer_instance
    | apply And.intro
    | exact RecognisingFields.nil
    | apply RecognisingFields.always
    | apply RecognisingFields.whenSome
    | apply Codec.recognising_option
    | apply Codec.recognising_list
    | apply Codec.recognising_model

end LedgerClient
