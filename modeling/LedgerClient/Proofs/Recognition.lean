import LedgerClient.Proofs.PassedTexts
import LedgerClient.Proofs.PrintedValues

/-! What readers take is what they are meant to take. The text in front of the place where
a reader stops is a text of JSON, and by itself it is read to the same. -/

namespace LedgerClient.Json.Reader
open Grammar

/-- Where the reader stops in front of an end it has taken a text, which it reads to the same
wherever it stands. -/
def Recognises (reader : Reader α) : Prop :=
  ∀ ⦃input value left⦄, reader input = .done value left → Ends left →
    ∃ text, input = text ++ left ∧ Reads reader text value

theorem Recognises.map {reader : Reader α} (recognises : Recognises reader) (f : α → β) :
    Recognises (reader >>= fun value => pure (f value)) := by
  intro input value left read ends
  obtain ⟨found, _, here, done⟩ := bind_eq_done.mp read
  cases done
  obtain ⟨text, same, reads⟩ := recognises here ends
  exact ⟨text, same, reads.map f⟩

theorem Fails.recognises {reader : Reader α} (fails : Fails reader) : Recognises reader :=
  fun _ _ _ read => absurd read (fails _ _ _)

/-- What is recognised is the text of a value if the reader stops where passing over stops. -/
theorem Recognises.text {reader : Reader α} (recognises : Recognises reader) (passes : Follows skip reader)
    {input left : List UInt8} {value : α} (read : reader input = .done value left) (ends : Ends left) :
    ∃ text, Text text ∧ input = text ++ left ∧ Reads reader text value := by
  obtain ⟨text, rfl, reads⟩ := recognises read ends
  obtain ⟨_, skipped⟩ := passes read
  obtain ⟨other, sound, same⟩ := text_of_skip skipped
  cases List.append_cancel_right same
  exact ⟨text, sound, rfl, reads⟩

theorem recognises_skip : Recognises skip := by
  intro input _ left read _
  obtain ⟨text, sound, same⟩ := text_of_skip read
  exact ⟨text, same, reads_skip sound⟩

theorem Next.visible {mark : UInt8} {input left : List UInt8} (seen : Next mark input left) :
    isSpace mark = false := by
  have head := List.head?_dropWhile_not isSpace input
  rw [seen] at head
  simpa using head

theorem ends_nil : Ends [] := nofun

theorem ends_of_next {mark : UInt8} (marks : mark = 44 ∨ mark = 93 ∨ mark = 125) {input left : List UInt8}
    (seen : Next mark input left) : Ends input := by
  obtain ⟨blank, all, rfl⟩ := exists_blank seen
  exact ends_blank all (ends_of_mark marks left)

/-- A text that does not start like an end is not used up in front of one. -/
theorem cons_of_append {mark : UInt8} {rest text left : List UInt8} (same : mark :: rest = text ++ left)
    (ends : Ends left) (opens : ¬Closing (character mark)) : ∃ others, text = mark :: others ∧ rest = others ++ left := by
  cases text with
  | nil =>
    cases same
    exact absurd ends.closing opens
  | cons octet others =>
    cases same
    exact ⟨others, rfl, rfl⟩

private theorem opens_of_number {octet : UInt8} : character octet = '-' ∨ (character octet).isDigit = true →
    ¬Closing (character octet) :=
  Percent.forall_octet (p := fun octet => character octet = '-' ∨ (character octet).isDigit = true →
    ¬Closing (character octet)) (by decide +kernel) octet

private theorem startingWith_number {c : Char} (first : c = '-' ∨ c.isDigit = true) (list object : Reader Json) :
    startingWith list object c = number := by
  unfold startingWith
  split
  case h_7 => rw [if_pos first]
  all_goals exact absurd first (by decide)

theorem number_taken {mark : UInt8} (first : character mark = '-' ∨ (character mark).isDigit = true)
    {rest left : List UInt8} {value : Json} (read : number (mark :: rest) = .done value left) (ends : Ends left) :
    ∃ text, rest = text ++ left ∧ Reads number (mark :: text) value := by
  obtain ⟨text, _, same⟩ := text_of_skip (skip_of_number first read)
  obtain ⟨others, rfl, rfl⟩ := cons_of_append same ends (opens_of_number first)
  have whole : number ((mark :: others) ++ left) = .done value left := read
  obtain ⟨middle, none, cut⟩ := cuts_number ends whole
  cases List.self_eq_append_left.mp none
  exact ⟨others, rfl, reads_of_done extends_number cut⟩

private theorem word_reads (octets rest : List UInt8) :
    word (octets.map character) (octets ++ rest) = .done () rest := by
  induction octets with
  | nil => rfl
  | cons octet octets ih =>
    rw [List.map_cons, List.cons_append, word, next_bind]
    exact (congrFun (if_pos rfl) _).trans ih

private theorem word_taken (octets : List UInt8) {letters : List Char} (written : octets.map character = letters)
    {mark : UInt8} {json value : Json} {rest left : List UInt8}
    (read : (do skipOne; word letters; return json : Reader Json) (mark :: rest) = .done value left) :
    ∃ text, rest = text ++ left ∧ Reads (do skipOne; word letters; return json : Reader Json) (mark :: text) value := by
  obtain ⟨rfl, word⟩ := word_of_startingWith read
  refine ⟨octets, eq_of_word octets written word, fun rest _ => ⟨[], nofun, ?_⟩⟩
  subst written
  exact bind_of_done (word_reads octets rest) _

private theorem string_taken {mark : UInt8} {value : Json} {rest left : List UInt8}
    (read : (do skipOne; return .string (← string) : Reader Json) (mark :: rest) = .done value left) :
    ∃ text, rest = text ++ left ∧ Reads (do skipOne; return .string (← string) : Reader Json) (mark :: text) value := by
  obtain ⟨_, _, one, stringed⟩ := bind_eq_done.mp read
  cases one
  obtain ⟨text, _, string, done⟩ := bind_eq_done.mp stringed
  cases done
  obtain ⟨body, spelt, same⟩ := spells_of_string string
  refine ⟨body ++ [34], by rw [List.append_assoc]; exact same, fun rest _ => ⟨[], nofun, ?_⟩⟩
  rw [List.cons_append, List.append_assoc]
  have again := string_of_spells spelt rest
  rw [String.ofList_toList] at again
  exact bind_of_done again _

/-- What a value that starts so is made of. -/
theorem recognises_startingWith {list object : Reader Json} (lists : Recognises list) (objects : Recognises object)
    {mark : UInt8} {rest left : List UInt8} {value : Json}
    (read : startingWith list object (character mark) (mark :: rest) = .done value left) (ends : Ends left) :
    ∃ text, rest = text ++ left ∧ Reads (startingWith list object (character mark)) (mark :: text) value := by
  unfold startingWith at read
  change Takes _ _ _ _ at read
  split at read
  case h_1 letter =>
    cases eq_of_character (k := 110) letter rfl
    exact word_taken [117, 108, 108] rfl read
  case h_2 letter =>
    cases eq_of_character (k := 116) letter rfl
    exact word_taken [114, 117, 101] rfl read
  case h_3 letter =>
    cases eq_of_character (k := 102) letter rfl
    exact word_taken [97, 108, 115, 101] rfl read
  case h_4 quote =>
    cases eq_of_character (k := 34) quote rfl
    exact string_taken read
  case h_5 bracket =>
    cases eq_of_character (k := 91) bracket rfl
    obtain ⟨text, same, reads⟩ := lists read ends
    obtain ⟨others, rfl, rfl⟩ := cons_of_append same ends (by decide)
    exact ⟨others, rfl, reads⟩
  case h_6 brace =>
    cases eq_of_character (k := 123) brace rfl
    obtain ⟨text, same, reads⟩ := objects read ends
    obtain ⟨others, rfl, rfl⟩ := cons_of_append same ends (by decide)
    exact ⟨others, rfl, reads⟩
  case h_7 =>
    split at read
    next first =>
      rw [startingWith_number first]
      exact number_taken first read ends
    next => cases read

private theorem recognises_start {list object : Reader Json} (lists : Recognises list) (objects : Recognises object) :
    Recognises (value.start list object) := by
  intro input value left read ends
  obtain ⟨mark, rest, seen, started⟩ := Next.of_ahead (fails_failAhead _ _) read
  obtain ⟨text, rfl, reads⟩ := recognises_startingWith lists objects started ends
  have visible := seen.visible
  obtain ⟨blank, all, rfl⟩ := exists_blank seen
  refine ⟨blank ++ mark :: text, by rw [List.append_assoc, List.cons_append], fun rest ends => ?_⟩
  obtain ⟨behind, all', again⟩ := reads rest ends
  refine ⟨behind, all', ?_⟩
  rw [List.append_assoc]
  exact (ahead_of_next (Next.behind all visible _) _).trans again

theorem ends_again {text left : List UInt8} {mark : UInt8} (visible : isSpace mark = false)
    (ends : Ends (text ++ mark :: left)) (rest : List UInt8) : Ends (text ++ mark :: rest) := by
  have alone (behind : List UInt8) : (mark :: behind).dropWhile isSpace = mark :: behind :=
    List.dropWhile_cons_of_neg (by simp [visible])
  intro octet first
  refine ends octet ?_
  rw [List.dropWhile_append, alone] at first ⊢
  split at first
  next blank =>
    rw [if_pos blank]
    exact first
  next shown =>
    rw [if_neg shown]
    obtain ⟨octet', others, seen⟩ := List.exists_cons_of_ne_nil (mt List.isEmpty_iff.mpr shown)
    rw [seen] at first ⊢
    exact first

private theorem ends_of_items {item : Reader α} {bound : Nat} {input left : List UInt8} {values : List α}
    (read : items item false bound input = .done values left) : Ends input := by
  cases bound with
  | zero => cases read
  | succ bound =>
    obtain ⟨more, _, goes, _⟩ := bind_eq_done.mp read
    cases moreItems_eq_done.mp goes with
    | ends seen => exact ends_of_next (by simp) seen
    | continues comma => exact ends_of_next (by simp) comma

/-- What stands in front of an item stands there again in front of anything that starts alike. -/
theorem MoreItems.front {first : Bool} {input behind : List UInt8} {octet : UInt8}
    (more : MoreItems first input true (octet :: behind)) : ∃ front, input = front ++ octet :: behind ∧
      ∀ blank rest, Blank blank → MoreItems first (blank ++ (front ++ octet :: rest)) true (octet :: rest) := by
  cases more with
  | starts seen item =>
    have visible := seen.visible
    obtain ⟨front, all, rfl⟩ := exists_blank seen
    refine ⟨front, rfl, fun blank rest before => .starts ?_ item⟩
    rw [← List.append_assoc]
    exact Next.behind (before.append all) visible rest
  | continues comma seen item =>
    have visible := seen.visible
    obtain ⟨between, all', rfl⟩ := exists_blank seen
    obtain ⟨front, all, rfl⟩ := exists_blank comma
    refine ⟨front ++ 44 :: between, by simp, fun blank rest before =>
      .continues ?_ (Next.behind all' visible rest) item⟩
    have again : Next 44 _ _ := Next.behind (before.append all) rfl (between ++ octet :: rest)
    simpa only [List.append_assoc, List.cons_append] using again

section
variable {item : Reader α} (recognises : Recognises item) (some : ∀ value left, item [] ≠ .done value left)
include recognises some

/-- The items up to the closing bracket are read again, whatever stands behind that. -/
theorem items_again {first : Bool} {bound : Nat} {input stop : List UInt8} {values : List α}
    (read : items item first bound input = .done values stop) : ∃ text left, input = text ++ 93 :: left ∧
      stop = 93 :: left ∧ values.length ≤ text.length ∧ ∀ blank rest bound, Blank blank → values.length < bound →
        items item first bound (blank ++ (text ++ 93 :: rest)) = .done values (93 :: rest) := by
  induction bound generalizing first input values with
  | zero => cases read
  | succ bound ih =>
    obtain ⟨more, middle, goes, went⟩ := bind_eq_done.mp read
    have goes := moreItems_eq_done.mp goes
    cases more with
    | false =>
      cases went
      cases goes with
      | ends seen =>
        obtain ⟨text, all, rfl⟩ := exists_blank seen
        refine ⟨text, _, rfl, rfl, Nat.zero_le _, fun blank rest bound before enough => ?_⟩
        obtain ⟨bound, rfl⟩ := Nat.exists_eq_add_of_le' (Nat.one_le_of_lt enough)
        rw [← List.append_assoc, items,
          bind_of_done (moreItems_eq_done.mpr (.ends (Next.behind (before.append all) rfl rest)))]
        rfl
    | true =>
      obtain ⟨value, behind, here, others⟩ := bind_eq_done.mp went
      obtain ⟨values, _, others, done⟩ := bind_eq_done.mp others
      cases done
      have ends := ends_of_items others
      obtain ⟨taken, rfl, reads⟩ := recognises here ends
      obtain ⟨text, left, rfl, same, shorter, again⟩ := ih others
      cases taken with
      | nil =>
        obtain ⟨_, _, nothing⟩ := reads [] ends_nil
        exact absurd nothing (some _ _)
      | cons octet taken =>
        obtain ⟨front, rfl, more⟩ := goes.front
        refine ⟨front ++ octet :: (taken ++ text), left, by simp, same, ?_, fun blank rest bound before enough => ?_⟩
        · simp only [List.length_append, List.length_cons]
          omega
        · obtain ⟨bound, rfl⟩ := Nat.exists_eq_add_of_le' (Nat.one_le_of_lt enough)
          obtain ⟨blank', all, read⟩ := reads (text ++ 93 :: rest) (ends_again rfl ends rest)
          rw [items]
          simp only [List.append_assoc, List.cons_append] at read ⊢
          rw [bind_of_done (moreItems_eq_done.mpr (more blank _ before))]
          change (item >>= _) _ = _
          rw [bind_of_done read, bind_of_done (again blank' rest bound all (Nat.lt_of_succ_lt_succ enough))]
          rfl

theorem recognises_list : Recognises (list item) := by
  intro input values left read ends
  cases input with
  | nil => cases read
  | cons octet input =>
    obtain ⟨stop, read, closed⟩ := enclosed_eq_done.mp read
    obtain ⟨text, behind, rfl, rfl, shorter, again⟩ := items_again recognises some read
    cases (closeList_eq_done.mp closed).again rfl
    refine ⟨octet :: (text ++ [93]), by simp, fun rest ends => ⟨[], nofun, ?_⟩⟩
    rw [List.cons_append, List.append_assoc]
    refine enclosed_eq_done.mpr ⟨93 :: rest, ?_, closeList_eq_done.mpr (Next.here rfl rest)⟩
    refine again [] rest _ nofun (Nat.lt_of_le_of_lt shorter ?_)
    change text.length < (text ++ 93 :: rest).length
    simp only [List.length_append, List.length_cons]
    omega

end

/-- Behind a key the reader takes the colon and the text of a value. -/
def RecognisesMember (reader : Reader α) : Prop :=
  ∀ ⦃input value left⦄, reader input = .done value left → Ends left →
    ∃ between text, Blank between ∧ Text text ∧ input = between ++ 58 :: (text ++ left) ∧
      ∀ between, Blank between → Reads reader (between ++ 58 :: text) value

theorem RecognisesMember.map {reader : Reader α} (recognises : RecognisesMember reader) (f : α → β) :
    RecognisesMember (reader >>= fun value => pure (f value)) := by
  intro input value left read ends
  obtain ⟨found, _, here, done⟩ := bind_eq_done.mp read
  cases done
  obtain ⟨between, text, all, sound, same, reads⟩ := recognises here ends
  exact ⟨between, text, all, sound, same, fun between all => (reads between all).map f⟩

theorem Fails.recognisesMember {reader : Reader α} (fails : Fails reader) : RecognisesMember reader :=
  fun _ _ _ read => absurd read (fails _ _ _)

theorem Recognises.member {reader : Reader α} (recognises : Recognises reader) (passes : Follows skip reader) :
    RecognisesMember (colon >>= fun _ => reader) := by
  intro input value left read ends
  obtain ⟨_, behind, colon, here⟩ := bind_eq_done.mp read
  obtain ⟨between, all, rfl⟩ := exists_blank (colon_eq_done.mp colon)
  obtain ⟨text, sound, rfl, reads⟩ := recognises.text passes here ends
  exact ⟨between, text, all, sound, rfl, fun _ blank => reads.colon blank⟩

section
variable (step : String → σ → Reader σ)

/-- The steps lead from a state over the members to the final one, wherever the members stand. -/
def StepsTo (final : σ) : List (String × List UInt8) → σ → Prop
  | [], state => state = final
  | (key, text) :: members, state => ∃ next,
    (∀ between, Blank between → Reads (step key state) (between ++ 58 :: text) next) ∧ StepsTo final members next

/-- What stands in front of the closing brace, for members that are the first or come behind others. -/
inductive Written : Bool → List (Member × String) → List UInt8 → Prop
  | none {first : Bool} {blank : List UInt8} (all : Blank blank) : Written first [] blank
  | first {parts : List (Member × String)} (some : parts ≠ []) :
      Written true parts (commas (parts.map fun part => part.1.text))
  | behind {parts : List (Member × String)} {blank : List UInt8} (all : Blank blank) (some : parts ≠ []) :
      Written false parts (blank ++ 44 :: commas (parts.map fun part => part.1.text))

end

/-- The blanks between a value and what comes behind its member count as part of the value. -/
theorem Written.after {parts : List (Member × String)} {inside : List UInt8} (written : Written false parts inside) :
    ∃ blank, Blank blank ∧ ∀ before key between value, Member.text ⟨before, key, between, value⟩ ++ inside =
      commas (Member.text ⟨before, key, between, value ++ blank⟩ :: parts.map fun part => part.1.text) := by
  cases written with
  | none all =>
    refine ⟨inside, all, fun before key between value => ?_⟩
    simp only [Member.text, List.map_nil, commas, List.append_assoc, List.cons_append]
  | @behind _ blank all some =>
    refine ⟨blank, all, fun before key between value => ?_⟩
    rw [commas]
    · simp only [Member.text, List.append_assoc, List.cons_append]
    · exact mt List.map_eq_nil_iff.mp some

private theorem Written.inside {parts : List (Member × String)} {inside : List UInt8}
    (written : Written true parts inside)
    (denoted : ∀ part ∈ parts, part.1.Denotes part.2) :
    Inside (parts.map fun part => (part.2, part.1.value)) inside := by
  cases written with
  | none all => exact .blank all
  | first some => exact .members some denoted

theorem Reads.behind {reader : Reader α} {text blank : List UInt8} {value : α} (reads : Reads reader text value)
    (all : Blank blank) : Reads reader (text ++ blank) value := by
  intro rest ends
  obtain ⟨others, all', read⟩ := reads (blank ++ rest) (ends_blank all ends)
  exact ⟨others ++ blank, all'.append all, by rw [List.append_assoc, read, List.append_assoc]⟩

/-- What stands in front of a key: the blanks of its member, and a comma unless that is the first. -/
theorem MoreMembers.front {first : Bool} {input rest : List UInt8} (more : MoreMembers first input true rest) :
    ∃ front before, Blank before ∧ input = front ++ (before ++ 34 :: rest) ∧ ∀ part parts,
      Written first (part :: parts) (front ++ commas ((part :: parts).map fun part => part.1.text)) := by
  cases more with
  | starts seen =>
    obtain ⟨before, all, rfl⟩ := exists_blank seen
    exact ⟨[], before, all, rfl, fun part parts => .first (List.cons_ne_nil part parts)⟩
  | continues comma seen =>
    obtain ⟨before, all, rfl⟩ := exists_blank seen
    obtain ⟨blank, all', rfl⟩ := exists_blank comma
    refine ⟨blank ++ [44], before, all, by simp, fun part parts => ?_⟩
    rw [List.append_assoc]
    exact .behind all' (List.cons_ne_nil part parts)

private theorem StepsTo.cons {step : String → σ → Reader σ} {members : List (String × List UInt8)}
    {state next final : σ}
    {key : String} {text blank : List UInt8}
    (reads : ∀ between, Blank between → Reads (step key state) (between ++ 58 :: text) next) (all : Blank blank)
    (steps : StepsTo step final members next) : StepsTo step final ((key, text ++ blank) :: members) state := by
  refine ⟨next, fun between all' => ?_, steps⟩
  have again := (reads between all').behind all
  rwa [List.append_assoc, List.cons_append] at again

private theorem ends_of_members {step : String → σ → Reader σ} {bound : Nat} {input left : List UInt8} {state final : σ}
    (read : members string step false state bound input = .done final left) : Ends input := by
  cases bound with
  | zero => cases read
  | succ bound =>
    obtain ⟨more, _, goes, _⟩ := bind_eq_done.mp read
    cases moreMembers_eq_done.mp goes with
    | ends seen => exact ends_of_next (by simp) seen
    | continues comma => exact ends_of_next (by simp) comma

section
variable {step : String → σ → Reader σ} (recognises : ∀ key state, RecognisesMember (step key state))
include recognises

/-- A loop over members that comes to an end has taken members, up to the closing brace. -/
theorem members_taken {first : Bool} {bound : Nat} {input stop : List UInt8} {state final : σ}
    (read : members string step first state bound input = .done final stop) :
    ∃ (parts : List (Member × String)) (inside left : List UInt8), (∀ part ∈ parts, part.1.Denotes part.2) ∧
      Written first parts inside ∧ StepsTo step final (parts.map fun part => (part.2, part.1.value)) state ∧
      input = inside ++ 125 :: left ∧ stop = 125 :: left := by
  induction bound generalizing first input state with
  | zero => cases read
  | succ bound ih =>
    obtain ⟨more, middle, goes, went⟩ := bind_eq_done.mp read
    have goes := moreMembers_eq_done.mp goes
    cases more with
    | false =>
      cases went
      cases goes with
      | ends seen =>
        obtain ⟨blank, all, rfl⟩ := exists_blank seen
        exact ⟨[], blank, _, nofun, .none all, rfl, rfl, rfl⟩
    | true =>
      obtain ⟨key, colon, quoted, stepped⟩ := bind_eq_done.mp went
      obtain ⟨next, behind, here, others⟩ := bind_eq_done.mp stepped
      obtain ⟨body, spelt, rfl⟩ := spells_of_string quoted
      obtain ⟨between, text, inner, sound, rfl, reads⟩ := recognises _ _ here (ends_of_members others)
      obtain ⟨parts, inside, left, denoted, written, steps, rfl, same⟩ := ih others
      obtain ⟨blank, all, after⟩ := written.after
      obtain ⟨front, before, all', rfl, wrote⟩ := goes.front
      let member : Member := ⟨before, body, between, text ++ blank⟩
      have denotes : member.Denotes key := ⟨all', spelt, inner, sound.behind all⟩
      refine ⟨(member, key) :: parts, _, left, List.forall_mem_cons.mpr ⟨denotes, denoted⟩, wrote _ _,
        .cons reads all steps, ?_, same⟩
      rw [List.append_assoc, List.map_cons, ← after]
      simp only [Member.text, List.append_assoc, List.cons_append]

/-- An object that is read has members between its braces, over which the steps lead. -/
theorem object_taken {octet : UInt8} {input left : List UInt8} {state final : σ}
    (read : object step state (octet :: input) = .done final left) : ∃ members inside,
      Inside members inside ∧ StepsTo step final members state ∧ input = inside ++ 125 :: left := by
  obtain ⟨stop, taken, closed⟩ := enclosed_eq_done.mp read
  obtain ⟨parts, inside, behind, denoted, written, steps, same, rfl⟩ := members_taken recognises taken
  cases (closeObject_eq_done.mp closed).again rfl
  exact ⟨_, inside, written.inside denoted, steps, same⟩

theorem recognises_object (state : σ) : Recognises (object step state) := by
  intro input final left read ends
  cases input with
  | nil => cases read
  | cons octet input =>
    obtain ⟨members, inside, sound, steps, rfl⟩ := object_taken recognises read
    refine ⟨octet :: (inside ++ [125]), by simp, fun rest ends => ⟨[], nofun, ?_⟩⟩
    obtain ⟨final', rfl, again⟩ := object_of_steps (StepsTo step final)
      (fun key text members state _ ⟨next, reads, steps⟩ => ⟨next, steps, reads⟩) sound steps rest
    rw [List.cons_append, List.append_assoc]
    exact again

end

theorem recognises_value (depth : Nat) : Recognises (value depth) := by
  induction depth with
  | zero => exact recognises_start (fails_failAhead _).recognises (fails_failAhead _).recognises
  | succ depth ih =>
    have nothing (found : Json) (left : List UInt8) : value depth [] ≠ .done found left := by
      obtain ⟨list, object, start⟩ := value_eq_start depth
      rw [start]
      exact fails_failAhead _ _ _ _
    refine recognises_start ((recognises_list ih nothing).map _) (Recognises.map (recognises_object ?_ []) _)
    exact fun key members => (ih.map _).member ((passes_value depth).still fun _ => .pure _)

theorem ahead_blank (next : Option Char → Reader α) (input : List UInt8) :
    (ahead >>= next) (input.dropWhile isSpace) = (ahead >>= next) input := by
  rw [ahead_bind, ahead_bind, dropWhile_again]

theorem value_blank {depth : Nat} (input : List UInt8) :
    value depth (input.dropWhile isSpace) = value depth input := by
  obtain ⟨list, object, start⟩ := value_eq_start depth
  rw [start]
  exact ahead_blank _ _

theorem Reads.before {depth : Nat} {text : List UInt8} {json : Json} (reads : Reads (value depth) text json)
    {blank : List UInt8} (all : Blank blank) : Reads (value depth) (blank ++ text) json := by
  intro rest ends
  obtain ⟨behind, all', read⟩ := reads rest ends
  refine ⟨behind, all', ?_⟩
  rw [List.append_assoc, ← value_blank, dropWhile_blank all, value_blank, read]

end LedgerClient.Json.Reader
