import LedgerClient.Proofs.RecordRecognition

/-! The forms of texts that are read as values. A text is read as a list or an object if the
texts of its items or members are read, each as it would be if it stood alone. -/

namespace LedgerClient.Json.Reader
open Grammar Codec

/-- Members that have values where others have the texts of these. -/
def ReadMembers (depth : Nat) (members : List (String × List UInt8)) (entries : List (String × Json)) : Prop :=
  members.Forall₂ (fun member entry => member.1 = entry.1 ∧ (value depth).run member.2 = .ok entry.2) entries

/-- The ways in which a text is read as a value. -/
inductive Form (text : List UInt8) : (depth : Nat) → Json → Prop
  | null {depth : Nat} {rest blank : List UInt8} (seen : Next 110 text rest)
      (read : word ['u', 'l', 'l'] rest = .done () blank) (back : Blank blank) : Form text depth .null
  | bool {depth : Nat} {mark : UInt8} {rest blank : List UInt8} {truth : Bool} (seen : Next mark text rest)
      (letter : character mark = 't' ∨ character mark = 'f')
      (read : startingWith (failAhead .noValue) (failAhead .noValue) (character mark) (mark :: rest) =
        .done (.bool truth) blank)
      (back : Blank blank) : Form text depth (.bool truth)
  | number {depth : Nat} {mark : UInt8} {rest blank : List UInt8} {json : Json} (seen : Next mark text rest)
      (first : character mark = '-' ∨ (character mark).isDigit = true) (number : json.IsNumber)
      (read : Reader.number (mark :: rest) = .done json blank) (back : Blank blank) : Form text depth json
  | string {depth : Nat} {content : String} (quoted : Quoted content text) : Form text depth (.string content)
  | array {depth : Nat} {texts : List (List UInt8)} {items : List Json} (sequence : Sequence texts text)
      (read : texts.Forall₂ (fun text item => (value depth).run text = .ok item) items) :
      Form text (depth + 1) (.array items)
  | object {depth : Nat} {members : List (String × List UInt8)} {entries : List (String × Json)}
      (object : Object members text) (read : ReadMembers depth members entries) :
      Form text (depth + 1) (.object entries)

/-- Over the members of an object the values are put in front of those that were read before. -/
theorem readMembers_of_stepsTo {depth : Nat} {members : List (String × List UInt8)}
    {read final : List (String × Json)}
    (steps : StepsTo (fun key entries => colon >>= fun _ => value depth >>= fun json => pure ((key, json) :: entries))
      final members read) : ∃ entries, ReadMembers depth members entries ∧ final = entries.reverse ++ read := by
  induction members generalizing read with
  | nil =>
    obtain rfl : read = final := steps
    exact ⟨[], .nil, rfl⟩
  | cons member members ih =>
    obtain ⟨next, reads, steps⟩ := steps
    obtain ⟨entries, others, rfl⟩ := ih steps
    obtain ⟨blank, all, here⟩ := reads [] blank_nil [] ends_nil
    rw [List.append_nil, List.append_nil, List.nil_append] at here
    dsimp only at here
    rw [bind_of_done (colon_eq_done.mpr (Next.here rfl _))] at here
    obtain ⟨json, _, here, done⟩ := bind_eq_done.mp here
    cases done
    refine ⟨(member.1, json) :: entries, .cons ⟨rfl, run_eq_ok_iff.mpr ⟨blank, all, here⟩⟩ others, ?_⟩
    rw [List.reverse_cons, List.append_assoc]
    rfl

private theorem text_of_run {depth : Nat} {text : List UInt8} {json : Json} (run : (value depth).run text = .ok json) :
    Text text := by
  obtain ⟨blank, all, read⟩ := run_eq_ok_iff.mp run
  have ends : Ends blank := by
    rw [← List.append_nil blank]
    exact ends_blank all ends_nil
  obtain ⟨taken, sound, rfl, _⟩ := (recognises_value depth).text (passes_value depth) read ends
  exact sound.behind all

/-- What does not start with a bracket or a brace is read the same at every depth. -/
theorem form_of_startingWith {list object : Reader Json} {text rest blank : List UInt8} {mark : UInt8} {json : Json}
    (seen : Next mark text rest) (back : Blank blank)
    (read : startingWith list object (character mark) (mark :: rest) = .done json blank) :
    (∀ depth, Form text depth json) ∨ (mark = 91 ∧ list (mark :: rest) = .done json blank) ∨
      (mark = 123 ∧ object (mark :: rest) = .done json blank) := by
  have truth {truth : Bool} (letter : character mark = 't' ∨ character mark = 'f')
      (read : startingWith (failAhead .noValue) (failAhead .noValue) (character mark) (mark :: rest) =
        .done (.bool truth) blank) (depth : Nat) : Form text depth (.bool truth) :=
    .bool seen letter read back
  unfold startingWith at read
  change Takes _ _ _ _ at read
  split at read
  case h_1 letter =>
    cases eq_of_character (k := 110) letter rfl
    obtain ⟨_, _, one, worded⟩ := bind_eq_done.mp read
    cases one
    obtain ⟨_, _, word, done⟩ := bind_eq_done.mp worded
    cases done
    exact .inl fun _ => .null seen word back
  case h_2 letter | h_3 letter =>
    obtain ⟨_, _, one, worded⟩ := bind_eq_done.mp read
    cases one
    obtain ⟨_, _, word, done⟩ := bind_eq_done.mp worded
    cases done
    refine .inl (truth (by simp [letter]) ?_)
    rw [letter]
    exact bind_of_done word _
  case h_4 quote =>
    cases eq_of_character (k := 34) quote rfl
    obtain ⟨_, _, one, stringed⟩ := bind_eq_done.mp read
    cases one
    obtain ⟨content, _, string, done⟩ := bind_eq_done.mp stringed
    cases done
    obtain ⟨before, front, rfl⟩ := exists_blank seen
    obtain ⟨spelling, spelt, rfl⟩ := spells_of_string string
    exact .inl fun _ => .string (.quotes front spelt back)
  case h_5 bracket =>
    exact .inr (.inl ⟨eq_of_character bracket rfl, read⟩)
  case h_6 brace =>
    exact .inr (.inr ⟨eq_of_character brace rfl, read⟩)
  case h_7 =>
    split at read
    next first => exact .inl fun _ => .number seen first (isNumber_number ⟨_, _, read⟩) read back
    next => cases read

theorem form_of_run {depth : Nat} {text : List UInt8} {json : Json} (run : (value depth).run text = .ok json) :
    Form text depth json := by
  have whole := text_of_run run
  obtain ⟨blank, back, read⟩ := run_eq_ok_iff.mp run
  cases depth with
  | zero =>
    have read : value.start _ _ text = .done json blank := read
    obtain ⟨mark, rest, seen, started⟩ := Next.of_ahead (fails_failAhead _ _) read
    rcases form_of_startingWith seen back started with flat | ⟨_, deep⟩ | ⟨_, deep⟩
    · exact flat 0
    · cases deep
    · cases deep
  | succ depth =>
    have read : value.start _ _ text = .done json blank := read
    obtain ⟨mark, rest, seen, started⟩ := Next.of_ahead (fails_failAhead _ _) read
    rcases form_of_startingWith seen back started with flat | ⟨rfl, listed⟩ | ⟨rfl, braced⟩
    · exact flat (depth + 1)
    · obtain ⟨items, _, listed, done⟩ := bind_eq_done.mp listed
      cases done
      obtain ⟨texts, sequence⟩ := whole.sequence seen
      refine .array sequence ?_
      cases sequence with
      | brackets front sound _ =>
        cases (Next.behind front rfl _).symm.trans seen
        exact ((list_eq_done (proper_value depth) sound).mp listed).2
    · obtain ⟨final, _, taken, done⟩ := bind_eq_done.mp braced
      cases done
      have recognises (key : String) (entries : List (String × Json)) :
          RecognisesMember (colon >>= fun _ => value depth >>= fun json => pure ((key, json) :: entries)) :=
        ((recognises_value depth).map _).member ((passes_value depth).still fun _ => .pure _)
      obtain ⟨members, inside, sound, steps, rfl⟩ := object_taken recognises taken
      obtain ⟨entries, each, rfl⟩ := readMembers_of_stepsTo steps
      obtain ⟨before, front, rfl⟩ := exists_blank seen
      rw [List.append_nil, List.reverse_reverse]
      exact .object (.braces front sound back) each

/-- Whether the text of such a value may start with the character. -/
def opens : Json → Char → Bool
  | .null, c => c = 'n'
  | .bool _, c => c = 't' || c = 'f'
  | .integer _, c | .float _, c => c = '-' || c.isDigit
  | .string _, c => c = '"'
  | .array _, c => c = '['
  | .object _, c => c = '\x7b'

private theorem opens_of_isNumber {json : Json} (number : json.IsNumber) (c : Char) :
    opens json c = (c = '-' || c.isDigit) := by
  cases json <;> first | rfl | exact number.elim

theorem opens_otherwise {json : Json} (other : ¬json.IsNumber) {c : Char}
    (first : (c = '-' || c.isDigit) = true) : opens json c = false := by
  refine Bool.eq_false_iff.mpr fun opened => ?_
  cases json with
  | integer | float => exact other trivial
  | null | string | array | object =>
    cases of_decide_eq_true opened
    cases first
  | bool =>
    rcases Bool.or_eq_true_iff.mp opened with letter | letter
    · cases of_decide_eq_true letter
      cases first
    · cases of_decide_eq_true letter
      cases first

theorem Form.starts {text : List UInt8} {depth : Nat} {json : Json} (form : Form text depth json) :
    ∃ mark rest, Next mark text rest ∧ opens json (character mark) = true := by
  cases form with
  | null seen => exact ⟨_, _, seen, rfl⟩
  | bool seen letter => exact ⟨_, _, seen, by simpa [opens] using letter⟩
  | number seen first number => exact ⟨_, _, seen, by simpa [opens_of_isNumber number] using first⟩
  | string quoted =>
    cases quoted with
    | quotes front => exact ⟨34, _, Next.behind front rfl _, rfl⟩
  | array sequence =>
    cases sequence with
    | brackets front => exact ⟨91, _, Next.behind front rfl _, rfl⟩
  | object object =>
    cases object with
    | braces front => exact ⟨123, _, Next.behind front rfl _, rfl⟩

end LedgerClient.Json.Reader
