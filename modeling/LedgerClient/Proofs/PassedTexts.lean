import LedgerClient.Proofs.ScalarRecognition

/-! Whatever is passed over is well formed, up to the place where passing over stops. -/

namespace LedgerClient.Json.Grammar
open Reader

private theorem blank_takeWhile (input : List UInt8) : Blank (input.takeWhile isSpace) :=
  List.all_eq_true.mp List.all_takeWhile

theorem Blank.append {front back : List UInt8} (first : Blank front) (second : Blank back) : Blank (front ++ back) :=
  List.forall_mem_append.mpr ⟨first, second⟩

theorem exists_blank {mark : UInt8} {input rest : List UInt8} (seen : Next mark input rest) :
    ∃ blank, Blank blank ∧ input = blank ++ mark :: rest :=
  ⟨_, blank_takeWhile input, by rw [← seen, List.takeWhile_append_dropWhile]⟩

/-- What a reader looks ahead at stands behind blanks. -/
theorem parted_ahead {next : Option Char → Reader α} {input left : List UInt8} {value : α}
    (none : ∀ value left, next none [] ≠ .done value left) (read : (ahead >>= next) input = .done value left) :
    ∃ blank mark rest, Blank blank ∧ input = blank ++ mark :: rest ∧
      Takes (next (some (character mark))) (mark :: rest) value left := by
  obtain ⟨mark, rest, seen, read⟩ := Next.of_ahead none read
  obtain ⟨blank, all, same⟩ := exists_blank seen
  exact ⟨blank, mark, rest, all, same, read⟩

private theorem eq_cons_of_head {input : List UInt8} {c : Char} (seen : input.head?.map character = some c) {k : UInt8}
    (written : character k = c) : ∃ rest, input = k :: rest := by
  obtain ⟨octet, first, same⟩ := Option.map_eq_some_iff.mp seen
  obtain ⟨rest, rfl⟩ := List.head?_eq_some_iff.mp first
  exact ⟨rest, by rw [eq_of_character same written]⟩

/-- Where digits are looked for they are taken together. -/
theorem digits_parted (input : List UInt8) : ∃ front, (∀ octet ∈ front, isDigit octet = Bool.true) ∧
    input = front ++ input.dropWhile isDigit ∧ digits input = .done (front.filterMap digit?) (input.dropWhile isDigit) :=
  ⟨_, List.all_eq_true.mp List.all_takeWhile, List.takeWhile_append_dropWhile.symm, rfl⟩

private theorem front_of_digits {input left : List UInt8}
    (skipped : (digits >>= fun _ => pure ()) input = .done () left) :
    ∃ front, (∀ octet ∈ front, isDigit octet = Bool.true) ∧ input = front ++ left := by
  obtain ⟨front, all, parted, taken⟩ := digits_parted input
  rw [bind_of_done taken] at skipped
  cases skipped
  exact ⟨front, all, parted⟩

private theorem whole_of_skipWhole {input left : List UInt8} (skipped : skipWhole input = .done () left) :
    ∃ whole, Whole whole ∧ input = whole ++ left := by
  cases input with
  | nil => cases skipped
  | cons octet input =>
    unfold skipWhole at skipped
    rw [next_bind] at skipped
    change Takes _ _ _ _ at skipped
    split at skipped
    next zero =>
      cases eq_of_character (k := 48) (Option.some.inj zero) rfl
      refine ⟨[48], .zero, ?_⟩
      obtain ⟨c, _, peeked, skipped⟩ := bind_eq_done.mp skipped
      cases peeked
      change Takes _ _ _ _ at skipped
      split at skipped
      next =>
        split at skipped
        · cases skipped
        · cases skipped
          rfl
      next =>
        cases skipped
        rfl
    next other same =>
      cases same
      split at skipped
      next digit =>
        obtain ⟨front, all, rfl⟩ := front_of_digits skipped
        rw [← isDigit_eq] at digit
        exact ⟨octet :: front, .digits digit (fun zero => other (zero ▸ rfl)) all, rfl⟩
      next => cases skipped
    next => contradiction

private theorem digits_of_skipUnsigned {input left : List UInt8} (skipped : skipUnsigned input = .done () left) :
    ∃ octets, Digits octets ∧ input = octets ++ left := by
  cases input with
  | nil => cases skipped
  | cons octet input =>
    change Takes (if (character octet).isDigit then _ else _) _ _ _ at skipped
    split at skipped
    next digit =>
      obtain ⟨front, all, rfl⟩ := front_of_digits skipped
      rw [← isDigit_eq] at digit
      exact ⟨octet :: front, ⟨List.cons_ne_nil _ _, List.forall_mem_cons.mpr ⟨digit, all⟩⟩, rfl⟩
    next => cases skipped

private theorem exponent_of_skipExponent {letter : UInt8} (marked : letter = 101 ∨ letter = 69)
    {input left : List UInt8}
    (skipped : skipExponent input = .done () left) :
    ∃ exponent, Exponent (letter :: exponent) ∧ input = exponent ++ left := by
  rw [skipExponent_eq, peek_bind] at skipped
  change Takes _ _ _ _ at skipped
  split at skipped
  next signed =>
    obtain ⟨_, _, one, skipped⟩ := bind_eq_done.mp skipped
    cases one
    obtain ⟨octets, digits, rest⟩ := digits_of_skipUnsigned skipped
    rcases signed with plus | minus
    · obtain ⟨behind, rfl⟩ := eq_cons_of_head plus (k := 43) rfl
      exact ⟨[43] ++ octets, .digits marked (.inr (.inl rfl)) digits, congrArg (43 :: ·) rest⟩
    · obtain ⟨behind, rfl⟩ := eq_cons_of_head minus (k := 45) rfl
      exact ⟨[45] ++ octets, .digits marked (.inr (.inr rfl)) digits, congrArg (45 :: ·) rest⟩
  next =>
    obtain ⟨octets, digits, rest⟩ := digits_of_skipUnsigned skipped
    exact ⟨[] ++ octets, .digits marked (.inl rfl) digits, rest⟩

private theorem exponent_of_skipPower {input left : List UInt8} (skipped : skipPower input = .done () left) :
    ∃ exponent, Exponent exponent ∧ input = exponent ++ left := by
  unfold skipPower at skipped
  rw [peek_bind] at skipped
  change Takes _ _ _ _ at skipped
  split at skipped
  case h_3 =>
    cases skipped
    exact ⟨[], .none, rfl⟩
  case h_1 letter =>
    obtain ⟨behind, rfl⟩ := eq_cons_of_head letter (k := 101) rfl
    obtain ⟨exponent, power, rfl⟩ := exponent_of_skipExponent (.inl rfl) skipped
    exact ⟨_, power, rfl⟩
  case h_2 letter =>
    obtain ⟨behind, rfl⟩ := eq_cons_of_head letter (k := 69) rfl
    obtain ⟨exponent, power, rfl⟩ := exponent_of_skipExponent (.inr rfl) skipped
    exact ⟨_, power, rfl⟩

private theorem parts_of_skipFraction {input left : List UInt8} (skipped : skipFraction input = .done () left) :
    ∃ fraction exponent, Fraction fraction ∧ Exponent exponent ∧ input = fraction ++ (exponent ++ left) := by
  by_cases point : input.head?.map character = some '.'
  · obtain ⟨behind, rfl⟩ := eq_cons_of_head point (k := 46) rfl
    obtain ⟨front, all, parted, taken⟩ := digits_parted behind
    rw [skipFraction, peek_bind] at skipped
    change (skipOne >>= _) _ = _ at skipped
    rw [skipOne_bind, bind_of_done taken] at skipped
    change Takes (if (front.filterMap digit?).isEmpty then _ else _) _ _ _ at skipped
    split at skipped
    next => cases skipped
    next some =>
      obtain ⟨exponent, power, rest⟩ := exponent_of_skipPower skipped
      refine ⟨46 :: front, exponent, .digits ⟨?_, all⟩, power, ?_⟩
      · rintro rfl
        exact some rfl
      · rw [List.cons_append, ← rest, ← parted]
  · rw [skipFraction_of_ne point] at skipped
    obtain ⟨exponent, power, rfl⟩ := exponent_of_skipPower skipped
    exact ⟨[], exponent, .none, power, rfl⟩

private theorem text_of_skipNumber {sign : List UInt8} (signed : sign = [] ∨ sign = [45]) {input left : List UInt8}
    (skipped : skipNumber input = .done () left) : ∃ text, Text text ∧ sign ++ input = text ++ left := by
  rw [skipNumber_eq] at skipped
  obtain ⟨_, behind, first, second⟩ := bind_eq_done.mp skipped
  obtain ⟨whole, digits, rfl⟩ := whole_of_skipWhole first
  obtain ⟨fraction, exponent, point, power, rfl⟩ := parts_of_skipFraction second
  exact ⟨_, .number signed digits point power, by simp only [List.append_assoc]⟩

private theorem isPlain_of_unmarked {octet : UInt8} : character octet ≠ '"' → character octet ≠ '\\' →
    ¬(character octet).toNat < 0x20 → isPlain octet = Bool.true :=
  Percent.forall_octet (p := fun octet => character octet ≠ '"' → character octet ≠ '\\' →
    ¬(character octet).toNat < 0x20 → isPlain octet = Bool.true) (by decide +kernel) octet

private theorem body_of_skipString {bound : Nat} {input left : List UInt8}
    (skipped : skipString bound input = .done () left) :
    ∃ body, Body body ∧ input = body ++ 34 :: left := by
  induction bound generalizing input with
  | zero => cases skipped
  | succ bound ih =>
    unfold skipString at skipped
    rw [peek_bind] at skipped
    change Takes _ _ _ _ at skipped
    split at skipped
    next => cases skipped
    next quote =>
      obtain ⟨rest, rfl⟩ := eq_cons_of_head quote (k := 34) rfl
      cases skipped
      exact ⟨[], .nil, rfl⟩
    next backslash =>
      obtain ⟨rest, rfl⟩ := eq_cons_of_head backslash (k := 92) rfl
      change (skipOne >>= _) _ = _ at skipped
      rw [skipOne_bind] at skipped
      cases rest with
      | nil => cases skipped
      | cons octet rest =>
        rw [next_bind] at skipped
        change Takes _ _ _ _ at skipped
        split at skipped
        next => contradiction
        next letter =>
          cases eq_of_character (k := 117) (Option.some.inj letter) rfl
          obtain ⟨_, _, hex, others⟩ := bind_eq_done.mp skipped
          obtain ⟨digits, number, rfl⟩ := hex_of_fourHex hex
          obtain ⟨body, sound, rfl⟩ := ih others
          exact ⟨_, number.body sound, by simp only [List.append_assoc, List.cons_append]⟩
        next same =>
          cases same
          split at skipped
          next letter =>
            obtain ⟨body, sound, rfl⟩ := ih skipped
            exact ⟨_, .letter letter sound, rfl⟩
          next => cases skipped
    next c no_quote no_backslash seen =>
      obtain ⟨octet, first, rfl⟩ := Option.map_eq_some_iff.mp seen
      obtain ⟨rest, rfl⟩ := List.head?_eq_some_iff.mp first
      split at skipped
      next => cases skipped
      next visible =>
        obtain ⟨body, sound, rfl⟩ := ih skipped
        exact ⟨_, .plain (isPlain_of_unmarked no_quote no_backslash visible) sound, rfl⟩

theorem eq_of_word {letters : List Char} (octets : List UInt8) (written : octets.map character = letters)
    {input left : List UInt8} (read : word letters input = .done () left) : input = octets ++ left := by
  induction letters generalizing octets input with
  | nil =>
    cases List.map_eq_nil_iff.mp written
    cases read
    rfl
  | cons letter letters ih =>
    obtain ⟨octet, octets, rfl, same, written⟩ := List.map_eq_cons_iff.mp written
    cases input with
    | nil => cases read
    | cons first input =>
      change Takes (if character first = letter then _ else _) _ _ _ at read
      split at read
      next here =>
        cases eq_of_character here same
        exact congrArg (octet :: ·) (ih octets written read)
      next => cases read

/-- The reader passes over the texts of values alone. -/
def PassesTexts (reader : Reader Unit) : Prop :=
  ∀ ⦃input left⦄, reader input = .done () left → ∃ text, Text text ∧ input = text ++ left

private theorem Text.before {text : List UInt8} (sound : Text text) {blank : List UInt8} (all : Blank blank) :
    Text (blank ++ text) := by
  have padded : Text (blank ++ (text ++ [])) := .padded all sound nofun
  rwa [List.append_nil] at padded

theorem Text.behind {text : List UInt8} (sound : Text text) {blank : List UInt8} (all : Blank blank) :
    Text (text ++ blank) := by
  have padded : Text ([] ++ (text ++ blank)) := .padded nofun sound all
  exact padded

/-- Behind an item a list ends, or it goes on behind a comma. -/
theorem behind_item {more : Reader Unit} {input left : List UInt8}
    (read : (do
      match ← ahead with
      | none => failAhead .listEnds
      | some ']' => skipOne
      | some ',' => do skipOne; more
      | some _ => failAhead .noListComma : Reader Unit) input = .done () left) :
    ∃ blank, Blank blank ∧
      (input = blank ++ 93 :: left ∨ ∃ rest, input = blank ++ 44 :: rest ∧ more rest = .done () left) := by
  obtain ⟨blank, mark, rest, all, rfl, went⟩ := parted_ahead (fails_failAhead _ _) read
  refine ⟨blank, all, ?_⟩
  split at went
  next => contradiction
  next closes =>
    cases eq_of_character (k := 93) (Option.some.inj closes) rfl
    cases went
    exact .inl rfl
  next comma =>
    cases eq_of_character (k := 44) (Option.some.inj comma) rfl
    exact .inr ⟨rest, rfl, went⟩
  next => cases went

private theorem items_of_skipItems {item : Reader Unit} (passes : PassesTexts item) {bound : Nat}
    {input left : List UInt8}
    (skipped : skipItems item bound input = .done () left) :
    ∃ items, items ≠ [] ∧ (∀ item ∈ items, Text item) ∧ input = commas items ++ 93 :: left := by
  induction bound generalizing input with
  | zero => cases skipped
  | succ bound ih =>
    obtain ⟨_, behind, here, others⟩ := bind_eq_done.mp skipped
    obtain ⟨text, sound, rfl⟩ := passes here
    obtain ⟨blank, all, rfl | ⟨rest, rfl, more⟩⟩ := behind_item others
    · refine ⟨[text ++ blank], List.cons_ne_nil _ _, List.forall_mem_singleton.mpr (sound.behind all), ?_⟩
      rw [commas, List.append_assoc]
    · obtain ⟨items, some, sounds, rfl⟩ := ih more
      refine ⟨(text ++ blank) :: items, List.cons_ne_nil _ _, List.forall_mem_cons.mpr ⟨sound.behind all, sounds⟩, ?_⟩
      rw [commas, List.append_assoc, List.append_assoc, List.cons_append]
      exact some

/-- In front of the value of a member stand its key and a colon. -/
theorem key_of_member {more : Reader Unit} {input left : List UInt8}
    (read : (do
      match ← ahead with
      | none => failAhead .objectEnds
      | some '"' => skipOne
      | some _ => failAhead .keyNotString
      bounded skipString
      colon
      more : Reader Unit) input = .done () left) :
    ∃ before key between behind, Blank before ∧ Body key ∧ Blank between ∧
      input = before ++ 34 :: (key ++ 34 :: (between ++ 58 :: behind)) ∧ more behind = .done () left := by
  obtain ⟨before, mark, rest, front, rfl, went⟩ := parted_ahead (fails_failAhead _ _) read
  split at went
  next => contradiction
  next quote =>
    cases eq_of_character (k := 34) (Option.some.inj quote) rfl
    obtain ⟨_, _, one, keyed⟩ := bind_eq_done.mp went
    cases one
    obtain ⟨_, _, key, marked⟩ := bind_eq_done.mp keyed
    obtain ⟨_, behind, colon, valued⟩ := bind_eq_done.mp marked
    obtain ⟨between, inside, rfl⟩ := exists_blank (colon_eq_done.mp colon)
    obtain ⟨body, spelt, same⟩ := body_of_skipString key
    exact ⟨before, body, between, behind, front, spelt, inside, congrArg (before ++ 34 :: ·) same, valued⟩
  next => cases went

/-- Behind a member an object ends, or it goes on behind a comma. -/
theorem behind_member {more : Reader Unit} {input left : List UInt8}
    (read : (do
      match ← ahead with
      | none => failAhead .objectEnds
      | some '\x7d' => skipOne
      | some ',' => do skipOne; more
      | some _ => failAhead .noObjectComma : Reader Unit) input = .done () left) :
    ∃ blank, Blank blank ∧
      (input = blank ++ 125 :: left ∨ ∃ rest, input = blank ++ 44 :: rest ∧ more rest = .done () left) := by
  obtain ⟨blank, mark, rest, all, rfl, went⟩ := parted_ahead (fails_failAhead _ _) read
  refine ⟨blank, all, ?_⟩
  split at went
  next => contradiction
  next closes =>
    cases eq_of_character (k := 125) (Option.some.inj closes) rfl
    cases went
    exact .inl rfl
  next comma =>
    cases eq_of_character (k := 44) (Option.some.inj comma) rfl
    exact .inr ⟨rest, rfl, went⟩
  next => cases went

private theorem members_of_skipMembers {item : Reader Unit} (passes : PassesTexts item) {bound : Nat}
    {input left : List UInt8} (skipped : skipMembers item bound input = .done () left) :
    ∃ members : List Member, members ≠ [] ∧ (∀ member ∈ members, member.Sound) ∧
      (∀ member ∈ members, Text member.value) ∧ input = commas (members.map Member.text) ++ 125 :: left := by
  induction bound generalizing input with
  | zero => cases skipped
  | succ bound ih =>
    obtain ⟨before, key, between, behind, front, spelt, inside, rfl, valued⟩ := key_of_member skipped
    obtain ⟨_, _, value, others⟩ := bind_eq_done.mp valued
    obtain ⟨text, sound, rfl⟩ := passes value
    obtain ⟨blank, all, goes⟩ := behind_member others
    let member : Member := ⟨before, key, between, text ++ blank⟩
    have here : member.Sound := ⟨front, spelt, inside⟩
    have taken : Text member.value := sound.behind all
    have parted (rest : List UInt8) : before ++ 34 :: (key ++ 34 :: (between ++ 58 :: (text ++ (blank ++ rest)))) =
        member.text ++ rest := by
      simp only [member, Member.text, List.append_assoc, List.cons_append]
    rcases goes with rfl | ⟨rest, rfl, more⟩
    · exact ⟨[member], List.cons_ne_nil _ _, List.forall_mem_singleton.mpr here, List.forall_mem_singleton.mpr taken,
        parted _⟩
    · obtain ⟨members, some, sounds, values, rfl⟩ := ih more
      refine ⟨member :: members, List.cons_ne_nil _ _, List.forall_mem_cons.mpr ⟨here, sounds⟩,
        List.forall_mem_cons.mpr ⟨taken, values⟩, ?_⟩
      rw [List.map_cons, commas, List.append_assoc, List.cons_append]
      · exact parted _
      · exact mt List.map_eq_nil_iff.mp some

private theorem append_commas (front text : List UInt8) (texts : List (List UInt8)) :
    front ++ commas (text :: texts) = commas ((front ++ text) :: texts) := by
  cases texts with
  | nil => rfl
  | cons next texts => simp only [commas, List.append_assoc]

private theorem inside_of_skipList {item : Reader Unit} (passes : PassesTexts item) {input left : List UInt8}
    (skipped : skipList item input = .done () left) :
    ∃ inside, Text (91 :: (inside ++ [93])) ∧ input = inside ++ 93 :: left := by
  obtain ⟨blank, mark, rest, all, rfl, read⟩ := parted_ahead (fails_failAhead _ _) skipped
  split at read
  next => contradiction
  next closes =>
    cases eq_of_character (k := 93) (Option.some.inj closes) rfl
    cases read
    exact ⟨blank, .emptyList all, rfl⟩
  next =>
    obtain ⟨items, some, sounds, same⟩ := items_of_skipItems passes read
    obtain ⟨first, items, rfl⟩ := List.exists_cons_of_ne_nil some
    obtain ⟨sound, sounds⟩ := List.forall_mem_cons.mp sounds
    refine ⟨commas ((blank ++ first) :: items), ?_, by rw [same, ← append_commas, List.append_assoc]⟩
    exact .list (List.cons_ne_nil _ _) (List.forall_mem_cons.mpr ⟨sound.before all, sounds⟩)

private theorem inside_of_skipObject {item : Reader Unit} (passes : PassesTexts item) {input left : List UInt8}
    (skipped : skipObject item input = .done () left) :
    ∃ inside, Text (123 :: (inside ++ [125])) ∧ input = inside ++ 125 :: left := by
  obtain ⟨blank, mark, rest, all, rfl, read⟩ := parted_ahead (fails_failAhead _ _) skipped
  split at read
  next => contradiction
  next closes =>
    cases eq_of_character (k := 125) (Option.some.inj closes) rfl
    cases read
    exact ⟨blank, .emptyObject all, rfl⟩
  next =>
    obtain ⟨members, some, sounds, values, same⟩ := members_of_skipMembers passes read
    obtain ⟨first, members, rfl⟩ := List.exists_cons_of_ne_nil some
    obtain ⟨sound, sounds⟩ := List.forall_mem_cons.mp sounds
    obtain ⟨value, values⟩ := List.forall_mem_cons.mp values
    let padded : Member := { first with before := blank ++ first.before }
    have text : padded.text = blank ++ first.text := List.append_assoc _ _ _
    have here : padded.Sound := ⟨all.append sound.before, sound.key, sound.between⟩
    refine ⟨commas ((padded :: members).map Member.text), ?_, ?_⟩
    · exact .object (List.cons_ne_nil _ _) (List.forall_mem_cons.mpr ⟨here, sounds⟩)
        (List.forall_mem_cons.mpr ⟨value, values⟩)
    · rw [same, List.map_cons, List.map_cons, text, ← append_commas, List.append_assoc]

private theorem passesTexts_skipWithin (bound : Nat) : PassesTexts (skipWithin bound) := by
  induction bound with
  | zero => exact nofun
  | succ bound ih =>
    intro input left skipped
    unfold skipWithin at skipped
    obtain ⟨blank, mark, rest, all, rfl, read⟩ := parted_ahead (fails_failAhead _ _) skipped
    suffices here : ∃ text, Text text ∧ mark :: rest = text ++ left by
      obtain ⟨text, sound, same⟩ := here
      exact ⟨blank ++ text, sound.before all, by rw [same, List.append_assoc]⟩
    split at read
    next => contradiction
    next letter =>
      cases eq_of_character (k := 110) (Option.some.inj letter) rfl
      exact ⟨_, .null, congrArg (110 :: ·) (eq_of_word [117, 108, 108] rfl read)⟩
    next letter =>
      cases eq_of_character (k := 116) (Option.some.inj letter) rfl
      exact ⟨_, .true, congrArg (116 :: ·) (eq_of_word [114, 117, 101] rfl read)⟩
    next letter =>
      cases eq_of_character (k := 102) (Option.some.inj letter) rfl
      exact ⟨_, .false, congrArg (102 :: ·) (eq_of_word [97, 108, 115, 101] rfl read)⟩
    next quote =>
      cases eq_of_character (k := 34) (Option.some.inj quote) rfl
      have behind : skipString rest.length rest = .done () left := read
      obtain ⟨body, sound, same⟩ := body_of_skipString behind
      refine ⟨_, .string sound, ?_⟩
      rw [same, List.cons_append, List.append_assoc]
      rfl
    next minus =>
      cases eq_of_character (k := 45) (Option.some.inj minus) rfl
      have behind : skipNumber rest = .done () left := read
      exact text_of_skipNumber (.inr rfl) behind
    next bracket =>
      cases eq_of_character (k := 91) (Option.some.inj bracket) rfl
      obtain ⟨inside, sound, same⟩ := inside_of_skipList ih read
      refine ⟨91 :: (inside ++ [93]), sound, ?_⟩
      rw [List.cons_append, List.append_assoc]
      exact congrArg (91 :: ·) same
    next brace =>
      cases eq_of_character (k := 123) (Option.some.inj brace) rfl
      obtain ⟨inside, sound, same⟩ := inside_of_skipObject ih read
      refine ⟨123 :: (inside ++ [125]), sound, ?_⟩
      rw [List.cons_append, List.append_assoc]
      exact congrArg (123 :: ·) same
    next same =>
      cases same
      split at read
      next => exact text_of_skipNumber (.inl rfl) read
      next => cases read

/-- Whatever is passed over is the text of a value. -/
theorem text_of_skip {input left : List UInt8} (skipped : skip input = .done () left) :
    ∃ text, Text text ∧ input = text ++ left := passesTexts_skipWithin _ skipped

end LedgerClient.Json.Grammar
