import LedgerClient.Proofs.ValueLocality

/-! What is read is what would be passed over. Passing over decodes no string, works out
no number and counts no depth, but wherever a value can be read it stops at the same place. -/

namespace LedgerClient.Json.Reader
open Percent (forall_octet)

/-- Wherever the reader reads something, the follower gets through and stops at the same place. -/
def Follows (follower : Reader β) (reader : Reader α) : Prop :=
  ∀ ⦃input value left⦄, reader input = .done value left → ∃ other, follower input = .done other left

/-- A reader that takes nothing. -/
def Still (reader : Reader α) : Prop := ∀ ⦃input value left⦄, reader input = .done value left → left = input

theorem Still.pure (value : α) : Still (pure value) := by
  intro _ _ _ read
  cases read
  rfl

theorem Fails.still {reader : Reader α} (fails : Fails reader) : Still reader :=
  fun _ _ _ read => absurd read (fails _ _ _)

theorem Follows.refl (reader : Reader α) : Follows reader reader := fun _ value _ read => ⟨value, read⟩

theorem Fails.follows {reader : Reader α} (fails : Fails reader) (follower : Reader β) : Follows follower reader :=
  fun _ _ _ read => absurd read (fails _ _ _)

private theorem Still.follows {reader : Reader α} (still : Still reader) (other : β) : Follows
    (Pure.pure other) reader :=
  fun _ _ _ read => ⟨other, by rw [still read]; rfl⟩

theorem Fails.skipped {reader : Reader α} (fails : Fails reader) {input left : List UInt8} {value : α}
    (read : reader input = .done value left) : skip input = .done () left := absurd read (fails _ _ _)

private theorem Follows.bind {follower : Reader γ} {reader : Reader α} {next : α → Reader β} {last : γ → Reader δ}
    (first : Follows follower reader) (second : ∀ other value, Follows (last other) (next value)) :
    Follows (follower >>= last) (reader >>= next) := by
  intro input value left read
  obtain ⟨middle, behind, before, read⟩ := bind_eq_done.mp read
  obtain ⟨other, before⟩ := first before
  rw [bind_of_done before]
  exact second other middle read

/-- Two that start alike. -/
theorem Follows.after {reader : Reader γ} {next : γ → Reader α} {last : γ → Reader β}
    (second : ∀ value, Follows (last value) (next value)) : Follows (reader >>= last) (reader >>= next) := by
  intro input value left read
  obtain ⟨middle, behind, before, read⟩ := bind_eq_done.mp read
  rw [bind_of_done before]
  exact second middle read

theorem Follows.still {follower : Reader γ} {reader : Reader α} {next : α → Reader β}
    (follows : Follows follower reader) (still : ∀ value, Still (next value)) :
    Follows follower (reader >>= next) := by
  intro input value left read
  obtain ⟨middle, behind, before, read⟩ := bind_eq_done.mp read
  rw [still middle read]
  exact follows before

private theorem Follows.skipIf {follower : Reader β} {reader : Reader α} (p : Prop) [Decidable p]
    (behind : Follows follower reader) :
    Follows (if p then skipOne >>= fun _ => follower else follower)
      (if p then skipOne >>= fun _ => reader else reader) := by
  split
  · exact .after fun _ => behind
  · exact behind

private theorem follows_exponentDigits (tooLarge : Bool) (n : Nat) : Follows digits (exponentDigits tooLarge n) := by
  intro input value left read
  rw [exponentDigits_left read]
  exact ⟨_, rfl⟩

private theorem follows_exponent (zero : Bool) : Follows skipExponent (exponent zero) := by
  refine .after fun sign => .skipIf _ (.after fun c => ?_)
  cases c with
  | none => exact (fails_failHere _).follows _
  | some c =>
    dsimp only
    split
    · exact .bind (follows_exponentDigits _ _) fun _ n => (Still.pure _).follows ()
    · exact (fails_failHere _).follows _

private theorem follows_inexact (negative : Bool) (significand : Nat) (power : Int) :
    Follows skipPower (inexact negative significand power) := by
  have finish (power : Int) : Still (inexact.finish negative significand power) := by
    unfold inexact.finish
    split
    · exact .pure _
    · exact (fails_failHere _).still
  refine .after fun letter => ?_
  split
  case h_3 no_e no_E =>
    rw [if_neg fun either => either.elim no_e no_E]
    exact (finish power).follows ()
  all_goals
    refine .after fun _ => (follows_exponent _).still fun e => ?_
    split
    · exact .pure _
    · exact finish _

theorem skipWhole_zero {rest : List UInt8} (alone : ∀ octet ∈ rest.head?, isDigit octet = false) :
    skipWhole (48 :: rest) = .done () rest := by
  cases rest with
  | nil => rfl
  | cons octet rest =>
    have alone := alone octet rfl
    rw [isDigit_eq, ← Bool.not_eq_true] at alone
    change (if (character octet).isDigit then failAhead .badNumber else pure ()) (octet :: rest) = _
    rw [if_neg alone]
    rfl

theorem skipWhole_digit {octet : UInt8} (digit : isDigit octet = true) (other : octet ≠ 48) (rest : List UInt8) :
    skipWhole (octet :: rest) = .done () (rest.dropWhile isDigit) := by
  unfold skipWhole
  rw [isDigit_eq] at digit
  rw [next_bind]
  change Takes _ _ _ _
  split
  next zero => exact absurd (eq_of_character (Option.some.inj zero) rfl) other
  next same =>
    cases same
    rw [if_pos digit]
    rfl
  next => contradiction

private theorem wholeDigits_eq_done {input left : List UInt8} {whole : List Nat}
    (read : wholeDigits input = .done whole left) :
    (input = 48 :: left ∧ ∀ octet ∈ left.head?, isDigit octet = false) ∨
      ∃ octet rest, input = octet :: rest ∧ isDigit octet = true ∧ octet ≠ 48 ∧ left = rest.dropWhile isDigit := by
  cases input with
  | nil => cases read
  | cons octet rest =>
    unfold wholeDigits at read
    rw [peek_bind] at read
    change Takes _ _ _ _ at read
    split at read
    next => contradiction
    next zero =>
      cases eq_of_character (k := 48) (Option.some.inj zero) rfl
      refine .inl ?_
      obtain ⟨_, _, skipped, read⟩ := bind_eq_done.mp read
      cases skipped
      obtain ⟨_, _, peeked, read⟩ := bind_eq_done.mp read
      cases peeked
      change Takes _ _ _ _ at read
      cases rest with
      | nil =>
        cases read
        exact ⟨rfl, nofun⟩
      | cons digit rest =>
        change Takes (if (character digit).isDigit then _ else _) _ _ _ at read
        split at read
        next => cases read
        next alone =>
          cases read
          rw [← isDigit_eq, Bool.not_eq_true] at alone
          exact ⟨rfl, fun _ first => Option.some.inj first ▸ alone⟩
    next other same =>
      cases same
      split at read
      next digit =>
        rw [← isDigit_eq] at digit
        cases read
        refine .inr ⟨octet, rest, rfl, digit, fun zero => other (zero ▸ rfl), ?_⟩
        rw [List.dropWhile_cons_of_pos digit]
      next => cases read

/-- The digits that stand in front of the point are taken alike. -/
theorem follows_wholeDigits : Follows skipWhole wholeDigits := by
  intro input value left read
  obtain ⟨rfl, alone⟩ | ⟨octet, rest, rfl, digit, other, rfl⟩ := wholeDigits_eq_done read
  · exact ⟨(), skipWhole_zero alone⟩
  · exact ⟨(), skipWhole_digit digit other rest⟩

theorem skipFraction_of_ne {input : List UInt8} (other : input.head?.map character ≠ some '.') :
    skipFraction input = skipPower input := by
  unfold skipFraction skipPower
  rw [peek_bind, peek_bind]
  generalize input.head?.map character = c at other
  split
  next => exact absurd rfl other
  next => rfl
  next => rfl
  next no_e no_E =>
    split
    next => exact absurd rfl no_e
    next => exact absurd rfl no_E
    next => rfl

/-- A sign, and a number behind it. -/
def skipSigned : Reader Unit := do
  if (← peek) = some '-' then
    skipOne
    skipNumber
  else skipNumber

private theorem follows_number : Follows skipSigned number := by
  refine .after fun sign => .skipIf _ ?_
  rw [skipNumber_eq]
  refine .bind follows_wholeDigits fun _ whole => ?_
  intro input value rest read
  obtain ⟨_, _, peeked, read⟩ := bind_eq_done.mp read
  cases peeked
  change Takes _ _ _ _ at read
  split at read
  next point =>
    unfold skipFraction
    rw [peek_bind, point]
    refine Follows.after (fun _ => Follows.after fun fraction => ?_) read
    dsimp only
    split
    · refine Fails.follows (Fails.after fun c => ?_) _
      split <;> exact fails_failAhead _
    · exact follows_inexact _ _ _
  next letter =>
    rw [skipFraction_of_ne (by simp [letter])]
    exact follows_inexact _ _ _ read
  next letter =>
    rw [skipFraction_of_ne (by simp [letter])]
    exact follows_inexact _ _ _ read
  next no_point no_e no_E =>
    have still : rest = input := by
      split at read
      · exact Still.pure _ read
      · exact (fails_failHere _).still read
    rw [skipFraction_of_ne no_point, still]
    refine ⟨(), ?_⟩
    unfold skipPower
    rw [peek_bind]
    change Takes _ _ _ _
    split
    next => contradiction
    next => contradiction
    next => rfl

private theorem unmarked_of_isPlain {octet : UInt8} : isPlain octet = true →
    character octet ≠ '"' ∧ character octet ≠ '\\' ∧ ¬(character octet).toNat < 0x20 :=
  forall_octet (p := fun octet => isPlain octet = true →
    character octet ≠ '"' ∧ character octet ≠ '\\' ∧ ¬(character octet).toNat < 0x20) (by decide +kernel) octet

theorem mark_of_not_isPlain {octet : UInt8} : isPlain octet = false → ¬octet < 0x20 → octet = 34 ∨ octet = 92 :=
  forall_octet (p := fun octet => isPlain octet = false → ¬octet < 0x20 → octet = 34 ∨ octet = 92)
    (by decide +kernel) octet

theorem skipString_cons {octet : UInt8} (plain : isPlain octet = true) {bound : Nat} {rest left : List UInt8}
    (read : skipString bound rest = .done () left) : skipString (bound + 1) (octet :: rest) = .done () left := by
  obtain ⟨no_quote, no_backslash, visible⟩ := unmarked_of_isPlain plain
  unfold skipString
  rw [peek_bind]
  change Takes _ _ _ _
  split
  next => contradiction
  next quote => exact absurd (Option.some.inj quote) no_quote
  next backslash => exact absurd (Option.some.inj backslash) no_backslash
  next same =>
    cases same
    rw [if_neg visible]
    exact read

private theorem skipString_plain {taken : List UInt8} (inside : ∀ octet ∈ taken, isPlain octet = true) {bound : Nat}
    {rest left : List UInt8} (read : skipString bound rest = .done () left) :
    skipString (taken.length + bound) (taken ++ rest) = .done () left := by
  induction taken with
  | nil => rwa [List.length_nil, Nat.zero_add, List.nil_append]
  | cons octet taken ih =>
    obtain ⟨plain, inside⟩ := List.forall_mem_cons.mp inside
    rw [List.length_cons, Nat.add_right_comm]
    exact skipString_cons plain (ih inside)

theorem secondHalf_eq_done {k : UInt8} {c : Char} {input left : List UInt8} (written : character k = c)
    (read : secondHalf c input = .done () left) : input = k :: left := by
  cases input with
  | nil => cases read
  | cons octet input =>
    change Takes (if character octet = c then _ else _) _ _ _ at read
    split at read
    next seen =>
      cases read
      rw [eq_of_character seen written]
      rfl
    next => cases read

/-- A numbered character, of one part or of two. -/
theorem numbered_eq_done {input left : List UInt8} {c : Char} (read : numbered input = .done c left) :
    ∃ high rest, fourHex input = .done high rest ∧
      (left = rest ∨ ∃ low behind, rest = 92 :: 117 :: behind ∧ fourHex behind = .done low left) := by
  obtain ⟨high, rest, first, read⟩ := bind_eq_done.mp read
  refine ⟨high, rest, first, ?_⟩
  change Takes _ _ _ _ at read
  split at read
  · cases read
  · split at read
    · cases read
      exact .inl rfl
    · refine .inr ?_
      obtain ⟨_, _, backslash, read⟩ := bind_eq_done.mp read
      obtain ⟨_, _, letter, read⟩ := bind_eq_done.mp read
      obtain ⟨low, behind, second, read⟩ := bind_eq_done.mp read
      rw [secondHalf_eq_done (k := 92) (by decide) backslash,
        secondHalf_eq_done (k := 117) (by decide) letter]
      refine ⟨low, _, rfl, ?_⟩
      change Takes _ _ _ _ at read
      split at read
      · cases read
      · exact (Outcome.done.inj read).2 ▸ second

/-- Letters that stand for a character behind a backslash. -/
def EscapeLetter (c : Char) : Prop := c ∈ ['"', '\\', '/', 'b', 'f', 'n', 'r', 't']

instance (c : Char) : Decidable (EscapeLetter c) := inferInstanceAs (Decidable (_ ∈ _))

private theorem escape_eq_done {input left : List UInt8} {c : Char} (read : escape input = .done c left) :
    ∃ octet rest, input = octet :: rest ∧
      (EscapeLetter (character octet) ∧ left = rest ∨ octet = 117 ∧ numbered rest = .done c left) := by
  cases input with
  | nil => cases read
  | cons octet rest =>
    refine ⟨octet, rest, rfl, ?_⟩
    unfold escape at read
    rw [next_bind] at read
    change Takes _ _ _ _ at read
    split at read
    case h_1 => cases read
    case h_10 letter => exact .inr ⟨eq_of_character (Option.some.inj letter) rfl, read⟩
    case h_11 => cases read
    all_goals
      cases read
      rename_i letter
      refine .inl ⟨?_, rfl⟩
      rw [Option.some.inj letter]
      decide

theorem skipString_letter {bound : Nat} {octet : UInt8} {input left : List UInt8}
    (letter : EscapeLetter (character octet)) (behind : skipString bound input = .done () left) :
    skipString (bound + 1) (92 :: octet :: input) = .done () left := by
  have backslash : character 92 = '\\' := rfl
  unfold skipString
  rw [peek_bind]
  simp only [List.head?_cons, Option.map_some, backslash, skipOne_bind, next_bind]
  change Takes _ _ _ _
  split
  next => contradiction
  next u =>
    rw [Option.some.inj u] at letter
    exact absurd letter (by decide)
  next same =>
    cases same
    rw [if_pos (show character octet ∈ _ from letter)]
    exact behind

theorem skipString_numbered {bound high : Nat} {input rest left : List UInt8}
    (read : fourHex input = .done high rest) (behind : skipString bound rest = .done () left) :
    skipString (bound + 1) (92 :: 117 :: input) = .done () left := by
  unfold skipString
  have backslash : character 92 = '\\' := rfl
  have letter : character 117 = 'u' := rfl
  rw [peek_bind]
  simp only [List.head?_cons, Option.map_some, backslash, skipOne_bind, next_bind, letter]
  rw [bind_of_done read, behind]

private theorem skipString_escape {bound : Nat} {input left rest : List UInt8} {c : Char}
    (read : escape input = .done c left) (enough : input.length ≤ bound)
    (behind : ∀ bound, left.length ≤ bound → skipString bound left = .done () rest) :
    skipString (bound + 1) (92 :: input) = .done () rest := by
  obtain ⟨octet, input, rfl, ⟨letter, rfl⟩ | ⟨rfl, parts⟩⟩ := escape_eq_done read
  · exact skipString_letter letter (behind bound (Nat.le_of_succ_le enough))
  · obtain ⟨high, middle, first, same | ⟨low, second, rfl, last⟩⟩ := numbered_eq_done parts
    · have shorter := (extends_fourHex first).1
      rw [List.length_cons] at enough
      subst same
      exact skipString_numbered first (behind bound (by omega))
    · have shorter := (extends_fourHex first).1
      have shorter' := (extends_fourHex last).1
      simp only [List.length_cons] at enough shorter
      obtain ⟨less, rfl⟩ := Nat.exists_eq_add_of_le' (show 1 ≤ bound by omega)
      exact skipString_numbered first (skipString_numbered last (behind less (by omega)))

private theorem skipString_of_characters {n bound : Nat} {input left : List UInt8} {text : List Char}
    (read : characters n input = .done text left) (enough : input.length ≤ bound) :
    skipString bound input = .done () left := by
  induction n generalizing bound input text with
  | zero => cases read
  | succ n ih =>
    obtain ⟨first, rest, taken, read⟩ := bind_eq_done.mp read
    obtain ⟨found, -, stop, behind, rfl, fits⟩ := plain_eq_done taken
    have parted := List.takeWhile_append_dropWhile (p := isPlain) (l := input)
    rw [found] at parted
    have lengths := congrArg List.length parted
    rw [List.length_append, List.length_cons] at lengths
    obtain ⟨bound, rfl⟩ := Nat.exists_eq_add_of_le (m := (input.takeWhile isPlain).length + 1) (n := bound) (by omega)
    rw [Nat.add_assoc, Nat.add_comm 1]
    suffices marked : skipString (bound + 1) (stop :: behind) = .done () left by
      have whole := skipString_plain (List.all_eq_true.mp (List.all_takeWhile (l := input))) marked
      rwa [parted] at whole
    rw [next_bind] at read
    change Takes _ _ _ _ at read
    split at read
    next backslash =>
      obtain ⟨c, rest, escaped, read⟩ := bind_eq_done.mp read
      obtain ⟨text, last, read, done⟩ := bind_eq_done.mp read
      cases done
      cases eq_of_character (k := 92) (Option.some.inj backslash) rfl
      exact skipString_escape escaped (by omega) fun bound enough => ih read enough
    next no_backslash =>
      cases read
      have stops : isPlain stop = false := by
        have head := List.head?_dropWhile_not isPlain input
        rw [found] at head
        simpa using head
      obtain rfl | rfl := mark_of_not_isPlain stops fits
      · rfl
      · exact absurd rfl no_backslash

theorem follows_string : Follows (bounded skipString) string := by
  intro input value left read
  obtain ⟨text, rest, read, done⟩ := bind_eq_done.mp read
  cases done
  exact ⟨(), skipString_of_characters read (Nat.le_refl _)⟩

theorem dropWhile_again (input : List UInt8) :
    (input.dropWhile isSpace).dropWhile isSpace = input.dropWhile isSpace := by
  cases seen : input.dropWhile isSpace with
  | nil => rfl
  | cons octet rest =>
    have visible := List.head?_dropWhile_not isSpace input
    rw [seen] at visible
    exact List.dropWhile_cons_of_neg (by simpa using visible)

private theorem skipWithin_blank {bound : Nat} {input left : List UInt8}
    (skipped : skipWithin bound (input.dropWhile isSpace) = .done () left) :
    skipWithin bound input = .done () left := by
  cases bound with
  | zero => cases skipped
  | succ bound =>
    unfold skipWithin at skipped ⊢
    rwa [ahead_bind, dropWhile_again] at skipped

/-- Passing over, within a number of levels that suffices for the input. -/
theorem skipWithin_of_skip {bound : Nat} {input left : List UInt8} (skipped : skip input = .done () left)
    (enough : input.length ≤ bound) : skipWithin bound input = .done () left := by
  have longer := (extends_skipWithin enough skipped).2 [] nofun
  rwa [List.append_nil, List.append_nil] at longer

theorem skip_blank {input left : List UInt8} (skipped : skip (input.dropWhile isSpace) = .done () left) :
    skip input = .done () left :=
  skipWithin_blank (skipWithin_of_skip skipped (List.dropWhile_suffix _).length_le)

theorem Next.shorter {mark : UInt8} {input left : List UInt8} (seen : Next mark input left) :
    left.length < input.length := by
  have shorter := (List.dropWhile_suffix isSpace (l := input)).length_le
  rw [seen] at shorter
  exact shorter

theorem Next.here {mark : UInt8} (visible : isSpace mark = false) (rest : List UInt8) :
    Next mark (mark :: rest) rest :=
  List.dropWhile_cons_of_neg (by simp [visible])

theorem Next.again {mark : UInt8} {rest left : List UInt8} (visible : isSpace mark = false)
    (seen : Next mark (mark :: rest) left) : left = rest := by
  rw [Next, List.dropWhile_cons_of_neg (by simp [visible])] at seen
  exact (List.cons.inj seen).2.symm

/-- A bracket that closes is no value. -/
theorem Next.of_skip {input left : List UInt8} (skipped : skip input = .done () left) :
    ∃ octet rest, Next octet input rest ∧ octet ≠ 93 := by
  have skipped := skipWithin_of_skip skipped (Nat.le_succ _)
  unfold skipWithin at skipped
  obtain ⟨mark, rest, seen, read⟩ := Next.of_ahead (fails_failAhead _ _) skipped
  refine ⟨mark, rest, seen, ?_⟩
  rintro rfl
  cases read

/-- The items of a list up to its bracket are passed over one by one. -/
inductive Listed : Bool → List UInt8 → List UInt8 → Prop
  | ends {first : Bool} {input left : List UInt8} (seen : Next 93 input left) : Listed first input left
  | first {input behind left : List UInt8} (skipped : skip (input.dropWhile isSpace) = .done () behind)
      (others : Listed false behind left) : Listed true input left
  | next {input item behind left : List UInt8} (comma : Next 44 input item)
      (skipped : skip (item.dropWhile isSpace) = .done () behind) (others : Listed false behind left) :
      Listed false input left

/-- The members of an object up to its bracket are passed over one by one. -/
inductive Membered : Bool → List UInt8 → List UInt8 → Prop
  | ends {first : Bool} {input left : List UInt8} (seen : Next 125 input left) : Membered first input left
  | member {first : Bool} {input middle colon value behind left : List UInt8}
      (more : MoreMembers first input true middle) (key : bounded skipString middle = .done () colon)
      (seen : Next 58 colon value) (skipped : skip value = .done () behind) (others : Membered false behind left) :
      Membered first input left

private theorem skipItems_of_listed {input behind left : List UInt8} (listed : Listed false behind left)
    (skipped : skip input = .done () behind) {bound levels : Nat} (enough : input.length ≤ bound)
    (deep : input.length ≤ levels) : skipItems (skipWithin levels) bound input = .done () left := by
  cases bound with
  | zero =>
    cases List.eq_nil_of_length_eq_zero (Nat.le_zero.mp enough)
    cases skipped
  | succ bound =>
    unfold skipItems
    rw [bind_of_done (skipWithin_of_skip skipped deep)]
    have shorter := (extends_skip skipped).1
    cases listed with
    | ends seen => exact ahead_of_next seen _
    | next comma skipped others =>
      refine (ahead_of_next comma _).trans ?_
      change (skipOne >>= _) _ = _
      rw [skipOne_bind]
      have inside := comma.shorter
      exact skipItems_of_listed others (skip_blank skipped) (by omega) (by omega)

private theorem skipMembers_of_membered {input middle colon value behind left : List UInt8}
    (quote : Next 34 input middle)
    (key : bounded skipString middle = .done () colon) (seen : Next 58 colon value)
    (skipped : skip value = .done () behind) (others : Membered false behind left) {bound levels : Nat}
    (enough : input.length ≤ bound) (deep : input.length ≤ levels) :
    skipMembers (skipWithin levels) bound input = .done () left := by
  have inside := quote.shorter
  have shorter := (Extends.bounded (fun _ _ le => extends_skipString le) key).1
  have inner := seen.shorter
  have shorter' := (extends_skip skipped).1
  cases bound with
  | zero => omega
  | succ bound =>
    unfold skipMembers
    refine (ahead_of_next quote _).trans ((bind_of_done key _).trans ?_)
    rw [bind_of_done (colon_eq_done.mpr seen), bind_of_done (skipWithin_of_skip skipped (by omega))]
    cases others with
    | ends seen => exact ahead_of_next seen _
    | member more key seen skipped others =>
      cases more with
      | continues comma quote =>
        refine (ahead_of_next comma _).trans ?_
        change (skipOne >>= _) _ = _
        rw [skipOne_bind]
        have := comma.shorter
        exact skipMembers_of_membered quote key seen skipped others (by omega) (by omega)

/-- What stands behind the bracket of a list. -/
def skipList (item : Reader Unit) : Reader Unit := do
  match ← ahead with
  | none => failAhead .listEnds
  | some ']' => skipOne
  | some _ => bounded (skipItems item)

/-- What stands behind the bracket of an object. -/
def skipObject (item : Reader Unit) : Reader Unit := do
  match ← ahead with
  | none => failAhead .objectEnds
  | some '\x7d' => skipOne
  | some _ => bounded (skipMembers item)

private theorem skip_list (input : List UInt8) : skip (91 :: input) = skipList (skipWithin input.length) input := rfl

private theorem skip_object (input : List UInt8) :
    skip (123 :: input) = skipObject (skipWithin input.length) input := rfl

theorem skip_of_listed {input left : List UInt8} (listed : Listed true input left) :
    skip (91 :: input) = .done () left := by
  rw [skip_list]
  cases listed with
  | ends seen => exact ahead_of_next seen _
  | first skipped others =>
    obtain ⟨octet, rest, seen, item⟩ := Next.of_skip skipped
    rw [Next, dropWhile_again] at seen
    refine (ahead_of_next seen _).trans ?_
    rw [seen] at skipped
    change Takes _ _ _ _
    split
    next => contradiction
    next list => exact absurd (eq_of_character (Option.some.inj list) rfl) item
    next => exact skipItems_of_listed others skipped (Nat.le_refl _) (Next.shorter seen)

theorem skip_of_membered {input left : List UInt8} (membered : Membered true input left) :
    skip (123 :: input) = .done () left := by
  rw [skip_object]
  cases membered with
  | ends seen => exact ahead_of_next seen _
  | member more key seen skipped others =>
    cases more with
    | starts quote =>
      refine (ahead_of_next quote _).trans ?_
      exact skipMembers_of_membered (.here rfl _) key seen skipped others (Nat.le_refl _) quote.shorter

/-- An item that is passed over stands where a list goes on. -/
theorem MoreItems.listed {first : Bool} {input middle behind left : List UInt8}
    (more : MoreItems first input true middle) (skipped : skip middle = .done () behind)
    (others : Listed false behind left) : Listed first input left := by
  cases more with
  | starts seen item => exact .first (seen ▸ skipped) others
  | continues comma seen item => exact .next comma (seen ▸ skipped) others

private theorem listed_of_items {item : Reader α} (passes : Follows skip item) {n : Nat} {first : Bool}
    {input stop left : List UInt8} {values : List α} (read : items item first n input = .done values stop)
    (closed : closeList stop = .done () left) : Listed first input left := by
  induction n generalizing first input values with
  | zero => cases read
  | succ n ih =>
    obtain ⟨more, middle, goes, read⟩ := bind_eq_done.mp read
    have goes := moreItems_eq_done.mp goes
    cases more with
    | false =>
      cases read
      cases goes with
      | ends seen =>
        cases (closeList_eq_done.mp closed).again rfl
        exact .ends seen
    | true =>
      obtain ⟨value, behind, first, read⟩ := bind_eq_done.mp read
      obtain ⟨values, rest, others, done⟩ := bind_eq_done.mp read
      cases done
      obtain ⟨_, skipped⟩ := passes first
      exact goes.listed skipped (ih others)

private theorem membered_of_members {step : String → σ → Reader σ}
    (passes : ∀ name state, Follows (colon >>= fun _ => skip) (step name state)) {n : Nat} {first : Bool}
    {input stop left : List UInt8} {state final : σ}
    (read : members string step first state n input = .done final stop)
    (closed : closeObject stop = .done () left) : Membered first input left := by
  induction n generalizing first input state with
  | zero => cases read
  | succ n ih =>
    obtain ⟨more, middle, goes, read⟩ := bind_eq_done.mp read
    have goes := moreMembers_eq_done.mp goes
    cases more with
    | false =>
      cases read
      cases goes with
      | ends seen =>
        cases (closeObject_eq_done.mp closed).again rfl
        exact .ends seen
    | true =>
      obtain ⟨name, behind, key, read⟩ := bind_eq_done.mp read
      obtain ⟨state, rest, stepped, others⟩ := bind_eq_done.mp read
      obtain ⟨_, skipped⟩ := passes _ _ stepped
      obtain ⟨_, value, seen, skipped⟩ := bind_eq_done.mp skipped
      obtain ⟨_, key⟩ := follows_string key
      exact .member goes key (colon_eq_done.mp seen) skipped (ih others)

theorem skip_of_list {item : Reader α} (passes : Follows skip item) {input left : List UInt8} {values : List α}
    (read : list item (91 :: input) = .done values left) : skip (91 :: input) = .done () left := by
  obtain ⟨_, _, skipped, read⟩ := bind_eq_done.mp read
  cases skipped
  obtain ⟨stop, body, closed⟩ := enclosed_eq_done.mp read
  exact skip_of_listed (listed_of_items passes body closed)

theorem skip_of_object {step : String → σ → Reader σ}
    (passes : ∀ name state, Follows (colon >>= fun _ => skip) (step name state)) {input left : List UInt8}
    {state final : σ} (read : object step state (123 :: input) = .done final left) :
    skip (123 :: input) = .done () left := by
  obtain ⟨_, _, skipped, read⟩ := bind_eq_done.mp read
  cases skipped
  obtain ⟨stop, body, closed⟩ := enclosed_eq_done.mp read
  exact skip_of_membered (membered_of_members passes body closed)

theorem skip_string (input : List UInt8) : skip (34 :: input) = bounded skipString input := rfl

theorem visible_of_isDigit {octet : UInt8} : isDigit octet = true → isSpace octet = false :=
  forall_octet (p := fun octet => isDigit octet = true → isSpace octet = false) (by decide +kernel) octet

theorem skip_digit {octet : UInt8} (digit : isDigit octet = true) {input left : List UInt8}
    (skipped : skipNumber (octet :: input) = .done () left) : skip (octet :: input) = .done () left := by
  change skipWithin (input.length + 1) (octet :: input) = _
  unfold skipWithin
  rw [ahead_of_next (.here (visible_of_isDigit digit) _)]
  rw [isDigit_eq] at digit
  change Takes _ _ _ _
  generalize character octet = c at digit
  split
  case h_1 => contradiction
  case h_9 same =>
    cases same
    rw [if_pos digit]
    exact skipped
  all_goals
    rename_i same
    rw [Option.some.inj same] at digit
    exact absurd digit (by decide)

theorem skip_of_number {octet : UInt8} {input left : List UInt8} {value : Json}
    (start : character octet = '-' ∨ (character octet).isDigit = true)
    (read : number (octet :: input) = .done value left) : skip (octet :: input) = .done () left := by
  obtain ⟨_, skipped⟩ := follows_number read
  unfold skipSigned at skipped
  rw [peek_bind] at skipped
  change Takes _ _ _ _ at skipped
  split at skipped
  next minus =>
    cases eq_of_character (k := 45) (Option.some.inj minus) rfl
    exact skipped
  next no_minus =>
    obtain minus | digit := start
    · exact absurd (congrArg some minus) no_minus
    · exact skip_digit (by rwa [isDigit_eq]) skipped

theorem word_of_startingWith {letters : List Char} {found value : α} {octet : UInt8} {input left : List UInt8}
    (read : (do skipOne; word letters; return found : Reader α) (octet :: input) = .done value left) :
    value = found ∧ word letters input = .done () left := by
  obtain ⟨_, _, skipped, read⟩ := bind_eq_done.mp read
  cases skipped
  obtain ⟨_, _, letters, read⟩ := bind_eq_done.mp read
  cases read
  exact ⟨rfl, letters⟩

/-- A value by its first character. -/
theorem skip_of_startingWith {list object : Reader Json} {octet : UInt8} {input left : List UInt8} {value : Json}
    (lists : ∀ value, list (91 :: input) = .done value left → skip (91 :: input) = .done () left)
    (objects : ∀ value, object (123 :: input) = .done value left → skip (123 :: input) = .done () left)
    (read : startingWith list object (character octet) (octet :: input) = .done value left) :
    skip (octet :: input) = .done () left := by
  unfold startingWith at read
  change Takes _ _ _ _ at read
  split at read
  next letter =>
    cases eq_of_character (k := 110) letter rfl
    exact (word_of_startingWith read).2
  next letter =>
    cases eq_of_character (k := 116) letter rfl
    exact (word_of_startingWith read).2
  next letter =>
    cases eq_of_character (k := 102) letter rfl
    exact (word_of_startingWith read).2
  next quote =>
    cases eq_of_character (k := 34) quote rfl
    obtain ⟨_, _, skipped, read⟩ := bind_eq_done.mp read
    cases skipped
    obtain ⟨text, _, string, read⟩ := bind_eq_done.mp read
    cases read
    obtain ⟨_, skipped⟩ := follows_string string
    exact skipped
  next bracket =>
    cases eq_of_character (k := 91) bracket rfl
    exact lists value read
  next brace =>
    cases eq_of_character (k := 123) brace rfl
    exact objects value read
  next =>
    split at read
    next start => exact skip_of_number start read
    next => cases read

private theorem skip_of_start {list object : Reader Json} {input left : List UInt8} {value : Json}
    (lists : ∀ input value, list (91 :: input) = .done value left → skip (91 :: input) = .done () left)
    (objects : ∀ input value, object (123 :: input) = .done value left → skip (123 :: input) = .done () left)
    (read : Reader.value.start list object input = .done value left) : skip input = .done () left := by
  obtain ⟨mark, rest, seen, read⟩ := Next.of_ahead (fails_failAhead _ _) read
  have skipped := skip_of_startingWith (lists rest) (objects rest) read
  rw [← seen] at skipped
  exact skip_blank skipped

theorem passes_value (depth : Nat) : Follows skip (value depth) := by
  induction depth with
  | zero =>
    have deep : Fails (failAhead .tooDeep : Reader Json) := fails_failAhead _
    exact fun _ _ _ read => ⟨(), skip_of_start (fun _ _ => deep.skipped) (fun _ _ => deep.skipped) read⟩
  | succ depth ih =>
    refine fun _ _ _ read => ⟨(), skip_of_start (fun input value read => ?_) (fun input value read => ?_) read⟩
    · obtain ⟨items, _, read, done⟩ := bind_eq_done.mp read
      cases done
      exact skip_of_list ih read
    · obtain ⟨members, _, read, done⟩ := bind_eq_done.mp read
      cases done
      exact skip_of_object (fun key members => .after fun _ => ih.still fun value => .pure _) read

end LedgerClient.Json.Reader
