import LedgerClient.Proofs.ReaderLocality

/-! Numbers, strings and whole values are read, and passed over, without regard to
what stands behind them. -/

namespace LedgerClient.Json.Reader
open Percent (forall_octet)

theorem isDigit_eq (octet : UInt8) : isDigit octet = (character octet).isDigit :=
  forall_octet (p := fun octet => isDigit octet = (character octet).isDigit) (by decide +kernel) octet

theorem isDigit_of_closing {octet : UInt8} : Closing (character octet) → isDigit octet = false :=
  forall_octet (p := fun octet => Closing (character octet) → isDigit octet = false) (by decide +kernel) octet

private theorem Ends.noDigits {rest : List UInt8} (ends : Ends rest) :
    rest.takeWhile isDigit = [] ∧ rest.dropWhile isDigit = rest := by
  cases rest with
  | nil => exact ⟨rfl, rfl⟩
  | cons octet rest => simp [isDigit_of_closing ends.closing]

theorem dropWhile_isDigit_append (input : List UInt8) {rest : List UInt8} (ends : Ends rest) :
    (input ++ rest).dropWhile isDigit = input.dropWhile isDigit ++ rest := by
  rw [List.dropWhile_append, ends.noDigits.2]
  split
  next none => rw [List.isEmpty_iff.mp none, List.nil_append]
  next => rfl

theorem takeWhile_isDigit_append (input : List UInt8) {rest : List UInt8} (ends : Ends rest) :
    (input ++ rest).takeWhile isDigit = input.takeWhile isDigit := by
  rw [List.takeWhile_append, ends.noDigits.1]
  split
  next all =>
    rw [List.append_nil]
    exact ((List.takeWhile_prefix isDigit).eq_of_length all).symm
  next => rfl

private theorem extends_digits : Extends digits digits := by
  intro input value left read
  cases read
  refine ⟨(List.dropWhile_suffix _).length_le, fun rest ends => ?_⟩
  rw [digits, takeWhile_isDigit_append input ends, dropWhile_isDigit_append input ends]

/-- Whatever becomes of the exponent, its digits are taken. -/
theorem exponentDigits_left {tooLarge : Bool} {n : Nat} {input left : List UInt8} {value : Option Nat}
    (read : exponentDigits tooLarge n input = .done value left) : left = input.dropWhile isDigit := by
  induction input generalizing n with
  | nil =>
    cases read
    rfl
  | cons octet input ih =>
    rw [exponentDigits] at read
    rw [List.dropWhile_cons, isDigit]
    generalize digit? octet = found at read ⊢
    cases found with
    | none =>
      cases read
      rfl
    | some digit =>
      dsimp only [Option.isSome_some] at read ⊢
      split at read
      · exact ih read
      · split at read
        · cases read
        · cases read
          rfl

private theorem extends_exponentDigits (tooLarge : Bool) (n : Nat) :
    Extends (exponentDigits tooLarge n) (exponentDigits tooLarge n) := by
  intro input value left read
  refine ⟨exponentDigits_left read ▸ (List.dropWhile_suffix _).length_le, fun rest ends => ?_⟩
  induction input generalizing n with
  | nil =>
    cases read
    cases rest with
    | nil => rfl
    | cons octet rest =>
      have none := isDigit_of_closing ends.closing
      rw [isDigit, Option.isSome_eq_false_iff, Option.isNone_iff_eq_none] at none
      simp only [List.nil_append, exponentDigits, none]
  | cons octet input ih =>
    rw [exponentDigits] at read
    rw [List.cons_append, exponentDigits]
    generalize digit? octet = found at read ⊢
    cases found with
    | none =>
      cases read
      rfl
    | some digit =>
      dsimp only at read ⊢
      split at read
      next small => rw [if_pos small, ih _ read]
      next large =>
        split at read
        · cases read
        next fits =>
          cases read
          rw [if_neg large, if_neg fits, dropWhile_isDigit_append input ends]

private theorem ExtendsInside.skipIf {reader longer : Reader α} (p : Prop) [Decidable p]
    (behind : Extends reader longer) :
    ExtendsInside (if p then skipOne >>= fun _ => reader else reader)
      (if p then skipOne >>= fun _ => longer else longer) := by
  split
  · exact extends_skipOne.bind fun _ => behind
  · exact behind.inside

private theorem extends_exponent (zero : Bool) : Extends (exponent zero) (exponent zero) := by
  refine .peekOrEnd (Closing.cases rfl rfl rfl rfl rfl rfl rfl) ?_ fun sign => .skipIf _ ?_
  all_goals
    refine .next (fails_failHere _ _) fun c => ?_
    dsimp only
    split
    · exact (extends_exponentDigits _ _).bind fun n => .pure _
    · exact (fails_failHere _).extends _

private theorem extends_wholeDigits : Extends wholeDigits wholeDigits := by
  refine .peek (fails_failHere _ _) fun c => ?_
  split
  next => cases ‹some c = none›
  next =>
    refine extends_skipOne.bind fun _ => .peekOrEnd (Closing.cases rfl rfl rfl rfl rfl rfl rfl)
      (.pure [0]) fun c => ?_
    dsimp only
    split
    · exact (fails_failAhead _).extendsInside _
    · exact (Extends.pure [0]).inside
  next =>
    split
    · exact extends_digits.inside
    · exact (Fails.after fun _ => fails_failHere _).extendsInside _

private theorem extends_inexact (negative : Bool) (significand : Nat) (power : Int) :
    Extends (inexact negative significand power) (inexact negative significand power) := by
  have finish (power : Int) : Extends (inexact.finish negative significand power)
      (inexact.finish negative significand power) := by
    unfold inexact.finish
    split
    · exact .pure _
    · exact (fails_failHere _).extends _
  refine .peekOrEnd (Closing.cases rfl rfl rfl rfl rfl rfl rfl) (finish power) fun letter => ?_
  split
  · refine extends_skipOne.bind fun _ => (extends_exponent _).bind fun e => ?_
    split
    · exact .pure _
    · exact finish _
  · exact (finish power).inside

theorem extends_number : Extends number number := by
  refine .peekOrEnd (Closing.cases rfl rfl rfl rfl rfl rfl rfl) ?_ fun sign => .skipIf _ ?_
  all_goals
    refine extends_wholeDigits.bind fun whole => ?_
    refine .peekOrEnd (Closing.cases rfl rfl rfl rfl rfl rfl rfl) ?_ fun c => ?_
    · dsimp only
      split
      · exact .pure _
      · exact (fails_failHere _).extends _
    · split
      next =>
        refine extends_skipOne.bind fun _ => extends_digits.bind fun fraction => ?_
        split
        · refine (Fails.after fun c => ?_).extends _
          split <;> exact fails_failAhead _
        · exact extends_inexact _ _ _
      next => exact (extends_inexact _ _ _).inside
      next => exact (extends_inexact _ _ _).inside
      next =>
        split
        · exact (Extends.pure _).inside
        · exact (fails_failHere _).extendsInside _

theorem extends_fourHex : Extends fourHex fourHex := by
  intro input value left read
  unfold fourHex at read
  split at read
  next a b c d behind =>
    simp only [List.cons_append, fourHex]
    generalize hexDigit? a = a, hexDigit? b = b, hexDigit? c = c, hexDigit? d = d at read ⊢
    split at read
    next =>
      cases read
      exact ⟨by simp only [List.length_cons]; omega, fun _ _ => rfl⟩
    next => cases read
  next => cases read

private theorem extends_secondHalf (c : Char) : Extends (secondHalf c) (secondHalf c) := by
  refine .next (fails_failHere _ _) fun d => ?_
  dsimp only
  split
  · exact .pure ()
  · exact (fails_failHere _).extends _

private theorem extends_numbered : Extends numbered numbered := by
  refine extends_fourHex.bind fun high => ?_
  split
  · exact (fails_failHere _).extends _
  · split
    · exact .pure _
    · refine (extends_secondHalf _).bind fun _ => (extends_secondHalf _).bind fun _ =>
      extends_fourHex.bind fun low => ?_
      split
      · exact (fails_failHere _).extends _
      · exact .pure _

private theorem extends_escape : Extends escape escape := by
  refine .next (fails_failHere _ _) fun c => ?_
  split
  case h_1 => exact (fails_failHere _).extends _
  case h_10 => exact extends_numbered
  case h_11 => exact (fails_failHere _).extends _
  all_goals exact .pure _

/-- What is taken as plain stands in front of an octet that is not. -/
theorem plain_eq_done {input left : List UInt8} {text : List Char} (read : plain input = .done text left) :
    input.dropWhile isPlain = left ∧ Utf8.decode? (input.takeWhile isPlain) = some text ∧
      ∃ stop behind, left = stop :: behind ∧ ¬stop < 0x20 := by
  unfold plain at read
  dsimp only at read
  split at read
  next => cases read
  next stop behind found =>
    split at read
    · cases read
    next fits =>
      split at read
      next same =>
        cases read
        exact ⟨found, same, stop, behind, rfl, fits⟩
      next => cases read

theorem plain_of_parts {taken behind : List UInt8} {stop : UInt8} {text : List Char}
    (inside : ∀ octet ∈ taken, isPlain octet = true) (stops : isPlain stop = false) (fits : ¬stop < 0x20)
    (same : Utf8.decode? taken = some text) : plain (taken ++ stop :: behind) = .done text (stop :: behind) := by
  unfold plain
  dsimp only
  have last : ¬isPlain stop = true := by simp [stops]
  rw [List.takeWhile_append_of_pos inside, List.dropWhile_append_of_pos inside, List.takeWhile_cons_of_neg last,
    List.dropWhile_cons_of_neg last, List.append_nil]
  dsimp only
  rw [if_neg fits, same]

private theorem extends_plain : Extends plain plain := by
  intro input value left read
  obtain ⟨found, same, stop, behind, rfl, fits⟩ := plain_eq_done read
  refine ⟨found ▸ (List.dropWhile_suffix _).length_le, fun rest _ => ?_⟩
  have stops : isPlain stop = false := by
    have head := List.head?_dropWhile_not isPlain input
    rw [found] at head
    simpa using head
  have parted := List.takeWhile_append_dropWhile (p := isPlain) (l := input)
  rw [found] at parted
  rw [← parted, List.append_assoc]
  exact plain_of_parts (List.all_eq_true.mp List.all_takeWhile) stops fits same

private theorem extends_characters {bound larger : Nat} (le : bound ≤ larger) :
    Extends (characters bound) (characters larger) := by
  induction bound generalizing larger with
  | zero => exact (fails_failHere _).extends _
  | succ bound ih =>
    obtain ⟨larger, rfl⟩ := Nat.exists_eq_add_of_lt le
    refine extends_plain.bindInside (fun input text read => ?_) fun text => .next fun c => ?_
    · obtain ⟨stop, behind, same, -⟩ := (plain_eq_done read).2.2
      cases same
    · split
      · exact extends_escape.bind fun c => (ih (by omega)).bind fun text => .pure _
      · exact .pure _

theorem extends_string : Extends string string :=
  Extends.bind (.bounded fun _ _ le => extends_characters le) fun _ => .pure _

theorem extends_startingWith {list object : Reader Json} (lists : ExtendsInside list list)
    (objects : ExtendsInside object object) (c : Char) :
    ExtendsInside (startingWith list object c) (startingWith list object c) := by
  unfold startingWith
  split
  · exact extends_skipOne.bind fun _ => (extends_word _).bind fun _ => .pure _
  · exact extends_skipOne.bind fun _ => (extends_word _).bind fun _ => .pure _
  · exact extends_skipOne.bind fun _ => (extends_word _).bind fun _ => .pure _
  · exact extends_skipOne.bind fun _ => extends_string.bind fun _ => .pure _
  · exact lists
  · exact objects
  · split
    · exact extends_number.inside
    · exact (fails_failAhead _).extendsInside _

theorem extends_list {item : Reader α} (items : Extends item item) : ExtendsInside (list item) (list item) :=
  extends_skipOne.bind fun _ => .enclosed (.bounded fun _ _ le => extends_items items true le) extends_closeList

theorem extends_object {step : String → σ → Reader σ}
    (steps : ∀ name state, Extends (step name state) (step name state)) (state : σ) :
    ExtendsInside (object step state) (object step state) :=
  extends_skipOne.bind fun _ =>
    .enclosed (.bounded fun _ _ le => extends_members extends_string steps true state le) extends_closeObject

private theorem extends_start {list object : Reader Json} (lists : ExtendsInside list list)
    (objects : ExtendsInside object object) : Extends (value.start list object) (value.start list object) :=
  .ahead (fails_failAhead _ _) fun c => extends_startingWith lists objects c

theorem extends_value (depth : Nat) : Extends (value depth) (value depth) := by
  induction depth with
  | zero => exact extends_start ((fails_failAhead _).extendsInside _) ((fails_failAhead _).extendsInside _)
  | succ depth ih =>
    refine extends_start ((extends_list ih).bind fun items => .pure _) (ExtendsInside.bind ?_ fun members => .pure _)
    exact extends_object (fun key members => extends_colon.bind fun _ => ih.bind fun value => .pure _) []

theorem extends_skipString {bound larger : Nat} (le : bound ≤ larger) :
    Extends (skipString bound) (skipString larger) := by
  induction bound generalizing larger with
  | zero => exact (fails_failHere _).extends _
  | succ bound ih =>
    obtain ⟨larger, rfl⟩ := Nat.exists_eq_add_of_lt le
    have behind : Extends (skipString bound) (skipString (bound + larger)) := ih (by omega)
    refine .peek (fails_failHere _ _) fun c => ?_
    split
    next => cases ‹some c = none›
    next => exact extends_skipOne
    next =>
      refine extends_skipOne.bind fun _ => .next (Fails.bind (fails_failHere _) _ _) fun c => ?_
      split
      next => cases ‹some c = none›
      next => exact extends_fourHex.bind fun _ => behind
      next =>
        split
        · exact behind
        · exact (Fails.bind (fails_failHere _) _).extends _
    next =>
      split
      · exact (fails_failHere _).extendsInside _
      · exact extends_skipOne.bind fun _ => behind

private theorem extends_skipExponent : Extends skipExponent skipExponent := by
  refine .peekOrEnd (Closing.cases rfl rfl rfl rfl rfl rfl rfl) ?_ fun sign => .skipIf _ ?_
  all_goals
    refine .next (fails_failHere _ _) fun c => ?_
    dsimp only
    split
    · exact extends_digits.bind fun _ => .pure ()
    · exact (fails_failHere _).extends _

/-- The digits in front of the point. -/
def skipWhole : Reader Unit := do
  match ← next with
  | some '0' =>
    match ← peek with
    | some c => if c.isDigit then failAhead .badNumber
    | none => pure ()
  | some c => if c.isDigit then do let _ ← digits else failHere .badNumber
  | none => failHere .badNumber

def skipPower : Reader Unit := do
  match ← peek with
  | some 'e' | some 'E' => do skipOne; skipExponent
  | _ => pure ()

/-- What may stand behind the whole digits of a number. -/
def skipFraction : Reader Unit := do
  match ← peek with
  | some '.' =>
    skipOne
    if (← digits).isEmpty then failAhead .badNumber
    skipPower
  | some 'e' | some 'E' => do skipOne; skipExponent
  | _ => pure ()

instance : LawfulMonad Reader := LawfulMonad.mk' Reader
  (fun reader => by
    funext input
    simp only [Functor.map]
    cases reader input <;> rfl)
  (fun _ _ => rfl)
  (fun reader next last => by
    funext input
    simp only [bind]
    cases reader input <;> rfl)

theorem skipNumber_eq : skipNumber = skipWhole >>= fun _ => skipFraction := by
  unfold skipNumber skipWhole
  rw [bind_assoc]
  congr 1
  funext c
  rcases c with _ | c
  · rfl
  by_cases zero : c = '0'
  · subst zero
    change _ = (peek >>= _) >>= _
    rw [bind_assoc]
    change peek >>= _ = _
    congr 1
    funext d
    cases d with
    | none => rfl
    | some d =>
      dsimp only
      split <;> rfl
  · simp only
    split <;> rfl

private theorem extends_skipWhole : Extends skipWhole skipWhole := by
  refine .next (fails_failHere _ _) fun c => ?_
  split
  next =>
    refine .peekOrEnd (Closing.cases rfl rfl rfl rfl rfl rfl rfl) (.pure ()) fun d => ?_
    dsimp only
    split
    · exact (fails_failAhead _).extendsInside _
    · exact (Extends.pure ()).inside
  next =>
    split
    · exact extends_digits.bind fun _ => .pure ()
    · exact (fails_failHere _).extends _
  next => exact (fails_failHere _).extends _

private theorem extends_skipPower : Extends skipPower skipPower := by
  refine .peekOrEnd (Closing.cases rfl rfl rfl rfl rfl rfl rfl) (.pure ()) fun c => ?_
  split
  · exact extends_skipOne.bind fun _ => extends_skipExponent
  · exact extends_skipOne.bind fun _ => extends_skipExponent
  · exact (Extends.pure ()).inside

private theorem extends_skipFraction : Extends skipFraction skipFraction := by
  refine .peekOrEnd (Closing.cases rfl rfl rfl rfl rfl rfl rfl) (.pure ()) fun c => ?_
  split
  · refine extends_skipOne.bind fun _ => extends_digits.bind fun fraction => ?_
    dsimp only
    split
    · exact (Fails.bind (fails_failAhead _) _).extends _
    · exact extends_skipPower
  · exact extends_skipOne.bind fun _ => extends_skipExponent
  · exact extends_skipOne.bind fun _ => extends_skipExponent
  · exact (Extends.pure ()).inside

private theorem extends_skipNumber : Extends skipNumber skipNumber := by
  rw [skipNumber_eq]
  exact extends_skipWhole.bind fun _ => extends_skipFraction

private theorem extends_skipItems {item longer : Reader Unit} (items : Extends item longer) {bound larger : Nat}
    (le : bound ≤ larger) : Extends (skipItems item bound) (skipItems longer larger) := by
  induction bound generalizing larger with
  | zero => exact (fails_failAhead _).extends _
  | succ bound ih =>
    obtain ⟨larger, rfl⟩ := Nat.exists_eq_add_of_lt le
    refine items.bind fun _ => .ahead (fails_failAhead _ _) fun c => ?_
    split
    next => exact (fails_failAhead _).extendsInside _
    next => exact extends_skipOne
    next => exact extends_skipOne.bind fun _ => ih (by omega)
    next => exact (fails_failAhead _).extendsInside _

private theorem extends_skipMembers {item longer : Reader Unit} (items : Extends item longer) {bound larger : Nat}
    (le : bound ≤ larger) : Extends (skipMembers item bound) (skipMembers longer larger) := by
  induction bound generalizing larger with
  | zero => exact (fails_failAhead _).extends _
  | succ bound ih =>
    obtain ⟨larger, rfl⟩ := Nat.exists_eq_add_of_lt le
    refine .ahead (Fails.bind (fails_failAhead _) _ _) fun c => ?_
    split
    next => cases ‹some c = none›
    next =>
      refine extends_skipOne.bind fun _ => Extends.bind (.bounded fun _ _ le => extends_skipString le) fun _ => ?_
      refine extends_colon.bind fun _ => items.bind fun _ => .ahead (fails_failAhead _ _) fun c => ?_
      split
      next => exact (fails_failAhead _).extendsInside _
      next => exact extends_skipOne
      next => exact extends_skipOne.bind fun _ => ih (by omega)
      next => exact (fails_failAhead _).extendsInside _
    next => exact (Fails.bind (fails_failAhead _) _).extendsInside _

theorem extends_skipWithin {bound larger : Nat} (le : bound ≤ larger) :
    Extends (skipWithin bound) (skipWithin larger) := by
  induction bound generalizing larger with
  | zero => exact (fails_failAhead _).extends _
  | succ bound ih =>
    obtain ⟨larger, rfl⟩ := Nat.exists_eq_add_of_lt le
    have inner : Extends (skipWithin bound) (skipWithin (bound + larger)) := ih (by omega)
    refine .ahead (fails_failAhead _ _) fun c => ?_
    split
    next => cases ‹some c = none›
    next => exact extends_skipOne.bind fun _ => extends_word _
    next => exact extends_skipOne.bind fun _ => extends_word _
    next => exact extends_skipOne.bind fun _ => extends_word _
    next => exact extends_skipOne.bind fun _ => .bounded fun _ _ le => extends_skipString le
    next => exact extends_skipOne.bind fun _ => extends_skipNumber
    next =>
      refine extends_skipOne.bind fun _ => .ahead (fails_failAhead _ _) fun c => ?_
      split
      next => cases ‹some c = none›
      next => exact extends_skipOne
      next => exact Extends.inside (.bounded fun _ _ le => extends_skipItems inner le)
    next =>
      refine extends_skipOne.bind fun _ => .ahead (fails_failAhead _ _) fun c => ?_
      split
      next => cases ‹some c = none›
      next => exact extends_skipOne
      next => exact Extends.inside (.bounded fun _ _ le => extends_skipMembers inner le)
    next =>
      split
      · exact extends_skipNumber.inside
      · exact (fails_failAhead _).extendsInside _

theorem extends_skip : Extends skip skip := .bounded fun _ _ le => extends_skipWithin le

end LedgerClient.Json.Reader
