import LedgerClient.Proofs.StringReading

/-! Strings and numbers told from what was read: a string from its spelling, and a number
from its own digits, whatever stands behind them. -/

namespace LedgerClient.Json.Reader
open Grammar

theorem hex_of_fourHex {input left : List UInt8} {n : Nat} (read : fourHex input = .done n left) :
    ∃ digits, Hex digits n ∧ input = digits ++ left := by
  unfold fourHex at read
  split at read
  next a b c d rest =>
    split at read
    next first second third fourth =>
      cases read
      exact ⟨_, .digits first second third fourth, rfl⟩
    next => cases read
  next => cases read

/-- A character by its number, of one part or of two, as the strings have it that start with it. -/
theorem spells_of_numbered {input left : List UInt8} {c : Char} (read : numbered input = .done c left) :
    ∃ front, input = front ++ left ∧
      ∀ body text, Spells body text → Spells (92 :: 117 :: (front ++ body)) (c :: text) := by
  obtain ⟨high, rest, first, others⟩ := bind_eq_done.mp read
  obtain ⟨digits, hex, rfl⟩ := hex_of_fourHex first
  change Takes _ _ _ _ at others
  split at others
  · cases others
  next no_low =>
    split at others
    next alone =>
      cases others
      exact ⟨digits, rfl, fun body text behind => .numbered hex (by omega) behind⟩
    next leads =>
      obtain ⟨_, _, backslash, lettered⟩ := bind_eq_done.mp others
      obtain ⟨_, _, letter, numbered⟩ := bind_eq_done.mp lettered
      obtain ⟨low, behind, second, done⟩ := bind_eq_done.mp numbered
      cases secondHalf_eq_done (k := 92) (by decide) backslash
      cases secondHalf_eq_done (k := 117) (by decide) letter
      obtain ⟨digits', hex', rfl⟩ := hex_of_fourHex second
      change Takes _ _ _ _ at done
      split at done
      · cases done
      next follows =>
        obtain ⟨rfl, rfl⟩ := Outcome.done.inj done
        refine ⟨digits ++ 92 :: 117 :: digits', by simp, fun body text spelt => ?_⟩
        rw [List.append_assoc]
        exact .paired hex hex' (by omega) (by omega) spelt

private theorem spells_of_escape {input left : List UInt8} {c : Char} (read : escape input = .done c left) :
    ∃ front, input = front ++ left ∧
      ∀ body text, Spells body text → Spells (92 :: (front ++ body)) (c :: text) := by
  cases input with
  | nil => cases read
  | cons octet rest =>
    unfold escape at read
    rw [next_bind] at read
    change Takes _ _ _ _ at read
    split at read
    case h_1 => cases read
    case h_10 letter =>
      cases eq_of_character (k := 117) (Option.some.inj letter) rfl
      obtain ⟨front, rfl, spells⟩ := spells_of_numbered read
      exact ⟨117 :: front, rfl, spells⟩
    case h_11 => cases read
    all_goals
      cases read
      rename_i letter
      refine ⟨[octet], rfl, fun body text spelt => .letter ?_ spelt⟩
      rw [Option.some.inj letter]
      decide

private theorem toNat_of_encode {c : Char} {octets : List UInt8} (plain : ∀ octet ∈ String.utf8EncodeChar c ++ octets,
    isPlain octet = true) : 0x20 ≤ c.toNat ∧ c ≠ '"' ∧ c ≠ '\\' := by
  by_cases small : c.toNat < 0x80
  · rw [Utf8.encodeChar_ascii small] at plain
    have visible := isPlain_iff.mp (plain _ List.mem_cons_self)
    rw [Utf8.toNat_ofNat_of_lt (by omega)] at visible
    exact ⟨visible.1, fun quote => visible.2.1 (congrArg Char.toNat quote),
      fun backslash => visible.2.2 (congrArg Char.toNat backslash)⟩
  · exact ⟨by omega, fun quote => small (quote ▸ by decide), fun backslash => small (backslash ▸ by decide)⟩

/-- Plain octets that are a text spell it. -/
theorem spells_plain {front text : List Char} {body : List UInt8}
    (plain : ∀ octet ∈ Utf8.encode front, isPlain octet = true) (behind : Spells body text) :
    Spells (Utf8.encode front ++ body) (front ++ text) := by
  induction front with
  | nil => exact behind
  | cons c front ih =>
    rw [Utf8.encode_cons] at plain ⊢
    obtain ⟨visible, no_quote, no_backslash⟩ := toNat_of_encode plain
    rw [List.append_assoc]
    exact .plain visible no_quote no_backslash (ih (List.forall_mem_append.mp plain).2)

private theorem spells_of_characters {bound : Nat} {input left : List UInt8} {text : List Char}
    (read : characters bound input = .done text left) : ∃ body, Spells body text ∧ input = body ++ 34 :: left := by
  induction bound generalizing input text with
  | zero => cases read
  | succ bound ih =>
    rw [characters_succ] at read
    obtain ⟨front, stop, first, read⟩ := bind_eq_done.mp read
    obtain ⟨found, spelt, mark, behind, rfl, fits⟩ := plain_eq_done first
    have all : ∀ octet ∈ input.takeWhile isPlain, isPlain octet = true := List.all_eq_true.mp List.all_takeWhile
    have parted := List.takeWhile_append_dropWhile (p := isPlain) (l := input)
    rw [found, Utf8.decode?_eq_some_iff.mp spelt] at parted
    rw [Utf8.decode?_eq_some_iff.mp spelt] at all
    rw [next_bind] at read
    change Takes _ _ _ _ at read
    split at read
    next backslash =>
      cases eq_of_character (k := 92) (Option.some.inj backslash) rfl
      obtain ⟨c, _, escaped, read⟩ := bind_eq_done.mp read
      obtain ⟨others, _, last, done⟩ := bind_eq_done.mp read
      cases done
      obtain ⟨taken, rfl, spells⟩ := spells_of_escape escaped
      obtain ⟨body, behind, rfl⟩ := ih last
      refine ⟨_, spells_plain all (spells body others behind), ?_⟩
      rw [← parted]
      simp only [List.append_assoc, List.cons_append]
    next no_backslash =>
      cases read
      have stops : isPlain mark = false := by
        have head := List.head?_dropWhile_not isPlain input
        rw [found] at head
        simpa using head
      obtain rfl | rfl := mark_of_not_isPlain stops fits
      · refine ⟨_, ?_, parted.symm⟩
        have spelt := spells_plain all .nil
        rwa [List.append_nil, List.append_nil] at spelt
      · exact absurd rfl no_backslash

/-- What is read as a string spells it up to the closing quote. -/
theorem spells_of_string {input left : List UInt8} {text : String} (read : string input = .done text left) :
    ∃ body, Spells body text.toList ∧ input = body ++ 34 :: left := by
  obtain ⟨letters, _, read, done⟩ := bind_eq_done.mp read
  cases done
  obtain ⟨body, spelt, same⟩ := spells_of_characters read
  exact ⟨body, by rwa [String.toList_ofList], same⟩

/-- The reader takes nothing of what stands behind a value, and reads the same without it. -/
def Cuts (reader : Reader α) : Prop :=
  ∀ ⦃text rest value left⦄, Ends rest → reader (text ++ rest) = .done value left →
    ∃ middle, left = middle ++ rest ∧ reader text = .done value middle

/-- The same for texts in which something stands. -/
def CutsInside (reader : Reader α) : Prop :=
  ∀ ⦃octet text rest value left⦄, Ends rest → reader (octet :: (text ++ rest)) = .done value left →
    ∃ middle, left = middle ++ rest ∧ reader (octet :: text) = .done value middle

private theorem Cuts.inside {reader : Reader α} (cuts : Cuts reader) : CutsInside reader :=
  fun octet text _ _ _ ends read => @cuts (octet :: text) _ _ _ ends read

private theorem Fails.cuts {reader : Reader α} (fails : Fails reader) : Cuts reader :=
  fun _ _ _ _ _ read => absurd read (fails _ _ _)

private theorem Cuts.pure (value : α) : Cuts (pure value) := by
  intro text rest _ _ _ read
  cases read
  exact ⟨text, rfl, rfl⟩

private theorem Cuts.bind {reader : Reader α} {next : α → Reader β} (first : Cuts reader)
    (second : ∀ value, Cuts (next value)) :
    Cuts (reader >>= next) := by
  intro text rest value left ends read
  obtain ⟨here, _, before, behind⟩ := bind_eq_done.mp read
  obtain ⟨middle, rfl, cut⟩ := first ends before
  obtain ⟨last, rfl, cut'⟩ := second here ends behind
  exact ⟨last, rfl, (bind_of_done cut next).trans cut'⟩

private theorem CutsInside.bind {reader : Reader α} {next : α → Reader β} (first : CutsInside reader)
    (second : ∀ value, Cuts (next value)) : CutsInside (reader >>= next) := by
  intro octet text rest value left ends read
  obtain ⟨here, _, before, behind⟩ := bind_eq_done.mp read
  obtain ⟨middle, rfl, cut⟩ := first ends before
  obtain ⟨last, rfl, cut'⟩ := second here ends behind
  exact ⟨last, rfl, (bind_of_done cut next).trans cut'⟩

private theorem cuts_skipOne : CutsInside skipOne := by
  intro octet text rest value left _ read
  cases read
  exact ⟨text, rfl, rfl⟩

private theorem CutsInside.skipIf {reader : Reader α} (p : Prop) [Decidable p] (behind : Cuts reader) :
    CutsInside (if p then skipOne >>= fun _ => reader else reader) := by
  split
  · exact cuts_skipOne.bind fun _ => behind
  · exact behind.inside

private theorem Cuts.peekOrEnd {next : Option Char → Reader α} (closing : ∀ c, Closing c → next (some c) = next none)
    (none : Cuts (next none)) (some : ∀ c, CutsInside (next (some c))) : Cuts (Reader.peek >>= next) := by
  intro text rest value left ends read
  cases text with
  | cons octet text => exact some _ ends read
  | nil =>
    refine none ends ?_
    cases rest with
    | nil => exact read
    | cons octet rest =>
      rw [← closing _ ends.closing]
      exact read

private theorem Cuts.peek {next : Option Char → Reader α} (none : Fails (next none))
    (closing : ∀ c, Closing c → Fails (next (some c))) (some : ∀ c, CutsInside (next (some c))) :
    Cuts (Reader.peek >>= next) := by
  intro text rest value left ends read
  cases text with
  | cons octet text => exact some _ ends read
  | nil =>
    cases rest with
    | nil => exact absurd read (none _ _ _)
    | cons octet rest => exact absurd read (closing _ ends.closing _ _ _)

private theorem Cuts.next {next : Option Char → Reader α} (none : Fails (next none))
    (closing : ∀ c, Closing c → Fails (next (some c))) (some : ∀ c, Cuts (next (some c))) :
    Cuts (Reader.next >>= next) := by
  intro text rest value left ends read
  cases text with
  | cons octet text => exact some _ ends read
  | nil =>
    cases rest with
    | nil => exact absurd read (none _ _ _)
    | cons octet rest => exact absurd read (closing _ ends.closing _ _ _)

private theorem cuts_digits : Cuts digits := by
  intro text rest value left ends read
  cases read
  refine ⟨text.dropWhile isDigit, dropWhile_isDigit_append text ends, ?_⟩
  rw [takeWhile_isDigit_append text ends]
  rfl

private theorem cuts_exponentDigits (tooLarge : Bool) (n : Nat) : Cuts (exponentDigits tooLarge n) := by
  intro text rest value left ends read
  induction text generalizing n with
  | nil =>
    cases rest with
    | nil =>
      cases read
      exact ⟨[], rfl, rfl⟩
    | cons octet rest =>
      have none := isDigit_of_closing ends.closing
      rw [isDigit, Option.isSome_eq_false_iff, Option.isNone_iff_eq_none] at none
      simp only [List.nil_append, exponentDigits, none] at read
      cases read
      exact ⟨[], rfl, rfl⟩
  | cons octet text ih =>
    rw [List.cons_append, exponentDigits] at read
    rw [exponentDigits]
    generalize digit? octet = found at read ⊢
    cases found with
    | none =>
      cases read
      exact ⟨octet :: text, rfl, rfl⟩
    | some digit =>
      dsimp only at read ⊢
      split at read
      next small =>
        rw [if_pos small]
        exact ih _ read
      next large =>
        rw [if_neg large]
        split at read
        · cases read
        next fits =>
          cases read
          exact ⟨text.dropWhile isDigit, dropWhile_isDigit_append text ends, if_neg fits⟩

private theorem cuts_exponent (zero : Bool) : Cuts (exponent zero) := by
  have fails (cause : Cause) : Fails (failHere cause : Reader (Option Int)) := fails_failHere cause
  refine .peekOrEnd (Closing.cases rfl rfl rfl rfl rfl rfl rfl) ?_ fun sign => .skipIf _ ?_
  all_goals
    refine .next (fails _) (Closing.cases (fails _) (fails _) (fails _) (fails _) (fails _) (fails _) (fails _))
      fun c => ?_
    dsimp only
    split
    · exact (cuts_exponentDigits _ _).bind fun n => .pure _
    · exact (fails_failHere _).cuts

private theorem cuts_wholeDigits : Cuts wholeDigits := by
  have fails : Fails (skipOne >>= fun _ => (failHere .badNumber : Reader (List Nat))) :=
    Fails.after fun _ => fails_failHere _
  refine .peek (fails_failHere _) (Closing.cases fails fails fails fails fails fails fails) fun c => ?_
  split
  next => cases ‹some c = none›
  next =>
    refine cuts_skipOne.bind fun _ => .peekOrEnd (Closing.cases rfl rfl rfl rfl rfl rfl rfl) (.pure [0]) fun c => ?_
    dsimp only
    split
    · exact (fails_failAhead _).cuts.inside
    · exact (Cuts.pure [0]).inside
  next =>
    split
    · exact cuts_digits.inside
    · exact fails.cuts.inside

private theorem cuts_inexact (negative : Bool) (significand : Nat) (power : Int) :
    Cuts (inexact negative significand power) := by
  have finish (power : Int) : Cuts (inexact.finish negative significand power) := by
    unfold inexact.finish
    split
    · exact .pure _
    · exact (fails_failHere _).cuts
  refine .peekOrEnd (Closing.cases rfl rfl rfl rfl rfl rfl rfl) (finish power) fun letter => ?_
  split
  · refine cuts_skipOne.bind fun _ => (cuts_exponent _).bind fun e => ?_
    split
    · exact .pure _
    · exact finish _
  · exact (finish power).inside

theorem cuts_number : Cuts number := by
  refine .peekOrEnd (Closing.cases rfl rfl rfl rfl rfl rfl rfl) ?_ fun sign => .skipIf _ ?_
  all_goals
    refine cuts_wholeDigits.bind fun whole => ?_
    refine .peekOrEnd (Closing.cases rfl rfl rfl rfl rfl rfl rfl) ?_ fun c => ?_
    · dsimp only
      split
      · exact .pure _
      · exact (fails_failHere _).cuts
    · split
      next =>
        refine cuts_skipOne.bind fun _ => cuts_digits.bind fun fraction => ?_
        split
        · refine (Fails.after fun c => ?_).cuts
          split <;> exact fails_failAhead _
        · exact cuts_inexact _ _ _
      next => exact (cuts_inexact _ _ _).inside
      next => exact (cuts_inexact _ _ _).inside
      next =>
        split
        · exact (Cuts.pure _).inside
        · exact (fails_failHere _).cuts.inside

end LedgerClient.Json.Reader
