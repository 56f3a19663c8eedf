import LedgerClient.Proofs.StringReading

/-! Whole numbers as they are written in decimal: their digits give the number back, and
the reader of numbers takes every integer in range for itself. -/

namespace LedgerClient.Json.Reader
open Grammar

/-- The octets of the decimal digits of a number. -/
def numeral (n : Nat) : List UInt8 := Utf8.encode (Nat.toDigits 10 n)

private theorem encode_digit {n : Nat} (small : n < 10) :
    Utf8.encode [Nat.digitChar n] = [UInt8.ofNat (48 + n)] ∧ digit? (UInt8.ofNat (48 + n)) = some n := by
  have digits : ∀ n < 10, Utf8.encode [Nat.digitChar n] = [UInt8.ofNat (48 + n)] ∧
      digit? (UInt8.ofNat (48 + n)) = some n := by
    decide
  exact digits n small

private theorem numeral_of_lt {n : Nat} (small : n < 10) : numeral n = [UInt8.ofNat (48 + n)] := by
  rw [numeral, Nat.toDigits_of_lt_base small, (encode_digit small).1]

private theorem numeral_of_le {n : Nat} (large : 10 ≤ n) : numeral n = numeral (n / 10) ++
    [UInt8.ofNat (48 + n % 10)] := by
  rw [numeral, Nat.toDigits_of_base_le (by decide) large, Utf8.encode_append,
    (encode_digit (Nat.mod_lt n (by decide))).1, numeral]

private theorem isDigit_numeral (n : Nat) : ∀ octet ∈ numeral n, isDigit octet = true := by
  induction n using Nat.strongRecOn with
  | ind n ih =>
    have last : ∀ k < 10, isDigit (UInt8.ofNat (48 + k)) = true := fun k small => by
      rw [isDigit, (encode_digit small).2, Option.isSome_some]
    rcases Nat.lt_or_ge n 10 with small | large
    · rw [numeral_of_lt small]
      exact List.forall_mem_singleton.mpr (last n small)
    · rw [numeral_of_le large]
      exact List.forall_mem_append.mpr
        ⟨ih _ (by omega), List.forall_mem_singleton.mpr (last _ (Nat.mod_lt n (by decide)))⟩

theorem ofDigitChars_numeral (n : Nat) : Nat.ofDigitChars 10 ((numeral n).map character) 0 = n := by
  have digits : (numeral n).map character = Nat.toDigits 10 n := by
    have ascii : ∀ c ∈ Nat.toDigits 10 n, c.toNat < 0x80 := by
      intro c inside
      have digit := Nat.isDigit_of_mem_toDigits (by decide) (by decide) inside
      exact Nat.lt_of_le_of_lt (Char.isDigit_iff_toNat.mp digit).2 (by decide)
    rw [numeral, Utf8.encode_ascii ascii, List.map_map]
    refine (List.map_congr_left fun c inside => ?_).trans (List.map_id _)
    have small := ascii c inside
    rw [Function.comp_apply, character, Utf8.toNat_ofNat_of_lt (by omega), Char.ofNat_toNat]
    rfl
  rw [digits, Nat.ofDigitChars_ten_toDigits]

/-- No number but zero starts with a zero. -/
theorem head_numeral {n : Nat} (positive : 0 < n) : ∃ octet others, numeral n = octet :: others ∧ octet ≠ 48 := by
  induction n using Nat.strongRecOn with
  | ind n ih =>
    rcases Nat.lt_or_ge n 10 with small | large
    · have digits : ∀ n < 10, 0 < n → UInt8.ofNat (48 + n) ≠ 48 := by decide
      exact ⟨_, [], numeral_of_lt small, digits n small positive⟩
    · obtain ⟨octet, others, same, other⟩ := ih (n / 10) (by omega) (by omega)
      exact ⟨octet, _, by rw [numeral_of_le large, same, List.cons_append], other⟩

theorem whole_numeral (n : Nat) : Whole (numeral n) := by
  have all := isDigit_numeral n
  rcases Nat.eq_zero_or_pos n with rfl | positive
  · exact .zero
  · obtain ⟨octet, others, same, other⟩ := head_numeral positive
    rw [same] at all ⊢
    obtain ⟨first, all⟩ := List.forall_mem_cons.mp all
    exact .digits first other all

private theorem gather_append {digits : List Nat} {m k digit : Nat} (before : gather m digits = (k, 0))
    (fits : k * 10 + digit < 0x10000000000000000) : gather m (digits ++ [digit]) = (k * 10 + digit, 0) := by
  induction digits generalizing m with
  | nil =>
    cases before
    rw [List.nil_append, gather, if_pos fits, gather]
  | cons first digits ih =>
    rw [gather] at before
    split at before
    next here => rw [List.cons_append, gather, if_pos here, ih before]
    next => cases before

private theorem gather_numeral {n : Nat} (fits : n < 0x10000000000000000) :
    gather 0 ((numeral n).filterMap digit?) = (n, 0) := by
  induction n using Nat.strongRecOn with
  | ind n ih =>
    rcases Nat.lt_or_ge n 10 with small | large
    · rw [numeral_of_lt small, List.filterMap_cons, (encode_digit small).2, List.filterMap_nil]
      rw [gather, if_pos (by omega), Nat.zero_mul, Nat.zero_add, gather]
    · rw [numeral_of_le large, List.filterMap_append, List.filterMap_cons,
        (encode_digit (Nat.mod_lt n (by decide))).2, List.filterMap_nil]
      have whole : n / 10 * 10 + n % 10 = n := by omega
      rw [gather_append (ih (n / 10) (by omega) (by omega)) (by omega), whole]

theorem wholeDigits_reads {whole rest : List UInt8} (digits : Whole whole) (stop : Undigited rest) :
    wholeDigits (whole ++ rest) = .done (whole.filterMap digit?) rest := by
  cases digits with
  | zero =>
    cases rest with
    | nil => rfl
    | cons octet rest =>
      have none := (isDigit_eq octet).symm.trans (stop octet rfl)
      change Takes (if (character octet).isDigit then _ else _) (octet :: rest) _ _
      rw [if_neg (ne_true_of_eq_false none)]
      rfl
  | @digits octet others first other all =>
    have digit := (isDigit_eq octet).symm.trans first
    have all : ∀ digit ∈ octet :: others, isDigit digit = true := List.forall_mem_cons.mpr ⟨first, all⟩
    have taken : digits (octet :: (others ++ rest)) = .done ((octet :: others).filterMap digit?) rest := by
      rw [← List.cons_append, digits, takeWhile_digits all stop, dropWhile_digits all stop]
    rw [wholeDigits, List.cons_append, peek_bind]
    change Takes _ _ _ _
    split
    next => contradiction
    next zero => exact absurd (eq_of_character (k := 48) (Option.some.inj zero) rfl) other
    next seen =>
      cases seen
      rw [if_pos digit]
      exact taken

private theorem wholeDigits_numeral (n : Nat) : wholeDigits (numeral n) = .done ((numeral n).filterMap digit?) [] := by
  have read : wholeDigits (numeral n ++ []) = _ := wholeDigits_reads (whole_numeral n) nofun
  rwa [List.append_nil] at read

private theorem wholeNumber_numeral (negative : Bool) {n : Nat} (fits : n < 0x10000000000000000) (value : Integer)
    (same : value.val = if negative then -(n : Int) else n) (signed : ¬(negative = true ∧ n = 0)) :
    wholeNumber negative ((numeral n).filterMap digit?) = some (.integer value) := by
  have within := value.property
  rw [same] at within
  rw [wholeNumber, gather_numeral fits]
  dsimp only
  rw [if_neg (fun left => left rfl), dif_pos ⟨within, signed⟩]
  exact congrArg (fun value => some (Json.integer value)) (Subtype.ext same.symm)

theorem encode_integerText (n : Int) :
    Utf8.encode (integerText n) = if n < 0 then 45 :: numeral n.natAbs else numeral n.natAbs := by
  unfold integerText
  split <;> rfl

/-- An integer is read to the end of its text. -/
theorem number_integer (value : Integer) :
    number (Utf8.encode (integerText value.val)) = .done (.integer value) [] := by
  have within := value.property
  have whole := wholeDigits_numeral value.val.natAbs
  have gathered := gather_numeral (n := value.val.natAbs) (by omega)
  rw [encode_integerText]
  split
  case' isTrue negative =>
    have read := wholeNumber_numeral true (n := value.val.natAbs) (by omega) value
      (by simp only [if_true]; omega) (by omega)
    have signed : (some (character 45) = some '-') = True := eq_true rfl
    rw [number, peek_bind, List.head?_cons, Option.map_some]
    simp only [signed, decide_true, if_true]
    change (wholeDigits >>= _) (numeral _) = _
  case' isFalse positive =>
    have read := wholeNumber_numeral false (n := value.val.natAbs) (by omega) value
      (by simp only [Bool.false_eq_true, if_false]; omega) (by simp)
    obtain ⟨octet, others, same, digit⟩ := (whole_numeral value.val.natAbs).first
    have unsigned : some (character octet) ≠ some '-' := fun sign => digit_unsigned digit (.inr sign)
    rw [number, peek_bind, same, List.head?_cons, Option.map_some, ← same]
    simp only [unsigned, decide_false, if_false]
  all_goals
    rw [bind_of_done whole]
    simp only [gathered]
    rw [peek_bind]
    change Takes _ _ _ _
    -- Nothing stands behind the digits, so neither a point nor an exponent follows.
    split
    next point => cases point
    next letter => cases letter
    next letter => cases letter
    next =>
      rw [read]
      rfl

end LedgerClient.Json.Reader
