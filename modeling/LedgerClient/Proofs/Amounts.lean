import LedgerClient.Proofs.RecordForms

/-! Amounts in records. A field that stands for an amount takes a number just if it is written
as a whole number without sign, point and exponent and is in range; then the record has that
number and no other, however many digits were given. -/

namespace LedgerClient.Json

namespace Grammar
open Reader

/-- The parts of a number as JSON writes it. -/
structure Literal where
  sign : List UInt8
  whole : List UInt8
  fraction : List UInt8
  exponent : List UInt8
  signed : sign = [] ∨ sign = [45]
  digits : Whole whole
  behind : Fraction fraction
  power : Exponent exponent

namespace Literal

def octets (literal : Literal) : List UInt8 :=
  literal.sign ++ (literal.whole ++ (literal.fraction ++ literal.exponent))

/-- The number that the digits in front of the point denote. -/
def magnitude (literal : Literal) : Nat := Nat.ofDigitChars 10 (literal.whole.map character) 0

/-- The number is written as an amount, and is one that can be kept. -/
structure IsAmount (literal : Literal) : Prop where
  unsigned : literal.sign = []
  pointless : literal.fraction = []
  plain : literal.exponent = []
  fits : literal.magnitude ≤ 18446744073709551615

/-- The texts of the number, with blanks around it. -/
inductive Stands (literal : Literal) : List UInt8 → Prop
  | padded {before after : List UInt8} (front : Blank before) (back : Blank after) :
      Stands literal (before ++ (literal.octets ++ after))

private theorem text (literal : Literal) : Text literal.octets :=
  .number literal.signed literal.digits literal.behind literal.power

private theorem first (literal : Literal) : ∃ octet others, literal.octets = octet :: others ∧
    (character octet = '-' ∨ (character octet).isDigit = Bool.true) := by
  obtain ⟨sign, whole, fraction, exponent, signed, digits, _, _⟩ := literal
  obtain ⟨octet, others, rfl, digit⟩ := digits.first
  rcases signed with rfl | rfl
  · exact ⟨octet, _, rfl, .inr ((isDigit_eq octet).symm.trans digit)⟩
  · exact ⟨45, _, rfl, .inl rfl⟩

private theorem Stands.next {literal : Literal} {text : List UInt8} (stands : literal.Stands text) :
    ∃ octet others, Next octet text others ∧ octet ≠ 110 := by
  cases stands with
  | @padded before after front =>
    obtain ⟨octet, others, same, mark⟩ := literal.first
    obtain ⟨visible, _, other⟩ := visible_of_number mark
    refine ⟨octet, others ++ after, ?_, other⟩
    rw [same]
    exact Next.behind front visible _

end Literal
end Grammar

namespace Reader
open Grammar

private theorem digit?_of_isDigit {octet : UInt8} (digit : isDigit octet = true) : digit? octet = some
    (octet.toNat - 48) := by
  unfold isDigit digit? at digit
  split at digit
  next range => exact if_pos range
  next => cases digit

private theorem le_ofDigitChars (digits : List Char) (n : Nat) : n ≤ Nat.ofDigitChars 10 digits n := by
  induction digits generalizing n with
  | nil => exact Nat.le_refl _
  | cons digit digits ih =>
    rw [Nat.ofDigitChars_cons]
    exact Nat.le_trans (by omega) (ih _)

/-- Digits are gathered to the number that they denote if it is below the bound, and left over otherwise. -/
theorem gather_digits {octets : List UInt8} (all : ∀ octet ∈ octets, isDigit octet = true) (n : Nat) :
    let whole := Nat.ofDigitChars 10 (octets.map character) n
    (whole < 0x10000000000000000 → gather n (octets.filterMap digit?) = (whole, 0)) ∧
      (n < 0x10000000000000000 → 0x10000000000000000 ≤ whole → (gather n (octets.filterMap digit?)).2 ≠ 0) := by
  induction octets generalizing n with
  | nil => exact ⟨fun _ => rfl, fun small large => absurd large (Nat.not_le_of_lt small)⟩
  | cons octet octets ih =>
    obtain ⟨first, all⟩ := List.forall_mem_cons.mp all
    obtain ⟨fits, exceeds⟩ := ih all (n * 10 + (octet.toNat - 48))
    have bound := le_ofDigitChars (octets.map character) (n * 10 + (octet.toNat - 48))
    have step : Nat.ofDigitChars 10 ((octet :: octets).map character) n =
        Nat.ofDigitChars 10 (octets.map character) (n * 10 + (octet.toNat - 48)) := by
      rw [List.map_cons, Nat.ofDigitChars_cons, toNat_character, Nat.mul_comm 10]
      rfl
    simp only [step, List.filterMap_cons, digit?_of_isDigit first, gather]
    constructor
    · intro small
      rw [if_pos (Nat.lt_of_le_of_lt bound small), fits small]
    · intro _ large
      split
      next here => exact exceeds here large
      next => exact Nat.succ_ne_zero _

/-- Whole numbers in range are kept, with their sign; those out of range become floats, and so does a negative zero. -/
theorem integer_wholeNumber {negative : Bool} {octets : List UInt8} (all : ∀ octet ∈ octets, isDigit octet = true)
    {n : Integer} (positive : 0 ≤ n.val) : wholeNumber negative (octets.filterMap digit?) = some (.integer n) ↔
      negative = false ∧ (Nat.ofDigitChars 10 (octets.map character) 0 : Int) = n.val := by
  obtain ⟨fits, exceeds⟩ := gather_digits all 0
  have no_float {x? : Option Binary64} : (x?.map fun x => Json.float (signed negative x)) ≠ some (.integer n) := by
    intro same
    obtain ⟨_, _, kind⟩ := Option.map_eq_some_iff.mp same
    cases kind
  have within := n.property
  generalize Nat.ofDigitChars 10 (octets.map character) 0 = whole at fits exceeds ⊢
  rw [wholeNumber]
  by_cases small : whole < 0x10000000000000000
  · rw [fits small]
    dsimp only
    rw [if_neg (fun left => left rfl)]
    have kept {p : Prop} [Decidable p] {k : p → Integer} {other : Option Json} (float : other ≠ some (.integer n)) :
        (if h : p then some (.integer (k h)) else other) = some (.integer n) ↔ ∃ h : p, k h = n := by
      split
      next h => rw [exists_prop_of_true h, Option.some.injEq, Json.integer.injEq]
      next h => exact iff_of_false float fun same => h same.fst
    refine (kept no_float).trans ⟨?_, ?_⟩
    · rintro ⟨⟨_, nonzero⟩, rfl⟩
      cases negative with
      | false => exact ⟨rfl, rfl⟩
      | true =>
        dsimp only at positive
        rw [if_pos rfl] at positive
        exact absurd ⟨rfl, by omega⟩ nonzero
    · rintro ⟨rfl, same⟩
      refine ⟨⟨?_, fun signed => Bool.false_ne_true signed.1⟩, Subtype.ext same⟩
      rw [if_neg Bool.false_ne_true]
      omega
  · have left := exceeds (by decide) (Nat.le_of_not_lt small)
    generalize gather 0 (octets.filterMap digit?) = gathered at left
    obtain ⟨m, count⟩ := gathered
    dsimp only at left ⊢
    rw [if_pos left]
    exact iff_of_false no_float fun same => small (by omega)

/-- A number behind its sign. -/
def behindSign (negative : Bool) : Reader Json := do
  let whole ← wholeDigits
  let (n, left) := gather 0 whole
  match ← peek with
  | some '.' =>
    skipOne
    let fraction ← Reader.digits
    if fraction.isEmpty then
      match ← peek with
      | none => failAhead .valueEnds
      | some _ => failAhead .badNumber
    else
      let (m, unused) := gather n fraction
      inexact negative m ((left : Int) - (fraction.length - unused : Nat))
  | some 'e' | some 'E' => inexact negative n left
  | _ =>
    match wholeNumber negative whole with
    | some value => pure value
    | none => failHere .numberTooLarge

private theorem number_eq : number = peek >>= fun sign =>
    if sign = some '-' then skipOne >>= fun _ => behindSign true else behindSign false := by
  funext input
  rw [number, peek_bind, peek_bind]
  by_cases minus : input.head?.map character = some '-'
  · simp only [minus, decide_true, if_true]
    rfl
  · simp only [minus, decide_false, if_false]
    rfl

private theorem inexact_not_integer {negative : Bool} {significand : Nat} {power : Int} {n : Integer}
    {input left : List UInt8} : inexact negative significand power input ≠ .done (.integer n) left := by
  intro read
  obtain ⟨_, kind⟩ := float_inexact ⟨input, left, read⟩
  cases kind

private theorem unmarked_of_ends {rest : List UInt8} (ends : Ends rest) :
    rest.head?.map character ∉ [some '.', some 'e', some 'E'] := by
  cases rest with
  | nil => decide
  | cons octet rest =>
    have closing := ends.closing
    rw [List.head?_cons, Option.map_some]
    generalize character octet = c at closing
    revert c
    exact Closing.cases (by decide) (by decide) (by decide) (by decide) (by decide) (by decide) (by decide)

/-- Behind a sign, only digits without a point and an exponent give a whole number. -/
theorem integer_behindSign {negative : Bool} {whole fraction exponent rest left : List UInt8} {n : Integer}
    (digits : Whole whole) (behind : Fraction fraction) (power : Exponent exponent) (ends : Ends rest) :
    behindSign negative (whole ++ (fraction ++ (exponent ++ rest))) = .done (.integer n) left ↔
      fraction = [] ∧ exponent = [] ∧ left = rest ∧
        wholeNumber negative (whole.filterMap digit?) = some (.integer n) := by
  rw [behindSign, bind_of_done (wholeDigits_reads digits (undigited_behind behind power ends))]
  generalize gather 0 (whole.filterMap digit?) = gathered
  obtain ⟨m, unread⟩ := gathered
  dsimp only
  rw [peek_bind]
  cases behind with
  | digits =>
    refine iff_of_false (fun read => ?_) fun ⟨absent, _⟩ => nomatch absent
    obtain ⟨_, _, _, read⟩ := bind_eq_done.mp (show (skipOne >>= _) _ = _ from read)
    obtain ⟨fraction, _, _, read⟩ := bind_eq_done.mp read
    split at read
    · obtain ⟨_, _, _, read⟩ := bind_eq_done.mp read
      split at read <;> cases read
    · exact inexact_not_integer read
  | none =>
    cases power with
    | @digits letter _ _ marked =>
      refine iff_of_false (fun read => ?_) fun ⟨_, absent, _⟩ => nomatch absent
      rcases marked with rfl | rfl
      · exact inexact_not_integer read
      · exact inexact_not_integer read
    | none =>
      have unmarked := unmarked_of_ends ends
      rw [and_iff_right rfl, and_iff_right rfl]
      change Takes _ _ _ _ ↔ _
      simp only [List.nil_append]
      split
      next point => exact absurd (point ▸ .head _) unmarked
      next letter => exact absurd (letter ▸ .tail _ (.head _)) unmarked
      next letter => exact absurd (letter ▸ .tail _ (.tail _ (.head _))) unmarked
      next =>
        split
        next value same =>
          rw [same]
          constructor
          · intro read
            cases read
            exact ⟨rfl, rfl⟩
          · rintro ⟨rfl, kind⟩
            cases kind
            rfl
        next absent =>
          rw [absent]
          exact iff_of_false nofun nofun

private theorem Whole.isDigit {whole : List UInt8} (digits : Whole whole) : ∀ octet ∈ whole, isDigit octet = true := by
  cases digits with
  | zero => exact List.forall_mem_singleton.mpr rfl
  | digits first _ all => exact List.forall_mem_cons.mpr ⟨first, all⟩

private theorem integer_number {literal : Literal} {rest left : List UInt8} (ends : Ends rest) {n : Integer}
    (positive : 0 ≤ n.val) : number (literal.octets ++ rest) = .done (.integer n) left ↔
      literal.sign = [] ∧ literal.fraction = [] ∧ literal.exponent = [] ∧ left = rest ∧
        (literal.magnitude : Int) = n.val := by
  obtain ⟨sign, whole, fraction, exponent, signed, digits, behind, power⟩ := literal
  have behindSign (negative : Bool) := @integer_behindSign negative _ _ _ _ left n digits behind power ends
  simp only [integer_wholeNumber (Whole.isDigit digits) positive] at behindSign
  obtain ⟨octet, others, same, digit⟩ := digits.first
  rw [Literal.octets, Literal.magnitude, number_eq, peek_bind]
  simp only [List.append_assoc]
  rcases signed with rfl | rfl
  · have unsigned : some (character octet) ≠ some '-' := fun sign => digit_unsigned digit (.inr sign)
    have front : ((whole ++ (fraction ++ (exponent ++ rest))).head?.map character) ≠ some '-' := by
      rw [same]
      exact unsigned
    rw [List.nil_append, if_neg front, behindSign, and_iff_right rfl]
    simp only [true_and]
  · refine iff_of_false (fun read => ?_) fun ⟨absent, _⟩ => nomatch absent
    obtain ⟨_, _, _, negative, _⟩ := (behindSign true).mp read
    cases negative

end Reader
end LedgerClient.Json

namespace LedgerClient
open Json Json.Reader Json.Grammar

namespace Codec

private theorem amount_eq_ok {value : Json} {n : UInt64} : amount value = .ok n ↔
    ∃ k : Integer, value = .integer k ∧ 0 ≤ k.val ∧ k.val = n.toNat := by
  have small := n.toNat_lt
  unfold amount
  split
  next k =>
    have within := k.property
    constructor
    · intro read
      split at read
      next => cases read
      next positive =>
        cases read
        refine ⟨k, rfl, by omega, ?_⟩
        rw [UInt64.toNat_ofNat']
        omega
    · rintro ⟨_, same, positive, value⟩
      cases same
      rw [if_neg (by omega), value, Int.toNat_natCast, UInt64.ofNat_toNat]
  next other =>
    refine iff_of_false (fun read => by cases read) ?_
    rintro ⟨k, same, _⟩
    exact other k same

/-- An amount is read from a number that is one, and from no other. -/
theorem run_amount_iff {literal : Literal} {text : List UInt8} (stands : literal.Stands text) {depth : Nat}
    {n : UInt64} : (Codec.read depth : Reader UInt64).run text = .ok n ↔
      literal.IsAmount ∧ n.toNat = literal.magnitude := by
  cases stands with
  | @padded before after front back =>
    obtain ⟨octet, others, same, mark⟩ := literal.first
    have whole : octet :: (others ++ after) = literal.octets ++ after := by rw [same, List.cons_append]
    have here : Next octet (before ++ (literal.octets ++ after)) (others ++ after) :=
      whole ▸ Next.behind front (visible_of_number mark).1 _
    have ends : Ends after := by
      rw [← List.append_nil after]
      exact ends_blank back ends_nil
    have small := n.toNat_lt
    rw [run_eq_ok_iff]
    constructor
    · rintro ⟨left, _, read⟩
      obtain ⟨first, rest, seen, _, read⟩ := read?_eq_done.mp read
      obtain ⟨value, _, number, lifted⟩ := bind_eq_done.mp read
      obtain ⟨exact, rfl⟩ := lift_eq_done.mp lifted
      obtain ⟨k, rfl, positive, value⟩ := amount_eq_ok.mp exact
      cases here.symm.trans seen
      rw [whole] at number
      obtain ⟨unsigned, pointless, plain, _, magnitude⟩ := (integer_number ends positive).mp number
      exact ⟨⟨unsigned, pointless, plain, by omega⟩, by omega⟩
    · rintro ⟨⟨unsigned, pointless, plain, fits⟩, value⟩
      have positive : (0 : Int) ≤ (n.toNat : Int) := Int.natCast_nonneg _
      have number : number (literal.octets ++ after) = .done (.integer ⟨n.toNat, by omega⟩) after :=
        (integer_number ends positive).mpr ⟨unsigned, pointless, plain, rfl, congrArg Int.ofNat value.symm⟩
      rw [← whole] at number
      refine ⟨after, back, read?_eq_done.mpr ⟨octet, others ++ after, here, by simpa using mark, ?_⟩⟩
      exact (bind_of_done number _).trans (lift_eq_done.mpr ⟨amount_eq_ok.mpr ⟨_, rfl, positive, rfl⟩, rfl⟩)

private theorem amount_succeeds_iff {literal : Literal} {text : List UInt8} (stands : literal.Stands text)
    {depth : Nat} :
    (∃ n, (Codec.read depth : Reader UInt64).run text = .ok n) ↔ literal.IsAmount := by
  simp only [run_amount_iff stands]
  refine ⟨fun ⟨_, amount, _⟩ => amount, fun amount => ⟨UInt64.ofNat literal.magnitude, amount, ?_⟩⟩
  rw [UInt64.toNat_ofNat', Nat.mod_eq_of_lt (Nat.lt_succ_of_le amount.fits)]

private theorem run_some_amount_iff {literal : Literal} {text : List UInt8} (stands : literal.Stands text) {depth : Nat}
    {value : Option UInt64} : (Codec.read depth : Reader (Option UInt64)).run text = .ok value ↔
      ∃ n, (literal.IsAmount ∧ n.toNat = literal.magnitude) ∧ some n = value := by
  obtain ⟨octet, rest, seen, other⟩ := stands.next
  simp only [run_some_iff inferInstance seen other, run_amount_iff stands]

private theorem some_amount_succeeds_iff {literal : Literal} {text : List UInt8} (stands : literal.Stands text)
    {depth : Nat} :
    (∃ value, (Codec.read depth : Reader (Option UInt64)).run text = .ok value) ↔ literal.IsAmount := by
  rw [← @amount_succeeds_iff literal text stands depth]
  simp only [run_some_amount_iff stands, run_amount_iff stands]
  exact ⟨fun ⟨_, n, amount, _⟩ => ⟨n, amount⟩, fun ⟨n, amount⟩ => ⟨_, n, amount, rfl⟩⟩

end Codec

namespace Catalogue
variable {entry : Entry} {octets : List UInt8}

/-- A field of amounts, in any record, is read from a number just if that is written as a
whole number without sign, point and exponent and does not exceed the greatest amount; and
then the record has the very number. The same goes for a field that may be missing, and for
each item of a field of lists. -/
theorem amounts_exact (listed : entry ∈ entries) (depth : Nat) {key : String} {front back : List (String × List UInt8)}
    {text : List UInt8} (given : Given entry.keys (front ++ (key, text) :: back) octets) (literal : Literal) :
    (Field.always key UInt64 ∈ entry.fields → literal.Stands text →
      ((∃ record, (entry.reader (depth + 1)).run octets = .ok record) ↔ literal.IsAmount ∧
        Distinct entry.keys (front ++ (key, text) :: back) ∧ Fits depth entry.fields (front ++ back)) ∧
      ∀ record, (entry.reader (depth + 1)).run octets = .ok record →
        ∃ n : UInt64, n.toNat = literal.magnitude ∧ entry.Has record (.always key UInt64) n) ∧
    (Field.whenSome key UInt64 ∈ entry.fields → literal.Stands text →
      ((∃ record, (entry.reader (depth + 1)).run octets = .ok record) ↔ literal.IsAmount ∧
        Distinct entry.keys (front ++ (key, text) :: back) ∧ Fits depth entry.fields (front ++ back)) ∧
      ∀ record, (entry.reader (depth + 1)).run octets = .ok record →
        ∃ n : UInt64, n.toNat = literal.magnitude ∧ entry.Has record (.whenSome key UInt64) (some n)) ∧
    (Field.always key (List UInt64) ∈ entry.fields → ∀ before item after,
      Sequence (before ++ item :: after) text → literal.Stands item →
      ((∃ record, (entry.reader (depth + 2)).run octets = .ok record) ↔
        (literal.IsAmount ∧ ∀ other ∈ before ++ after, ∃ n, (Codec.read depth : Reader UInt64).run other = .ok n) ∧
          Distinct entry.keys (front ++ (key, text) :: back) ∧ Fits (depth + 1) entry.fields (front ++ back)) ∧
      ∀ record, (entry.reader (depth + 2)).run octets = .ok record → ∃ (all : List UInt64) (n : UInt64),
        all[before.length]? = some n ∧ n.toNat = literal.magnitude ∧
          entry.Has record (.always key (List UInt64)) all) := by
  have among : (key, text) ∈ front ++ (key, text) :: back := List.mem_append_right _ List.mem_cons_self
  refine ⟨fun taken stands => ⟨?_, fun record run => ?_⟩, fun taken stands => ⟨?_, fun record run => ?_⟩,
    fun taken before item after sequence stands => ⟨?_, fun record run => ?_⟩⟩
  · rw [run_succeeds_middle listed taken given]
    exact and_congr_left fun _ => Codec.amount_succeeds_iff stands
  · obtain ⟨n, read, has⟩ := has_of_run listed given run taken among
    exact ⟨n, ((Codec.run_amount_iff stands).mp read).2, has⟩
  · rw [run_succeeds_middle listed taken given]
    exact and_congr_left fun _ => Codec.some_amount_succeeds_iff stands
  · obtain ⟨_, read, has⟩ := has_of_run listed given run taken among
    obtain ⟨n, ⟨_, value⟩, rfl⟩ := (Codec.run_some_amount_iff stands).mp read
    exact ⟨n, value, has⟩
  · have items : Codec.Recognising UInt64 := inferInstance
    rw [run_succeeds_middle listed taken given, ← Codec.amount_succeeds_iff stands]
    exact and_congr_left fun _ => Codec.list_succeeds_middle items sequence
  · obtain ⟨all, read, has⟩ := has_of_run listed given run taken among
    obtain ⟨n, place, here⟩ := forall₂_middle ((Codec.run_list_iff inferInstance sequence).mp read)
    exact ⟨all, n, place, ((Codec.run_amount_iff stands).mp here).2, has⟩

/-- The greatest amount, the number behind it, one with an exponent and a negative zero. -/
theorem amounts_exact_supply :
    let entry := Entry.of SupplyResponse
    let octets := fun digits => Utf8.encode ("\x7b\"total-money\":" ++ digits ++ "\x7d").toList
    entry ∈ entries ∧ Field.always "total-money" UInt64 ∈ entry.fields ∧
      (∃ record, entry.decode (octets "18446744073709551615") = .ok record ∧
        entry.Has record (.always "total-money" UInt64) (18446744073709551615 : UInt64)) ∧
      (¬∃ record, entry.decode (octets "18446744073709551616") = .ok record) ∧
      (¬∃ record, entry.decode (octets "1e3") = .ok record) ∧
      ¬∃ record, entry.decode (octets "-0") = .ok record := by
  intro entry octets
  have listed : entry ∈ entries := List.mem_of_getElem? (i := 35) rfl
  have taken : Field.always "total-money" UInt64 ∈ entry.fields := .tail _ (.tail _ (.head _))
  have given (literal : Literal) (digits : String) (same : octets digits =
      123 :: (commas [(Member.written "total-money" literal.octets).text] ++ [125])) :
      Given entry.keys ([] ++ ("total-money", literal.octets) :: []) (octets digits) := by
    have inside := @Inside.members [(Member.written "total-money" literal.octets, "total-money")]
      (List.cons_ne_nil _ _) (List.forall_mem_singleton.mpr (Member.written_denotes _ literal.text))
    rw [same]
    exact .object (@Object.braces _ [] _ [] blank_nil inside blank_nil)
  have stands (literal : Literal) : literal.Stands literal.octets := by
    have padded : literal.Stands ([] ++ (literal.octets ++ [])) := .padded blank_nil blank_nil
    rwa [List.nil_append, List.append_nil] at padded
  have outcome (literal : Literal) (digits : String) (same : octets digits =
      123 :: (commas [(Member.written "total-money" literal.octets).text] ++ [125])) :=
    (amounts_exact listed 126 (given literal digits same) literal).1 taken (stands literal)
  have fits : Fits 126 entry.fields ([] ++ []) := fun _ _ _ => nofun
  refine ⟨listed, taken, ?_, ?_, ?_, ?_⟩
  · let literal : Literal := ⟨[], numeral 18446744073709551615, [], [], .inl rfl, whole_numeral _, .none, .none⟩
    have magnitude : literal.magnitude = 18446744073709551615 := by decide +kernel
    obtain ⟨succeeds, has⟩ := outcome literal "18446744073709551615" (by decide +kernel)
    obtain ⟨record, run⟩ := succeeds.mpr ⟨⟨rfl, rfl, rfl, Nat.le_of_eq magnitude⟩, by decide, fits⟩
    obtain ⟨n, value, holds⟩ := has record run
    have same : n = 18446744073709551615 := UInt64.toNat_inj.mp (value.trans magnitude)
    exact ⟨record, run, same ▸ holds⟩
  · let literal : Literal := ⟨[], numeral 18446744073709551616, [], [], .inl rfl, whole_numeral _, .none, .none⟩
    have magnitude : literal.magnitude = 18446744073709551616 := by decide +kernel
    intro run
    have fits := ((outcome literal "18446744073709551616" (by decide +kernel)).1.mp run).1.fits
    omega
  · let literal : Literal := ⟨[], [49], [], [101, 51], .inl rfl, whole_numeral 1, .none,
      @Exponent.digits 101 [] [51] (.inl rfl) (.inl rfl) ⟨nofun, List.forall_mem_singleton.mpr (by decide)⟩⟩
    intro run
    cases ((outcome literal "1e3" (by decide +kernel)).1.mp run).1.plain
  · let literal : Literal := ⟨[45], [48], [], [], .inr rfl, .zero, .none, .none⟩
    intro run
    cases ((outcome literal "-0" (by decide +kernel)).1.mp run).1.unsigned

end Catalogue
end LedgerClient
