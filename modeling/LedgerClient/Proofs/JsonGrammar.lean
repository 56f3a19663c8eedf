import LedgerClient.Proofs.Skipping

/-! The grammar of JSON texts on their octets, without regard to any reader, and the law
that every well-formed text is passed over as a whole. The marks are the quote 34, the
backslash 92, the comma 44, the colon 58, the brackets 91 and 93, and the braces 123 and 125. -/

namespace LedgerClient.Json.Grammar
open Reader

def Blank (octets : List UInt8) : Prop := ∀ octet ∈ octets, isSpace octet = true

def Digits (octets : List UInt8) : Prop := octets ≠ [] ∧ ∀ octet ∈ octets, isDigit octet = true

/-- A zero alone, or digits that do not start with one. -/
inductive Whole : List UInt8 → Prop
  | zero : Whole [48]
  | digits {octet : UInt8} {others : List UInt8} (first : isDigit octet = true) (other : octet ≠ 48)
      (digits : ∀ octet ∈ others, isDigit octet = true) : Whole (octet :: others)

theorem Whole.first {whole : List UInt8} (digits : Whole whole) :
    ∃ octet others, whole = octet :: others ∧ isDigit octet = true := by
  cases digits with
  | zero => exact ⟨48, [], rfl, rfl⟩
  | digits first => exact ⟨_, _, rfl, first⟩

/-- Nothing, or a point and digits. -/
inductive Fraction : List UInt8 → Prop
  | none : Fraction []
  | digits {octets : List UInt8} (digits : Digits octets) : Fraction (46 :: octets)

/-- Nothing, or a letter, a sign or none, and digits. -/
inductive Exponent : List UInt8 → Prop
  | none : Exponent []
  | digits {letter : UInt8} {sign octets : List UInt8} (marked : letter = 101 ∨ letter = 69)
      (signed : sign = [] ∨ sign = [43] ∨ sign = [45]) (digits : Digits octets) :
      Exponent (letter :: (sign ++ octets))

/-- What stands between the quotes of a string. What a numbered character denotes is left open. -/
inductive Body : List UInt8 → Prop
  | nil : Body []
  | plain {octet : UInt8} {body : List UInt8} (plain : isPlain octet = true) (behind : Body body) :
      Body (octet :: body)
  | letter {octet : UInt8} {body : List UInt8} (letter : EscapeLetter (character octet)) (behind : Body body) :
      Body (92 :: octet :: body)
  | numbered {a b c d : UInt8} {body : List UInt8}
      (digits : ∀ octet ∈ [a, b, c, d], (hexDigit? octet).isSome = true) (behind : Body body) :
      Body (92 :: 117 :: a :: b :: c :: d :: body)

/-- The texts one behind the other, with commas between them. -/
def commas : List (List UInt8) → List UInt8
  | [] => []
  | [text] => text
  | text :: texts => text ++ 44 :: commas texts

/-- The parts of a member of an object: its key between blanks, and its value. -/
structure Member where
  before : List UInt8
  key : List UInt8
  between : List UInt8
  value : List UInt8

namespace Member

def text (member : Member) : List UInt8 :=
  member.before ++ 34 :: (member.key ++ 34 :: (member.between ++ 58 :: member.value))

/-- The parts but the value are in order. -/
structure Sound (member : Member) : Prop where
  before : Blank member.before
  key : Body member.key
  between : Blank member.between

end Member

/-- The texts of values, with blanks around them. -/
inductive Text : List UInt8 → Prop
  | null : Text (Utf8.encode ['n', 'u', 'l', 'l'])
  | true : Text (Utf8.encode ['t', 'r', 'u', 'e'])
  | false : Text (Utf8.encode ['f', 'a', 'l', 's', 'e'])
  | number {sign whole fraction exponent : List UInt8} (signed : sign = [] ∨ sign = [45]) (digits : Whole whole)
      (behind : Fraction fraction) (power : Exponent exponent) : Text (sign ++ (whole ++ (fraction ++ exponent)))
  | string {body : List UInt8} (sound : Body body) : Text (34 :: (body ++ [34]))
  | emptyList {inside : List UInt8} (blank : Blank inside) : Text (91 :: (inside ++ [93]))
  | list {items : List (List UInt8)} (some : items ≠ []) (sound : ∀ item ∈ items, Text item) :
      Text (91 :: (commas items ++ [93]))
  | emptyObject {inside : List UInt8} (blank : Blank inside) : Text (123 :: (inside ++ [125]))
  | object {members : List Member} (some : members ≠ []) (sound : ∀ member ∈ members, member.Sound)
      (values : ∀ member ∈ members, Text member.value) : Text (123 :: (commas (members.map Member.text) ++ [125]))
  | padded {before text after : List UInt8} (front : Blank before) (sound : Text text) (back : Blank after) :
      Text (before ++ (text ++ after))

theorem dropWhile_blank {blank : List UInt8} (all : Blank blank) (rest : List UInt8) :
    (blank ++ rest).dropWhile isSpace = rest.dropWhile isSpace :=
  List.dropWhile_append_of_pos all

theorem Next.behind {blank : List UInt8} (all : Blank blank) {mark : UInt8} (visible : isSpace mark = Bool.false)
    (rest : List UInt8) : Next mark (blank ++ mark :: rest) rest :=
  (dropWhile_blank all _).trans (Next.here visible rest)

theorem ends_of_mark {mark : UInt8} (marks : mark = 44 ∨ mark = 93 ∨ mark = 125) (rest : List UInt8) :
    Ends (mark :: rest) := by
  intro octet first
  have visible : isSpace mark = Bool.false := by obtain rfl | rfl | rfl := marks <;> rfl
  rw [List.dropWhile_cons_of_neg (by simp [visible])] at first
  cases first
  obtain rfl | rfl | rfl := marks <;> decide

theorem ends_blank {blank : List UInt8} (all : Blank blank) {rest : List UInt8} (ends : Ends rest) :
    Ends (blank ++ rest) := by
  unfold Ends
  rwa [dropWhile_blank all]

/-- No digit comes next. -/
def Undigited (rest : List UInt8) : Prop := ∀ octet ∈ rest.head?, isDigit octet = Bool.false

private theorem Undigited.of_ends {rest : List UInt8} (ends : Ends rest) : Undigited rest := by
  intro octet first
  obtain ⟨rest, rfl⟩ := List.head?_eq_some_iff.mp first
  exact isDigit_of_closing ends.closing

theorem dropWhile_digits {octets rest : List UInt8} (all : ∀ octet ∈ octets, isDigit octet = Bool.true)
    (stop : Undigited rest) : (octets ++ rest).dropWhile isDigit = rest := by
  rw [List.dropWhile_append_of_pos all]
  cases rest with
  | nil => rfl
  | cons octet rest => exact List.dropWhile_cons_of_neg (by simp [stop octet rfl])

theorem takeWhile_digits {octets rest : List UInt8} (all : ∀ octet ∈ octets, isDigit octet = Bool.true)
    (stop : Undigited rest) : (octets ++ rest).takeWhile isDigit = octets := by
  rw [List.takeWhile_append_of_pos all]
  cases rest with
  | nil => simp
  | cons octet rest => simp [stop octet rfl]

private theorem skipWhole_reads {whole rest : List UInt8} (digits : Whole whole) (stop : Undigited rest) :
    skipWhole (whole ++ rest) = .done () rest := by
  cases digits with
  | zero => exact skipWhole_zero stop
  | digits first other digits => rw [List.cons_append, skipWhole_digit first other, dropWhile_digits digits stop]

/-- An exponent behind its sign. -/
def skipUnsigned : Reader Unit := do
  match ← next with
  | some c => if c.isDigit then do let _ ← Reader.digits else failHere .badNumber
  | none => failHere .badNumber

theorem skipExponent_eq : skipExponent =
    peek >>= fun sign =>
      if sign = some '+' ∨ sign = some '-' then skipOne >>= fun _ => skipUnsigned else skipUnsigned :=
  rfl

private theorem skipUnsigned_reads {octets rest : List UInt8} (digits : Digits octets) (stop : Undigited rest) :
    skipUnsigned (octets ++ rest) = .done () rest := by
  obtain ⟨some, all⟩ := digits
  obtain ⟨octet, others, rfl⟩ := List.exists_cons_of_ne_nil some
  obtain ⟨digit, all⟩ := List.forall_mem_cons.mp all
  rw [isDigit_eq] at digit
  change Takes (if (character octet).isDigit then _ else _) (others ++ rest) _ _
  rw [if_pos digit]
  change Outcome.done () ((others ++ rest).dropWhile isDigit) = _
  rw [dropWhile_digits all stop]

theorem digit_unsigned {octet : UInt8} : isDigit octet = Bool.true →
    ¬(some (character octet) = some '+' ∨ some (character octet) = some '-') :=
  Percent.forall_octet (p := fun octet => isDigit octet = Bool.true →
    ¬(some (character octet) = some '+' ∨ some (character octet) = some '-')) (by decide +kernel) octet

private theorem skipExponent_reads {sign octets rest : List UInt8} (signed : sign = [] ∨ sign = [43] ∨ sign = [45])
    (digits : Digits octets) (stop : Undigited rest) : skipExponent (sign ++ (octets ++ rest)) = .done () rest := by
  have behind := skipUnsigned_reads digits stop
  obtain rfl | rfl | rfl := signed
  · obtain ⟨octet, others, rfl⟩ := List.exists_cons_of_ne_nil digits.1
    rw [skipExponent_eq, peek_bind]
    change Takes (if some (character octet) = some '+' ∨ some (character octet) = some '-' then _ else _) _ _ _
    rw [if_neg (digit_unsigned (digits.2 octet List.mem_cons_self))]
    exact behind
  · exact behind
  · exact behind

private theorem skipPower_reads {exponent rest : List UInt8} (power : Exponent exponent) (ends : Ends rest) :
    skipPower (exponent ++ rest) = .done () rest := by
  cases power with
  | none =>
    cases rest with
    | nil => rfl
    | cons octet rest =>
      have closing := ends.closing
      unfold skipPower
      rw [peek_bind]
      dsimp only [List.nil_append, List.head?_cons, Option.map_some]
      generalize character octet = c at closing
      revert c
      exact Closing.cases rfl rfl rfl rfl rfl rfl rfl
  | digits marked signed digits =>
    have behind := skipExponent_reads signed digits (Undigited.of_ends ends)
    rw [List.cons_append, List.append_assoc]
    obtain rfl | rfl := marked
    · exact behind
    · exact behind

private theorem unpointed_of_closing {octet : UInt8} : Closing (character octet) → isDigit octet = Bool.false ∧
    octet ≠ 46 :=
  Percent.forall_octet (p := fun octet => Closing (character octet) → isDigit octet = Bool.false ∧ octet ≠ 46)
    (by decide +kernel) octet

private theorem unpointed_exponent {exponent rest : List UInt8} (power : Exponent exponent) (ends : Ends rest) :
    ∀ octet ∈ (exponent ++ rest).head?, isDigit octet = Bool.false ∧ octet ≠ 46 := by
  intro octet first
  cases power with
  | none =>
    obtain ⟨rest, rfl⟩ := List.head?_eq_some_iff.mp first
    exact unpointed_of_closing ends.closing
  | digits marked signed digits =>
    cases first
    obtain rfl | rfl := marked <;> decide

private theorem skipFraction_reads {fraction exponent rest : List UInt8} (digits : Fraction fraction)
    (power : Exponent exponent) (ends : Ends rest) :
    skipFraction (fraction ++ (exponent ++ rest)) = .done () rest := by
  have unpointed := unpointed_exponent power ends
  have behind := skipPower_reads power ends
  cases digits with
  | none =>
    rw [List.nil_append, skipFraction_of_ne, behind]
    intro point
    obtain ⟨octet, first, point⟩ := Option.map_eq_some_iff.mp point
    exact (unpointed octet first).2 (eq_of_character point rfl)
  | digits digits =>
    rename_i octets
    have stop : Undigited (exponent ++ rest) := fun octet first => (unpointed octet first).1
    have taken : Reader.digits (octets ++ (exponent ++ rest)) =
      .done (octets.filterMap digit?) (exponent ++ rest) := by
      unfold Reader.digits
      rw [takeWhile_digits digits.2 stop, dropWhile_digits digits.2 stop]
    rw [List.cons_append, skipFraction, peek_bind]
    change (skipOne >>= _) _ = _
    rw [skipOne_bind, bind_of_done taken]
    change Takes (if (octets.filterMap digit?).isEmpty then _ else _) _ _ _
    rw [if_neg]
    · exact behind
    · obtain ⟨octet, others, rfl⟩ := List.exists_cons_of_ne_nil digits.1
      obtain ⟨value, found⟩ := Option.isSome_iff_exists.mp (digits.2 octet List.mem_cons_self)
      simp [found]

theorem undigited_behind {fraction exponent rest : List UInt8} (behind : Fraction fraction)
    (power : Exponent exponent) (ends : Ends rest) : Undigited (fraction ++ (exponent ++ rest)) := by
  cases behind with
  | none => exact fun octet first => (unpointed_exponent power ends octet first).1
  | digits =>
    rintro _ ⟨⟩
    rfl

private theorem skipNumber_reads {whole fraction exponent rest : List UInt8} (digits : Whole whole)
    (behind : Fraction fraction) (power : Exponent exponent) (ends : Ends rest) :
    skipNumber (whole ++ (fraction ++ (exponent ++ rest))) = .done () rest := by
  rw [skipNumber_eq, bind_of_done (skipWhole_reads digits (undigited_behind behind power ends)),
    skipFraction_reads behind power ends]

private theorem fourHex_reads {a b c d : UInt8} (digits : ∀ octet ∈ [a, b, c, d], (hexDigit? octet).isSome = Bool.true)
    (rest : List UInt8) : ∃ n, fourHex (a :: b :: c :: d :: rest) = .done n rest := by
  simp only [List.forall_mem_cons, List.not_mem_nil, false_imp_iff, implies_true, and_true,
    Option.isSome_iff_exists] at digits
  obtain ⟨⟨a', first⟩, ⟨b', second⟩, ⟨c', third⟩, ⟨d', fourth⟩⟩ := digits
  refine ⟨((a' * 16 + b') * 16 + c') * 16 + d', ?_⟩
  simp only [fourHex, first, second, third, fourth]

private theorem skipString_reads {body : List UInt8} (sound : Body body) (rest : List UInt8) {bound : Nat}
    (enough : body.length < bound) : skipString bound (body ++ 34 :: rest) = .done () rest := by
  induction sound generalizing bound with
  | nil =>
    obtain ⟨bound, rfl⟩ := Nat.exists_eq_add_of_le' enough
    rfl
  | plain plain _ ih =>
    obtain ⟨bound, rfl⟩ := Nat.exists_eq_add_of_le' (Nat.one_le_of_lt enough)
    exact skipString_cons plain (ih (Nat.lt_of_succ_lt_succ enough))
  | letter letter _ ih =>
    obtain ⟨bound, rfl⟩ := Nat.exists_eq_add_of_le' (Nat.one_le_of_lt enough)
    exact skipString_letter letter (ih (by simp only [List.length_cons] at enough; omega))
  | numbered digits _ ih =>
    obtain ⟨bound, rfl⟩ := Nat.exists_eq_add_of_le' (Nat.one_le_of_lt enough)
    obtain ⟨n, read⟩ := fourHex_reads digits _
    exact skipString_numbered read (ih (by simp only [List.length_cons] at enough; omega))

/-- The text is passed over, wherever it stands, and nothing is left of it but blanks. -/
def Passed (text : List UInt8) : Prop :=
  ∀ rest, Ends rest → ∃ blank, Blank blank ∧ skip ((text ++ rest).dropWhile isSpace) = .done () (blank ++ rest)

private theorem listed_commas {items : List (List UInt8)} (passed : ∀ item ∈ items, Passed item) (some : items ≠ [])
    (rest : List UInt8) : ∃ behind, skip ((commas items ++ 93 :: rest).dropWhile isSpace) = .done () behind ∧
      Listed Bool.false behind rest := by
  induction items with
  | nil => exact absurd rfl some
  | cons item items ih =>
    obtain ⟨here, others⟩ := List.forall_mem_cons.mp passed
    cases items with
    | nil =>
      obtain ⟨blank, all, skipped⟩ := here (93 :: rest) (ends_of_mark (by simp) _)
      exact ⟨_, skipped, .ends (Next.behind all rfl rest)⟩
    | cons next items =>
      obtain ⟨last, item, listed⟩ := ih others (List.cons_ne_nil _ _)
      obtain ⟨blank, all, skipped⟩ := here (44 :: (commas (next :: items) ++ 93 :: rest)) (ends_of_mark (by simp) _)
      refine ⟨_, ?_, .next (Next.behind all rfl _) item listed⟩
      rw [commas, List.append_assoc, List.cons_append]
      · exact skipped
      · exact List.cons_ne_nil _ _

private theorem bounded_skipString {body : List UInt8} (sound : Body body) (rest : List UInt8) :
    bounded skipString (body ++ 34 :: rest) = .done () rest :=
  skipString_reads sound rest (by simp only [List.length_append, List.length_cons]; omega)

namespace Member
variable {member : Member}

theorem Sound.quote (sound : member.Sound) (rest : List UInt8) :
    Next 34 (member.text ++ rest) (member.key ++ 34 :: (member.between ++ 58 :: (member.value ++ rest))) := by
  simp only [text, List.append_assoc, List.cons_append]
  exact Next.behind sound.before rfl _

theorem Sound.colon (sound : member.Sound) (rest : List UInt8) :
    Next 58 (member.between ++ 58 :: (member.value ++ rest)) (member.value ++ rest) :=
  Next.behind sound.between rfl _

end Member

private theorem membered_commas {members : List Member} (sound : ∀ member ∈ members, member.Sound)
    (passed : ∀ member ∈ members, Passed member.value) (some : members ≠ []) (rest : List UInt8) :
    ∃ key colon value behind, Next 34 (commas (members.map Member.text) ++ 125 :: rest) key ∧
      bounded skipString key = .done () colon ∧ Next 58 colon value ∧ skip value = .done () behind ∧
      Membered Bool.false behind rest := by
  induction members with
  | nil => exact absurd rfl some
  | cons member members ih =>
    obtain ⟨here, sound⟩ := List.forall_mem_cons.mp sound
    obtain ⟨first, passed⟩ := List.forall_mem_cons.mp passed
    cases members with
    | nil =>
      obtain ⟨blank, all, skipped⟩ := first (125 :: rest) (ends_of_mark (by simp) _)
      exact ⟨_, _, _, _, here.quote _, bounded_skipString here.key _, here.colon _, skip_blank skipped,
        .ends (Next.behind all rfl rest)⟩
    | cons next members =>
      obtain ⟨key, colon, value, last, quote, string, seen, item, membered⟩ := ih sound passed (List.cons_ne_nil _ _)
      obtain ⟨blank, all, skipped⟩ := first (44 :: (commas ((next :: members).map Member.text) ++ 125 :: rest))
        (ends_of_mark (by simp) _)
      have more := MoreMembers.continues (Next.behind all rfl _) quote
      refine ⟨_, _, _, _, ?_, bounded_skipString here.key _, here.colon _, skip_blank skipped,
        .member more string seen item membered⟩
      rw [List.map_cons, commas, List.append_assoc, List.cons_append]
      · exact here.quote _
      · exact List.cons_ne_nil _ _

private theorem skip_visible {mark : UInt8} (visible : isSpace mark = Bool.false) (text : List UInt8) :
    (mark :: text).dropWhile isSpace = mark :: text := List.dropWhile_cons_of_neg (by simp [visible])

theorem passed_text {text : List UInt8} (sound : Text text) : Passed text := by
  intro rest ends
  induction sound generalizing rest with
  | null => exact ⟨[], nofun, rfl⟩
  | true => exact ⟨[], nofun, rfl⟩
  | false => exact ⟨[], nofun, rfl⟩
  | number signed digits behind power =>
    refine ⟨[], nofun, ?_⟩
    have read := skipNumber_reads digits behind power ends
    obtain ⟨octet, others, rfl, digit⟩ := digits.first
    simp only [List.append_assoc, List.cons_append] at read ⊢
    obtain rfl | rfl := signed
    · rw [List.nil_append, skip_visible (visible_of_isDigit digit)]
      exact skip_digit digit read
    · rw [List.singleton_append, skip_visible rfl]
      exact read
  | string sound =>
    refine ⟨[], nofun, ?_⟩
    rw [List.cons_append, List.append_assoc, skip_visible rfl, skip_string]
    exact bounded_skipString sound rest
  | emptyList blank =>
    refine ⟨[], nofun, ?_⟩
    rw [List.cons_append, List.append_assoc, skip_visible rfl]
    exact skip_of_listed (.ends (Next.behind blank rfl rest))
  | list some sound ih =>
    refine ⟨[], nofun, ?_⟩
    obtain ⟨behind, skipped, listed⟩ := listed_commas ih some rest
    rw [List.cons_append, List.append_assoc, skip_visible rfl]
    exact skip_of_listed (.first skipped listed)
  | emptyObject blank =>
    refine ⟨[], nofun, ?_⟩
    rw [List.cons_append, List.append_assoc, skip_visible rfl]
    exact skip_of_membered (.ends (Next.behind blank rfl rest))
  | object some sound values ih =>
    refine ⟨[], nofun, ?_⟩
    obtain ⟨key, colon, value, behind, quote, string, seen, skipped, membered⟩ := membered_commas sound ih some rest
    rw [List.cons_append, List.append_assoc, skip_visible rfl]
    exact skip_of_membered (.member (.starts quote) string seen skipped membered)
  | padded front sound back ih =>
    obtain ⟨blank, all, skipped⟩ := ih (_ ++ rest) (ends_blank back ends)
    refine ⟨blank ++ _, fun octet inside => (List.mem_append.mp inside).elim (all octet) (back octet), ?_⟩
    rw [List.append_assoc, List.append_assoc, dropWhile_blank front, List.append_assoc]
    exact skipped

end LedgerClient.Json.Grammar
