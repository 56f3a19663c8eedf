import LedgerClient.Json.Printer
import LedgerClient.Proofs.JsonGrammar
import LedgerClient.Proofs.Utf8Reading

/-! What the octets between two quotes denote, and that the reader of strings finds it.
A character stands for itself in UTF-8 unless it is a quote, a backslash or a control;
any character may be spelt by an escape, those past U+FFFF by two. -/

namespace LedgerClient.Json

namespace Grammar
open Reader

/-- What the letters behind a backslash stand for. -/
def escapes : List (Char × Char) :=
  [('"', '"'), ('\\', '\\'), ('/', '/'), ('b', '\x08'), ('f', '\x0c'), ('n', '\n'), ('r', '\r'), ('t', '\t')]

/-- Four hexadecimal digits with their number. -/
inductive Hex : List UInt8 → Nat → Prop
  | digits {a b c d : UInt8} {a' b' c' d' : Nat} (first : hexDigit? a = some a') (second : hexDigit? b = some b')
      (third : hexDigit? c = some c') (fourth : hexDigit? d = some d') :
      Hex [a, b, c, d] (((a' * 16 + b') * 16 + c') * 16 + d')

/-- The octets between two quotes denote a text. -/
inductive Spells : List UInt8 → List Char → Prop
  | nil : Spells [] []
  | plain {c : Char} {body : List UInt8} {text : List Char} (visible : 0x20 ≤ c.toNat) (no_quote : c ≠ '"')
      (no_backslash : c ≠ '\\') (behind : Spells body text) : Spells (String.utf8EncodeChar c ++ body) (c :: text)
  | letter {octet : UInt8} {c : Char} {body : List UInt8} {text : List Char}
      (known : (character octet, c) ∈ escapes) (behind : Spells body text) : Spells (92 :: octet :: body) (c :: text)
  | numbered {digits body : List UInt8} {n : Nat} {text : List Char} (number : Hex digits n)
      (alone : n < 0xD800 ∨ 0xDFFF < n) (behind : Spells body text) :
      Spells (92 :: 117 :: (digits ++ body)) (Char.ofNat n :: text)
  | paired {digits others body : List UInt8} {high low : Nat} {text : List Char} (first : Hex digits high)
      (second : Hex others low) (leads : 0xD800 ≤ high ∧ high ≤ 0xDBFF) (follows : 0xDC00 ≤ low ∧ low ≤ 0xDFFF)
      (behind : Spells body text) :
      Spells (92 :: 117 :: (digits ++ 92 :: 117 :: (others ++ body)))
        (Char.ofNat (0x10000 + (high - 0xD800) * 0x400 + (low - 0xDC00)) :: text)

theorem isPlain_iff {octet : UInt8} :
    isPlain octet = true ↔ 0x20 ≤ octet.toNat ∧ octet.toNat ≠ 34 ∧ octet.toNat ≠ 92 := by
  simp only [isPlain, Bool.and_eq_true, decide_eq_true_eq, ne_eq, ← UInt8.toNat_inj, UInt8.le_iff_toNat_le]
  exact and_assoc

private theorem isPlain_of_mem {c : Char} (visible : 0x20 ≤ c.toNat) (no_quote : c ≠ '"') (no_backslash : c ≠ '\\') :
    ∀ octet ∈ String.utf8EncodeChar c, isPlain octet = true := by
  intro octet inside
  rw [isPlain_iff]
  by_cases small : c.toNat < 0x80
  · rw [Utf8.encodeChar_ascii small, List.mem_singleton] at inside
    rw [inside, Utf8.toNat_ofNat_of_lt (by omega)]
    exact ⟨visible, fun quote => no_quote (Char.toNat_inj.mp quote),
      fun backslash => no_backslash (Char.toNat_inj.mp backslash)⟩
  · have large := (Utf8.spelling c).high (by omega) octet inside
    omega

theorem Hex.body {digits : List UInt8} {n : Nat} (number : Hex digits n) {body : List UInt8} (sound : Body body) :
    Body (92 :: 117 :: (digits ++ body)) := by
  cases number with
  | digits first second third fourth => exact .numbered (by simp [first, second, third, fourth]) sound

private theorem Body.append {front body : List UInt8} (plain : ∀ octet ∈ front, isPlain octet = true)
    (sound : Body body) :
    Body (front ++ body) := by
  induction front with
  | nil => exact sound
  | cons octet front ih =>
    obtain ⟨first, plain⟩ := List.forall_mem_cons.mp plain
    exact .plain first (ih plain)

private theorem escapeLetter_of_mem {octet : UInt8} {c : Char} (known : (character octet, c) ∈ escapes) :
    EscapeLetter (character octet) :=
  have letters : ∀ entry ∈ escapes, EscapeLetter entry.1 := by decide
  letters _ known

theorem Spells.body {body : List UInt8} {text : List Char} (spelt : Spells body text) : Body body := by
  induction spelt with
  | nil => exact .nil
  | plain visible no_quote no_backslash _ ih => exact .append (isPlain_of_mem visible no_quote no_backslash) ih
  | letter known _ ih => exact .letter (escapeLetter_of_mem known) ih
  | numbered number _ _ ih => exact number.body ih
  | paired first second _ _ _ ih => exact first.body (second.body ih)

/-- Two hexadecimal digits behind two zeros are the number of a control. -/
theorem hex_control {n : Nat} (small : n < 0x20) : ∃ digits, Hex digits n ∧
    Utf8.encode ['\\', 'u', '0', '0', Nat.digitChar (n / 16), Nat.digitChar (n % 16)] = 92 :: 117 :: digits := by
  have digits : ∀ n < 0x20, hexDigit? (UInt8.ofNat (Nat.digitChar (n / 16)).toNat) = some (n / 16) ∧
      hexDigit? (UInt8.ofNat (Nat.digitChar (n % 16)).toNat) = some (n % 16) ∧
      Utf8.encode ['\\', 'u', '0', '0', Nat.digitChar (n / 16), Nat.digitChar (n % 16)] =
        [92, 117, 48, 48, UInt8.ofNat (Nat.digitChar (n / 16)).toNat,
          UInt8.ofNat (Nat.digitChar (n % 16)).toNat] := by
    decide
  obtain ⟨third, fourth, same⟩ := digits n small
  have zero : hexDigit? 48 = some 0 := rfl
  have hex := Hex.digits zero zero third fourth
  have sum : ((0 * 16 + 0) * 16 + n / 16) * 16 + n % 16 = n := by omega
  rw [sum] at hex
  exact ⟨_, hex, same⟩

private theorem Spells.escaped (c : Char) {body : List UInt8} {text : List Char} (behind : Spells body text) :
    Spells (Utf8.encode (Json.escaped c) ++ body) (c :: text) := by
  unfold Json.escaped
  split
  all_goals try exact .letter (by decide) behind
  next no_quote no_backslash _ _ _ _ _ =>
    split
    next control =>
      obtain ⟨digits, hex, same⟩ := hex_control control
      have spelt := Spells.numbered hex (.inl (by omega)) behind
      rw [Char.ofNat_toNat] at spelt
      rw [same]
      exact spelt
    next visible =>
      rw [Utf8.encode, List.flatMap_singleton]
      exact .plain (by omega) no_quote no_backslash behind

/-- The text of a string spells it. -/
theorem spells_escaped (text : List Char) : Spells (Utf8.encode (text.flatMap Json.escaped)) text := by
  induction text with
  | nil => exact .nil
  | cons c text ih =>
    rw [List.flatMap_cons, Utf8.encode_append]
    exact ih.escaped c

end Grammar

namespace Reader
open Grammar

private theorem fourHex_of_hex {digits : List UInt8} {n : Nat} (number : Hex digits n) (rest : List UInt8) :
    fourHex (digits ++ rest) = .done n rest := by
  cases number with
  | digits first second third fourth =>
    simp only [List.cons_append, List.nil_append, fourHex, first, second, third, fourth]

theorem characters_succ (bound : Nat) : characters (bound + 1) = plain >>= fun text => next >>= fun mark =>
    match mark with
    | some '\\' => escape >>= fun c => characters bound >>= fun behind => pure (text ++ c :: behind)
    | _ => pure text := rfl

private theorem decode?_cons {c : Char} {octets : List UInt8} {text : List Char}
    (read : Utf8.decode? octets = some text) :
    Utf8.decode? (String.utf8EncodeChar c ++ octets) = some (c :: text) := by
  rw [Utf8.decode?, Utf8.pieces_spelling (Utf8.spelling c), Char.ofNat_toNat, List.mapM_cons]
  rw [Utf8.decode?] at read
  rw [read]
  rfl

private theorem plain_cons {c : Char} (inside : ∀ octet ∈ String.utf8EncodeChar c, isPlain octet = true)
    {input left : List UInt8} {text : List Char} (read : plain input = .done text left) :
    plain (String.utf8EncodeChar c ++ input) = .done (c :: text) left := by
  obtain ⟨behind, same, stop, rest, rfl, fits⟩ := plain_eq_done read
  have stops : isPlain stop = false := by
    have first := List.head?_dropWhile_not isPlain input
    rw [behind] at first
    simpa using first
  rw [← List.takeWhile_append_dropWhile (p := isPlain) (l := input), behind, ← List.append_assoc]
  refine plain_of_parts (fun octet among => ?_) stops fits (decode?_cons same)
  exact (List.mem_append.mp among).elim (inside octet) (List.all_eq_true.mp List.all_takeWhile octet)

private theorem characters_plain {bound : Nat} {c : Char}
    (inside : ∀ octet ∈ String.utf8EncodeChar c, isPlain octet = true)
    {input left : List UInt8} {text : List Char} (read : characters bound input = .done text left) :
    characters bound (String.utf8EncodeChar c ++ input) = .done (c :: text) left := by
  cases bound with
  | zero => cases read
  | succ bound =>
    rw [characters_succ] at read ⊢
    obtain ⟨front, stop, first, read⟩ := bind_eq_done.mp read
    rw [bind_of_done (plain_cons inside first)]
    obtain ⟨mark, rest, seen, read⟩ := bind_eq_done.mp read
    rw [bind_of_done seen]
    change Takes _ _ _ _ at read
    split at read
    next =>
      obtain ⟨escaped, rest, second, read⟩ := bind_eq_done.mp read
      obtain ⟨others, rest, third, read⟩ := bind_eq_done.mp read
      cases read
      rw [bind_of_done second, bind_of_done third]
      rfl
    next =>
      cases read
      rfl

private theorem characters_escape {bound : Nat} {input rest left : List UInt8} {c : Char} {text : List Char}
    (escaped : escape input = .done c rest) (read : characters bound rest = .done text left) :
    characters (bound + 1) (92 :: input) = .done (c :: text) left := by
  have none : plain (92 :: input) = .done [] (92 :: input) := @plain_of_parts [] _ _ _ nofun rfl (by decide) rfl
  rw [characters_succ, bind_of_done none]
  change (escape >>= _) input = _
  rw [bind_of_done escaped, bind_of_done read]
  rfl

private theorem escape_letter {octet : UInt8} {c : Char} (known : (character octet, c) ∈ escapes) (rest : List UInt8) :
    escape (octet :: rest) = .done c rest := by
  unfold escape
  rw [next_bind]
  simp only [escapes, List.mem_cons, Prod.mk.injEq, List.not_mem_nil, or_false] at known
  rcases known with ⟨letter, rfl⟩ | ⟨letter, rfl⟩ | ⟨letter, rfl⟩ | ⟨letter, rfl⟩ | ⟨letter, rfl⟩ | ⟨letter, rfl⟩ |
    ⟨letter, rfl⟩ | ⟨letter, rfl⟩ <;> (rw [letter]; rfl)

private theorem numbered_alone {digits : List UInt8} {n : Nat} (number : Hex digits n) (alone : n < 0xD800 ∨ 0xDFFF < n)
    (rest : List UInt8) : numbered (digits ++ rest) = .done (Char.ofNat n) rest := by
  unfold numbered
  rw [bind_of_done (fourHex_of_hex number rest), if_neg (by omega), if_pos (by omega)]
  rfl

private theorem numbered_paired {digits others : List UInt8} {high low : Nat} (first : Hex digits high)
    (second : Hex others low) (leads : 0xD800 ≤ high ∧ high ≤ 0xDBFF) (follows : 0xDC00 ≤ low ∧ low ≤ 0xDFFF)
    (rest : List UInt8) : numbered (digits ++ 92 :: 117 :: (others ++ rest)) =
      .done (Char.ofNat (0x10000 + (high - 0xD800) * 0x400 + (low - 0xDC00))) rest := by
  unfold numbered
  rw [bind_of_done (fourHex_of_hex first _), if_neg (by omega), if_neg (by omega)]
  change (fourHex >>= _) (others ++ rest) = _
  rw [bind_of_done (fourHex_of_hex second rest), if_neg (by omega)]
  rfl

private theorem characters_of_spells {body : List UInt8} {text : List Char} (spelt : Spells body text)
    (rest : List UInt8)
    {bound : Nat} (enough : body.length < bound) : characters bound (body ++ 34 :: rest) = .done text rest := by
  induction spelt generalizing bound with
  | nil =>
    obtain ⟨bound, rfl⟩ := Nat.exists_eq_add_of_le' enough
    rfl
  | plain visible no_quote no_backslash _ ih =>
    rw [List.append_assoc]
    refine characters_plain (isPlain_of_mem visible no_quote no_backslash) (ih ?_)
    simp only [List.length_append] at enough
    omega
  | letter known _ ih =>
    obtain ⟨bound, rfl⟩ := Nat.exists_eq_add_of_le' (Nat.one_le_of_lt enough)
    exact characters_escape (escape_letter known _) (ih (by simp only [List.length_cons] at enough; omega))
  | numbered number alone _ ih =>
    obtain ⟨bound, rfl⟩ := Nat.exists_eq_add_of_le' (Nat.one_le_of_lt enough)
    rw [List.cons_append, List.cons_append, List.append_assoc]
    exact characters_escape (numbered_alone number alone _)
      (ih (by simp only [List.length_cons, List.length_append] at enough; omega))
  | paired first second leads follows _ ih =>
    obtain ⟨bound, rfl⟩ := Nat.exists_eq_add_of_le' (Nat.one_le_of_lt enough)
    simp only [List.cons_append, List.append_assoc]
    exact characters_escape (numbered_paired first second leads follows _)
      (ih (by simp only [List.length_cons, List.length_append] at enough; omega))

theorem string_of_spells {body : List UInt8} {text : List Char} (spelt : Spells body text) (rest : List UInt8) :
    string (body ++ 34 :: rest) = .done (String.ofList text) rest := by
  have read : bounded characters (body ++ 34 :: rest) = .done text rest :=
    characters_of_spells spelt rest (by simp only [List.length_append, List.length_cons]; omega)
  unfold string
  rw [bind_of_done read]
  rfl

end Reader
end LedgerClient.Json
