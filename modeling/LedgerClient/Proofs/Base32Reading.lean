import LedgerClient.Octets.Base32
import LedgerClient.Proofs.BitGroups
import LedgerClient.Proofs.Utf8Reading

/-! Reading base32. A text is read as the octets that its symbols fill, whatever the bits
behind the last octet are, and letters of either case stand for the same symbol. -/

namespace LedgerClient.Base32

/-- A text that is read as the given octets, with the bits that it has to spare. -/
def spell (octets : List UInt8) (spare : List Bool) : List Char :=
  (Bits.toSymbols 5 (Bits.ofOctets octets ++ spare)).map symbol

private theorem value?_symbol : ∀ n < 32, value? (symbol n) = some n := by decide

theorem symbol_range : ∀ n < 32, ('A' ≤ symbol n ∧ symbol n ≤ 'Z') ∨ ('2' ≤ symbol n ∧ symbol n ≤ '7') := by
  decide

theorem symbol_injective {m n : Nat} (small : m < 32) (small' : n < 32) (same : symbol m = symbol n) : m = n := by
  have values := congrArg value? same
  rw [value?_symbol m small, value?_symbol n small'] at values
  exact Option.some.inj values

private theorem toUpper_of_above {c : Char} (above : 'z' < c) : c.toUpper = c :=
  dif_neg fun lower => absurd above (Nat.not_lt.mpr lower.2)

private theorem value?_of_above {c : Char} (above : 'z' < c) : value? c = none := by
  have out : ∀ top : Char, top ≤ 'z' → ¬c ≤ top :=
    fun top under within => Nat.lt_irrefl _ (Nat.lt_of_lt_of_le above (Nat.le_trans within under))
  rw [value?, if_neg fun capital => out 'Z' (by decide) capital.2, if_neg fun lower => out 'z' (by decide) lower.2,
    if_neg fun digit => out '7' (by decide) digit.2]

private theorem forall_char {p : Char → Prop} (low : ∀ n ≤ 122, p (Char.ofNat n)) (above : ∀ c, 'z' < c → p c)
    (c : Char) :
    p c := by
  by_cases within : c.toNat ≤ 122
  · have here := low c.toNat within
    rwa [Char.ofNat_toNat] at here
  · exact above c (Nat.lt_of_not_le within)

private theorem value?_toUpper (c : Char) : value? c.toUpper = value? c :=
  forall_char (p := fun c => value? c.toUpper = value? c) (by decide +kernel)
    (fun c above => by rw [toUpper_of_above above]) c

private theorem symbol_of_value? (c : Char) : ∀ n ∈ value? c, n < 32 ∧ c.toUpper = symbol n ∧ c.toNat < 0x80 :=
  forall_char (p := fun c => ∀ n ∈ value? c, n < 32 ∧ c.toUpper = symbol n ∧ c.toNat < 0x80) (by decide +kernel)
    (fun c above n read => by rw [value?_of_above above] at read; cases read) c

/-- A character is read as the symbol that it is once it is a capital letter. -/
theorem value?_eq_some_iff {c : Char} {n : Nat} : value? c = some n ↔ n < 32 ∧ c.toUpper = symbol n := by
  constructor
  · intro read
    obtain ⟨small, same, _⟩ := symbol_of_value? c n read
    exact ⟨small, same⟩
  · rintro ⟨small, same⟩
    rw [← value?_toUpper, same, value?_symbol n small]

private theorem mapM_value?_eq_some_iff {text : List Char} {symbols : List Nat} :
    text.mapM value? = some symbols ↔ (∀ n ∈ symbols, n < 32) ∧ text.map Char.toUpper = symbols.map symbol := by
  induction text generalizing symbols with
  | nil =>
    cases symbols with
    | nil => exact iff_of_true rfl ⟨nofun, rfl⟩
    | cons n symbols => exact iff_of_false nofun nofun
  | cons c text ih =>
    rw [List.mapM_cons]
    constructor
    · intro read
      obtain ⟨n, first, read⟩ := Option.bind_eq_some_iff.mp read
      obtain ⟨others, rest, same⟩ := Option.bind_eq_some_iff.mp read
      cases same
      obtain ⟨small, same⟩ := value?_eq_some_iff.mp first
      obtain ⟨small', same'⟩ := ih.mp rest
      refine ⟨List.forall_mem_cons.mpr ⟨small, small'⟩, ?_⟩
      rw [List.map_cons, List.map_cons, same, same']
    · rintro ⟨small, same⟩
      cases symbols with
      | nil => cases same
      | cons n symbols =>
        obtain ⟨first, small⟩ := List.forall_mem_cons.mp small
        obtain ⟨same, same'⟩ := List.cons.inj same
        rw [value?_eq_some_iff.mpr ⟨first, same⟩, ih.mpr ⟨small, same'⟩]
        rfl

private theorem mapM_eq_none_iff {step : α → Option β} {items : List α} :
    items.mapM step = none ↔ ∃ item ∈ items, step item = none := by
  induction items with
  | nil => exact iff_of_false nofun fun ⟨_, inside, _⟩ => nomatch inside
  | cons item items ih =>
    simp only [List.mem_cons, exists_eq_or_imp, List.mapM_cons, ← ih]
    cases step item with
    | none => exact iff_of_true rfl (.inl rfl)
    | some value =>
      cases items.mapM step with
      | none => exact iff_of_true rfl (.inr rfl)
      | some values => exact iff_of_false nofun (Or.rec nofun nofun)

theorem decode?_eq_none_iff {text : List Char} : decode? text = none ↔ ∃ c ∈ text, value? c = none := by
  rw [decode?, Option.map_eq_none_iff, mapM_eq_none_iff]

theorem ascii_of_decode? {text : List Char} {octets : List UInt8} (read : decode? text = some octets) :
    ∀ c ∈ text, c.toNat < 0x80 := by
  intro c inside
  cases value : value? c with
  | none => cases read.symm.trans (decode?_eq_none_iff.mpr ⟨c, inside, value⟩)
  | some n => exact (symbol_of_value? c n value).2.2

theorem length_spell {octets : List UInt8} {spare : List Bool} {count : Nat}
    (whole : 8 * octets.length + spare.length = 5 * count) : (spell octets spare).length = count := by
  have length := congrArg List.length
    (Bits.ofSymbols_toSymbols (by decide : 0 < 5) (Bits.ofOctets octets ++ spare))
  rw [Bits.length_ofSymbols, List.length_append, List.length_append, Bits.length_ofOctets, whole,
    Bits.filling_of_dvd (Nat.dvd_mul_right 5 count), List.length_replicate, Nat.add_zero] at length
  rw [spell, List.length_map]
  exact Nat.eq_of_mul_eq_mul_left (by decide) length

/-- A text is read as some octets just if it spells them, with less than an octet to spare. -/
theorem decode?_eq_some_iff {text : List Char} {octets : List UInt8} : decode? text = some octets ↔
    ∃ spare, spare.length < 8 ∧ 8 * octets.length + spare.length = 5 * text.length ∧
      text.map Char.toUpper = spell octets spare := by
  constructor
  · intro read
    obtain ⟨symbols, values, rfl⟩ := Option.map_eq_some_iff.mp read
    obtain ⟨small, same⟩ := mapM_value?_eq_some_iff.mp values
    obtain ⟨whole, short⟩ := Bits.ofOctets_toOctets (Bits.ofSymbols 5 symbols)
    refine ⟨_, short, ?_, ?_⟩
    · have lengths := congrArg List.length same
      rw [List.length_map, List.length_map] at lengths
      rw [lengths, ← Bits.length_ofOctets, ← List.length_append, whole, Bits.length_ofSymbols]
    · rw [spell, whole, Bits.toSymbols_ofSymbols (by decide) small, same]
  · rintro ⟨spare, short, whole, same⟩
    have symbols := mapM_value?_eq_some_iff.mpr ⟨Bits.toSymbols_lt, same⟩
    rw [decode?, symbols, Option.map_some, Bits.ofSymbols_toSymbols (by decide), List.length_append,
      Bits.length_ofOctets, whole, Bits.filling_of_dvd (Nat.dvd_mul_right 5 _), List.replicate_zero, List.append_nil,
      (Bits.toOctets_ofOctets octets short).1]

/-- What is written leaves zeros to spare. -/
theorem encode_eq_spell (octets : List UInt8) :
    encode octets = spell octets (List.replicate (Bits.filling 5 (8 * octets.length)) false) := by
  have small : ∀ n ∈ Bits.toSymbols 5 (Bits.ofOctets octets), n < 2 ^ 5 := Bits.toSymbols_lt
  have bits := Bits.ofSymbols_toSymbols (by decide : 0 < 5) (Bits.ofOctets octets)
  rw [Bits.length_ofOctets] at bits
  rw [encode, spell, ← bits, Bits.toSymbols_ofSymbols (by decide) small]

/-- The octets of the letters and digits that stand for symbols. -/
def IsSign (octet : UInt8) : Prop :=
  (65 ≤ octet ∧ octet ≤ 90) ∨ (97 ≤ octet ∧ octet ≤ 122) ∨ (50 ≤ octet ∧ octet ≤ 55)

instance (octet : UInt8) : Decidable (IsSign octet) := inferInstanceAs (Decidable (_ ∨ _))

private theorem isSign_iff : ∀ n < 0x80, IsSign (UInt8.ofNat n) ↔ value? (Char.ofNat n) ≠ none := by decide +kernel

private theorem not_isSign_of_high {octet : UInt8} (high : 0x80 ≤ octet.toNat) : ¬IsSign octet := by
  have above : ∀ top : UInt8, top.toNat < 0x80 → ¬octet ≤ top :=
    fun top small under => absurd (Nat.le_trans high (UInt8.le_iff_toNat_le.mp under)) (Nat.not_le.mpr small)
  rintro (⟨_, capital⟩ | ⟨_, lower⟩ | ⟨_, digit⟩)
  · exact above 90 (by decide) capital
  · exact above 122 (by decide) lower
  · exact above 55 (by decide) digit

private theorem unsigned_iff (c : Char) : (∃ octet ∈ String.utf8EncodeChar c, ¬IsSign octet) ↔ value? c = none := by
  by_cases small : c.toNat < 0x80
  · have sign := isSign_iff c.toNat small
    rw [Char.ofNat_toNat] at sign
    simp only [Utf8.encodeChar_ascii small, List.mem_singleton, exists_eq_left, sign, ne_eq, Decidable.not_not]
  · have none : value? c = none := by
      cases read : value? c with
      | none => rfl
      | some n => exact absurd (symbol_of_value? c n read).2.2 small
    refine iff_of_true ?_ none
    obtain ⟨octet, inside⟩ := List.exists_mem_of_ne_nil _ (String.utf8EncodeChar_ne_nil (c := c))
    exact ⟨octet, inside, not_isSign_of_high ((Utf8.spelling c).high (Nat.le_of_not_lt small) octet inside)⟩

theorem exists_unsigned_iff {text : List Char} :
    (∃ octet ∈ Utf8.encode text, ¬IsSign octet) ↔ ∃ c ∈ text, value? c = none := by
  constructor
  · rintro ⟨octet, inside, unsigned⟩
    obtain ⟨c, present, inside⟩ := List.mem_flatMap.mp inside
    exact ⟨c, present, (unsigned_iff c).mp ⟨octet, inside, unsigned⟩⟩
  · rintro ⟨c, present, none⟩
    obtain ⟨octet, inside, unsigned⟩ := (unsigned_iff c).mpr none
    exact ⟨octet, List.mem_flatMap.mpr ⟨c, present, inside⟩, unsigned⟩

end LedgerClient.Base32
