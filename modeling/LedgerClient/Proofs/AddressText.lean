import LedgerClient.Address
import LedgerClient.Proofs.Base32Reading
import Mathlib.Data.List.Basic

/-! Addresses as texts. What is written of an address is read back in any case of its
letters. An address takes 288 bits and its text has room for two more, which nothing looks
at: four texts are read as one and the same address, and only one of them is written. -/

namespace LedgerClient

private theorem Sha512.length_digest256 (message : List UInt8) : (digest256 message).length = 32 := rfl

namespace Address

/-- The octets that a text of an address stands for. -/
def payload (address : Address) : List UInt8 := address.octets ++ address.checksum

private theorem length_checksum (address : Address) : address.checksum.length = 4 := by
  rw [checksum, List.length_drop, Sha512.length_digest256]

theorem length_payload (address : Address) : address.payload.length = 36 := by
  rw [payload, List.length_append, address.size, length_checksum]

theorem toList_text (address : Address) : address.text.toList = Base32.spell address.payload [false, false] := by
  rw [text, String.toList_ofList, ← payload, Base32.encode_eq_spell, length_payload]
  rfl

/-- An address is read off the octets of a text if they end in its checksum. -/
def ofPayload (octets : List UInt8) : Except Fault Address :=
  match ofOctets? (octets.take 32) with
  | none => .error .encoding
  | some address => if octets.drop 32 = address.checksum then .ok address else .error .checksum

private theorem parse_of_length {text : String} (long : (Utf8.encode text.toList).length = 58) :
    parse text = match Base32.decode? text.toList with
      | none => .error .encoding
      | some octets => ofPayload octets :=
  if_neg (not_not_intro long)

private theorem parse_of_other_length {text : String} (other : (Utf8.encode text.toList).length ≠ 58) :
    parse text = .error (.length (Utf8.encode text.toList).length) :=
  if_pos other

private theorem ofPayload_of_length {octets : List UInt8} (whole : octets.length = 36) :
    (∃ address : Address, octets.take 32 = address.octets ∧
      ofPayload octets = if octets.drop 32 = address.checksum then .ok address else .error .checksum) := by
  have size : (octets.take 32).length = 32 := by
    rw [List.length_take, whole]
    rfl
  refine ⟨⟨octets.take 32, size⟩, rfl, ?_⟩
  rw [ofPayload, ofOctets?, dif_pos size]

private theorem ofPayload_eq_ok_iff {octets : List UInt8} (whole : octets.length = 36) {address : Address} :
    ofPayload octets = .ok address ↔ octets = address.payload := by
  obtain ⟨found, front, read⟩ := ofPayload_of_length whole
  rw [read]
  constructor
  · intro ok
    split at ok
    next same =>
      cases ok
      rw [payload, ← front, ← same, List.take_append_drop]
    next => cases ok
  · rintro rfl
    have size : address.octets.length = 32 := address.size
    have same : found = address := by
      rw [payload, List.take_left' size] at front
      obtain ⟨octets, size⟩ := address
      obtain ⟨octets', size'⟩ := found
      cases front
      rfl
    rw [payload, List.drop_left' size, same, if_pos rfl]

/-- A text with as many octets as an address takes has room for 36 octets and two bits. -/
theorem length_of_decode? {text : List Char} {octets : List UInt8} (read : Base32.decode? text = some octets)
    (long : (Utf8.encode text).length = 58) :
    text.length = 58 ∧ octets.length = 36 ∧ ∃ x y, text.map Char.toUpper = Base32.spell octets [x, y] := by
  rw [Utf8.encode_ascii (Base32.ascii_of_decode? read), List.length_map] at long
  obtain ⟨spare, short, whole, spelt⟩ := Base32.decode?_eq_some_iff.mp read
  have bits : spare.length = 2 := by omega
  obtain ⟨x, y, rfl⟩ := List.length_eq_two.mp bits
  exact ⟨long, by omega, x, y, spelt⟩

private theorem decode?_of_spell {text : List Char} {octets : List UInt8} (whole : octets.length = 36) {x y : Bool}
    (spelt : text.map Char.toUpper = Base32.spell octets [x, y]) :
    Base32.decode? text = some octets ∧ (Utf8.encode text).length = 58 := by
  have long : text.length = 58 := by
    rw [← List.length_map Char.toUpper, spelt]
    exact Base32.length_spell (by rw [whole]; rfl)
  have read : Base32.decode? text = some octets := by
    refine Base32.decode?_eq_some_iff.mpr ⟨[x, y], Nat.lt_of_sub_eq_succ rfl, ?_, spelt⟩
    rw [long, whole]
    rfl
  rw [Utf8.encode_ascii (Base32.ascii_of_decode? read), List.length_map]
  exact ⟨read, long⟩

/-- A text is read as an address just if its capital letters spell the address, with any
two bits behind it. -/
theorem parse_eq_ok_iff {text : String} {address : Address} : parse text = .ok address ↔
    ∃ x y, text.toUpper.toList = Base32.spell address.payload [x, y] := by
  rw [String.toUpper, String.toList_map]
  constructor
  · intro ok
    by_cases long : (Utf8.encode text.toList).length = 58
    · rw [parse_of_length long] at ok
      split at ok
      next => cases ok
      next octets read =>
        obtain ⟨_, whole, spelt⟩ := length_of_decode? read long
        rwa [(ofPayload_eq_ok_iff whole).mp ok] at spelt
    · rw [parse_of_other_length long] at ok
      cases ok
  · rintro ⟨x, y, spelt⟩
    obtain ⟨read, long⟩ := decode?_of_spell (length_payload address) spelt
    rw [parse_of_length long, read]
    exact (ofPayload_eq_ok_iff (length_payload address)).mpr rfl

theorem toUpper_text (address : Address) : address.text.toUpper = address.text := by
  have capital : ∀ n < 32, (Base32.symbol n).toUpper = Base32.symbol n := by decide
  rw [← String.toList_inj, String.toUpper, String.toList_map, toList_text, Base32.spell, List.map_map]
  exact List.map_congr_left fun n inside => capital n (Bits.toSymbols_lt n inside)

theorem parse_text {address : Address} {text : String} (same : text.toUpper = address.text) :
    parse text = .ok address :=
  parse_eq_ok_iff.mpr ⟨false, false, by rw [same, toList_text]⟩

/-- An address is written with 58 characters, all of them capital letters or digits from 2
to 7, and no two addresses are written alike. Whatever the case of each letter, the text is
read as the address. -/
theorem text_reads_back (address : Address) :
    address.text.toList.length = 58 ∧
    (∀ c ∈ address.text.toList, ('A' ≤ c ∧ c ≤ 'Z') ∨ ('2' ≤ c ∧ c ≤ '7')) ∧
    (∀ other : Address, other.text = address.text → other = address) ∧
    ∀ text : String, text.toUpper = address.text → parse text = .ok address := by
  refine ⟨?_, ?_, fun other same => ?_, fun text same => parse_text same⟩
  · rw [toList_text]
    exact Base32.length_spell (by rw [length_payload]; rfl)
  · intro c inside
    rw [toList_text] at inside
    obtain ⟨n, among, rfl⟩ := List.mem_map.mp inside
    exact Base32.symbol_range n (Bits.toSymbols_lt n among)
  · have read := parse_text (toUpper_text other)
    rw [same, parse_text (toUpper_text address)] at read
    exact (Except.ok.inj read).symm

theorem text_zero : zero.text = "AAAAAAAAAAAAAAAAAAAAAAAAAAAAAAAAAAAAAAAAAAAAAAAAAAAAY5HFKQ" := by decide +kernel

/-- The address that is all zeros, in letters of both cases. -/
theorem text_reads_back_zero :
    "AaaaAAAAAAAAAAAAAAAAAAAAAAAAAAAAAAAAAAAAAAAAAAAAAAAAy5HfKq".toUpper = zero.text ∧
      parse "AaaaAAAAAAAAAAAAAAAAAAAAAAAAAAAAAAAAAAAAAAAAAAAAAAAAy5HfKq" = .ok zero := by
  have same : "AaaaAAAAAAAAAAAAAAAAAAAAAAAAAAAAAAAAAAAAAAAAAAAAAAAAy5HfKq".toUpper = zero.text := by
    rw [text_zero]
    decide +kernel
  obtain ⟨_, _, _, back⟩ := text_reads_back zero
  exact ⟨same, back _ same⟩

private theorem toSymbols_group : ∀ a b c x y, Bits.toSymbols 5 [a, b, c, x, y] =
    [4 * Bits.toNat [a, b, c] + (2 * x.toNat + y.toNat)] := by
  decide

/-- The last symbol of a text holds the last three bits of its octets and the two that are
left over. -/
theorem spell_payload (address : Address) : ∃ front value, value < 8 ∧ ∀ x y, Base32.spell address.payload [x, y] =
    front ++ [Base32.symbol (4 * value + (2 * x.toNat + y.toNat))] := by
  have bits : (Bits.ofOctets address.payload).length = 288 := by rw [Bits.length_ofOctets, length_payload]
  have whole := List.take_append_drop 285 (Bits.ofOctets address.payload)
  have front : ((Bits.ofOctets address.payload).take 285).length = 285 := List.length_take_of_le (by omega)
  have rear : ((Bits.ofOctets address.payload).drop 285).length = 3 := by rw [List.length_drop, bits]
  obtain ⟨a, b, c, last⟩ := List.length_eq_three.mp rear
  generalize (Bits.ofOctets address.payload).take 285 = groups at whole front
  refine ⟨(Bits.toSymbols 5 groups).map Base32.symbol, Bits.toNat [a, b, c], Bits.toNat_lt [a, b, c], fun x y => ?_⟩
  rw [Base32.spell, ← whole, last, List.append_assoc, Bits.toSymbols_append (by decide) (by rw [front]; decide),
    List.map_append]
  exact congrArg _ (congrArg (List.map Base32.symbol) (toSymbols_group a b c x y))

private theorem exists_bits_iff {p : Nat → Prop} :
    (∃ x y : Bool, p (2 * x.toNat + y.toNat)) ↔ ∃ spare < 4, p spare := by
  constructor
  · rintro ⟨x, y, holds⟩
    refine ⟨_, ?_, holds⟩
    cases x <;> cases y <;> decide
  · rintro ⟨spare, small, holds⟩
    match spare, small with
    | 0, _ => exact ⟨false, false, holds⟩
    | 1, _ => exact ⟨false, true, holds⟩
    | 2, _ => exact ⟨true, false, holds⟩
    | 3, _ => exact ⟨true, true, holds⟩

private theorem ofPayload_ne_encoding {octets : List UInt8} (whole : octets.length = 36) :
    ofPayload octets ≠ .error .encoding := by
  obtain ⟨found, _, read⟩ := ofPayload_of_length whole
  rw [read]
  split <;> exact nofun

private theorem parse_eq_length_iff {text : String} {count : Nat} :
    parse text = .error (.length count) ↔ (Utf8.encode text.toList).length = count ∧ count ≠ 58 := by
  by_cases long : (Utf8.encode text.toList).length = 58
  · rw [parse_of_length long]
    refine iff_of_false (fun failed => ?_) fun ⟨same, other⟩ => other (same.symm.trans long)
    split at failed
    next => cases failed
    next octets read =>
      obtain ⟨_, whole, _⟩ := length_of_decode? read long
      obtain ⟨found, _, outcome⟩ := ofPayload_of_length whole
      rw [outcome] at failed
      split at failed <;> cases failed
  · rw [parse_of_other_length long]
    constructor
    · intro same
      cases same
      exact ⟨rfl, long⟩
    · rintro ⟨rfl, _⟩
      rfl

private theorem parse_eq_encoding_iff {text : String} (long : (Utf8.encode text.toList).length = 58) :
    parse text = .error .encoding ↔ ∃ octet ∈ Utf8.encode text.toList, ¬Base32.IsSign octet := by
  rw [Base32.exists_unsigned_iff, ← Base32.decode?_eq_none_iff, parse_of_length long]
  cases read : Base32.decode? text.toList with
  | none => exact iff_of_true rfl rfl
  | some octets => exact iff_of_false (ofPayload_ne_encoding (length_of_decode? read long).2.1) nofun

/-- A text is read as an address just if its capital letters are those of the written text,
but for the last one, in which two bits are free: four texts stand for each address, up to
the case of letters. A text of another length than 58 octets is refused for its length, and
one of that length for its encoding just if one of the octets is no sign of base32. -/
theorem parse_outcomes :
    (∀ address : Address, ∃ front value, value < 8 ∧
      address.text.toList = front ++ [Base32.symbol (4 * value)] ∧
      (∀ i < 4, ∀ j < 4, Base32.symbol (4 * value + i) = Base32.symbol (4 * value + j) → i = j) ∧
      ∀ text : String, parse text = .ok address ↔
        ∃ spare < 4, text.toUpper.toList = front ++ [Base32.symbol (4 * value + spare)]) ∧
    (∀ text count, parse text = .error (.length count) ↔
      (Utf8.encode text.toList).length = count ∧ count ≠ 58) ∧
    ∀ text : String, (Utf8.encode text.toList).length = 58 →
      (parse text = .error .encoding ↔ ∃ octet ∈ Utf8.encode text.toList, ¬Base32.IsSign octet) := by
  refine ⟨fun address => ?_, fun text count => parse_eq_length_iff, fun text long => parse_eq_encoding_iff long⟩
  obtain ⟨front, value, small, spelt⟩ := spell_payload address
  refine ⟨front, value, small, ?_, fun i below j below' same => ?_, fun text => ?_⟩
  · rw [toList_text, spelt]
    rfl
  · have equal := Base32.symbol_injective (by omega) (by omega) same
    omega
  · rw [parse_eq_ok_iff]
    simp only [spelt]
    exact exists_bits_iff (p := fun spare => text.toUpper.toList = front ++ [Base32.symbol (4 * value + spare)])

/-- A text of the right length, with an accent on its first letter. -/
theorem parse_outcomes_accent :
    (Utf8.encode "éAAAAAAAAAAAAAAAAAAAAAAAAAAAAAAAAAAAAAAAAAAAAAAAAAAY5HFKQ".toList).length = 58 ∧
      parse "éAAAAAAAAAAAAAAAAAAAAAAAAAAAAAAAAAAAAAAAAAAAAAAAAAAY5HFKQ" = .error .encoding := by
  obtain ⟨_, _, refused⟩ := parse_outcomes
  have long : (Utf8.encode "éAAAAAAAAAAAAAAAAAAAAAAAAAAAAAAAAAAAAAAAAAAAAAAAAAAY5HFKQ".toList).length = 58 := by
    decide +kernel
  exact ⟨long, (refused _ long).mpr ⟨195, by decide +kernel, by decide⟩⟩

/-- What is written of the address ends in another letter. -/
theorem last_symbol_may_differ :
    parse "AAAAAAAAAAAAAAAAAAAAAAAAAAAAAAAAAAAAAAAAAAAAAAAAAAAAY5HFKT" = .ok zero ∧
      "AAAAAAAAAAAAAAAAAAAAAAAAAAAAAAAAAAAAAAAAAAAAAAAAAAAAY5HFKT".toUpper ≠ zero.text := by
  rw [text_zero]
  decide +kernel

end Address
end LedgerClient
