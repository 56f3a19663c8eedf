import LedgerClient.Proofs.Utf8Reading
import LedgerClient.Url.Escape

/-! What percent encoding writes can be read back, and holds no other characters than
the set admits. -/

namespace LedgerClient.Percent

/-- A text with its escapes undone, if the octets are a text again. -/
def read? (text : List Char) : Option (List Char) := Utf8.decode? (decode (Utf8.encode text))

/-- Octets that may stand for themselves where escapes are undone later: a percent
sign would be taken for an escape, and an octet outside ASCII for a character. -/
structure Plain (keeps : UInt8 → Bool) : Prop where
  ascii : ∀ octet, keeps octet = true → octet.toNat < 0x80
  percent : keeps 37 = false

theorem forall_ascii {p : Char → Prop} (holds : ∀ n < 0x80, p (Char.ofNat n)) (c : Char) (ascii : c.toNat < 0x80) :
    p c := by
  simpa only [Char.ofNat_toNat] using holds c.toNat ascii

theorem forall_octet {p : UInt8 → Prop} (holds : ∀ n < 256, p (UInt8.ofNat n)) (octet : UInt8) : p octet := by
  simpa only [UInt8.ofNat_toNat] using holds octet.toNat octet.toNat_lt

private theorem hexValue?_hexDigit : ∀ n < 16, hexValue? (UInt8.ofNat (hexDigit n).toNat) = some n := by decide

private theorem hexDigit_ascii : ∀ n < 16, (hexDigit n).toNat < 0x80 := by decide

private theorem halves (octet : UInt8) : octet.toNat / 16 < 16 ∧ octet.toNat % 16 < 16 := by
  have size : octet.toNat < 256 := octet.toNat_lt
  omega

private theorem spell_ascii (octet : UInt8) : ∀ c ∈ spell octet, c.toNat < 0x80 := by
  obtain ⟨high, low⟩ := halves octet
  simp only [spell, List.forall_mem_cons, List.not_mem_nil, false_imp_iff, implies_true, and_true]
  exact ⟨by decide, hexDigit_ascii _ high, hexDigit_ascii _ low⟩

private theorem decode_spell (octet : UInt8) (rest : List UInt8) :
    decode (Utf8.encode (spell octet) ++ rest) = octet :: decode rest := by
  obtain ⟨high, low⟩ := halves octet
  have whole : octet.toNat / 16 * 16 + octet.toNat % 16 = octet.toNat := by omega
  rw [Utf8.encode_ascii (spell_ascii octet)]
  simp only [spell, List.map_cons, List.map_nil, List.cons_append, List.nil_append]
  rw [show UInt8.ofNat '%'.toNat = 37 from rfl, decode, hexValue?_hexDigit _ high, hexValue?_hexDigit _ low]
  simp only [whole, UInt8.ofNat_toNat]

private theorem decode_cons {octet : UInt8} (other : octet ≠ 37) (rest : List UInt8) :
    decode (octet :: rest) = octet :: decode rest := by
  rw [decode]
  intro _ _ _ same
  exact absurd same other

theorem toNat_char_of_ascii {octet : UInt8} (ascii : octet.toNat < 0x80) :
    (Char.ofNat octet.toNat).toNat = octet.toNat := by
  have valid : octet.toNat.isValidChar := .inl (by omega)
  rw [Char.ofNat, dif_pos valid]
  rfl

private theorem encode_kept {octet : UInt8} (ascii : octet.toNat < 0x80) :
    Utf8.encode [Char.ofNat octet.toNat] = [octet] := by
  have value := toNat_char_of_ascii ascii
  rw [Utf8.encode_ascii (by simpa [value] using ascii), List.map_singleton, value, UInt8.ofNat_toNat]

theorem decode_encodeOctets {keeps : UInt8 → Bool} (plain : Plain keeps) (octets : List UInt8) :
    decode (Utf8.encode (encodeOctets keeps octets)) = octets := by
  induction octets with
  | nil => rfl
  | cons octet octets ih =>
    have step : encodeOctets keeps (octet :: octets) =
        (if keeps octet then [Char.ofNat octet.toNat] else spell octet) ++ encodeOctets keeps octets := rfl
    rw [step, Utf8.encode_append]
    split
    next kept =>
      have other : octet ≠ 37 := by
        intro percent
        rw [percent, plain.percent] at kept
        cases kept
      rw [encode_kept (plain.ascii octet kept), List.singleton_append, decode_cons other, ih]
    next spelt => rw [decode_spell, ih]

theorem read?_encode {keeps : UInt8 → Bool} (plain : Plain keeps) (text : List Char) :
    read? (encode keeps text) = some text := by
  rw [read?, encode, decode_encodeOctets plain, Utf8.decode?_encode]

private theorem mem_encodeOctets {keeps : UInt8 → Bool} {octets : List UInt8} {c : Char}
    (inside : c ∈ encodeOctets keeps octets) :
    c = '%' ∨ (∃ n < 16, c = hexDigit n) ∨
      ∃ octet ∈ octets, keeps octet = true ∧ c = Char.ofNat octet.toNat := by
  obtain ⟨octet, present, inside⟩ := List.mem_flatMap.mp inside
  split at inside
  next kept => exact .inr (.inr ⟨octet, present, kept, List.mem_singleton.mp inside⟩)
  next spelt =>
    obtain ⟨high, low⟩ := halves octet
    rcases List.mem_cons.mp inside with percent | inside
    · exact .inl percent
    rcases List.mem_cons.mp inside with digit | inside
    · exact .inr (.inl ⟨_, high, digit⟩)
    · exact .inr (.inl ⟨_, low, List.mem_singleton.mp inside⟩)

/-- What holds of the marks of escapes and of all characters of a text that a set
keeps holds of everything that is written. -/
theorem forall_mem_encode {keeps : UInt8 → Bool} {p : Char → Prop} {text : List Char}
    (ascii : ∀ octet, keeps octet = true → octet.toNat < 0x80) (percent : p '%')
    (digits : ∀ n < 16, p (hexDigit n))
    (kept : ∀ octet, keeps octet = true → Char.ofNat octet.toNat ∈ text → p (Char.ofNat octet.toNat)) :
    ∀ c ∈ encode keeps text, p c := by
  intro c inside
  rcases mem_encodeOctets inside with rfl | ⟨n, small, rfl⟩ | ⟨octet, present, keep, rfl⟩
  · exact percent
  · exact digits n small
  · exact kept octet keep (Utf8.mem_of_ascii present (ascii octet keep))

theorem encode_of_kept {keeps : UInt8 → Bool} {text : List Char} (ascii : ∀ c ∈ text, c.toNat < 0x80)
    (kept : ∀ c ∈ text, keeps (UInt8.ofNat c.toNat) = true) : encode keeps text = text := by
  rw [encode, Utf8.encode_ascii ascii]
  induction text with
  | nil => rfl
  | cons c text ih =>
    have small : c.toNat < 0x80 := ascii c List.mem_cons_self
    have value : (UInt8.ofNat c.toNat).toNat = c.toNat := Utf8.toNat_ofNat_of_lt (by omega)
    have rest := ih (fun d inside => ascii d (List.mem_cons_of_mem c inside))
      (fun d inside => kept d (List.mem_cons_of_mem c inside))
    simp only [encodeOctets, List.map_cons, List.flatMap_cons] at rest ⊢
    rw [if_pos (kept c List.mem_cons_self), rest, value, Char.ofNat_toNat, List.singleton_append]

end LedgerClient.Percent

namespace LedgerClient.Url
open Percent

theorem visibleBut_ascii {marks : List Char} {octet : UInt8} (kept : visibleBut marks octet = true) :
    octet.toNat < 0x80 := by
  simp only [visibleBut, visible, Bool.and_eq_true, decide_eq_true_eq, UInt8.lt_iff_toNat_lt] at kept
  exact Nat.lt_trans kept.1.2 (by decide)

theorem plain_keptInSegment (special : Bool) : Plain (keptInSegment special) := by
  refine ⟨fun octet kept => ?_, by cases special <;> decide⟩
  cases special <;> exact visibleBut_ascii kept

end LedgerClient.Url
