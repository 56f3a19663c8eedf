import LedgerClient.Text.Utf8

/-! Reading UTF-8 undoes writing it, whatever the text, and octets keep the order of
the characters that they spell. -/

namespace LedgerClient.Utf8

/-- An octet behind the first one, which holds the last six bits of a number. -/
def tail (value : Nat) : UInt8 := UInt8.ofNat (value % 64 + 0x80)

/-- The octets of a character by its number. Four rules for four lengths; the numbers
that are kept for surrogates have no spelling. -/
inductive Spelling (value : Nat) : List UInt8 → Prop where
  | one (below : value < 0x80) : Spelling value [UInt8.ofNat value]
  | two (above : 0x80 ≤ value) (below : value < 0x800) :
      Spelling value [UInt8.ofNat (value / 64 + 0xC0), tail value]
  | three (above : 0x800 ≤ value) (below : value < 0x10000) (scalar : value < 0xD800 ∨ 0xDFFF < value) :
      Spelling value [UInt8.ofNat (value / 4096 + 0xE0), tail (value / 64), tail value]
  | four (above : 0x10000 ≤ value) (below : value < 0x110000) :
      Spelling value [UInt8.ofNat (value / 262144 + 0xF0), tail (value / 4096), tail (value / 64), tail value]

theorem spelling (c : Char) : Spelling c.toNat (String.utf8EncodeChar c) := by
  have valid : c.toNat < 0xD800 ∨ 0xDFFF < c.toNat ∧ c.toNat < 0x110000 := c.valid
  have same : c.val.toNat = c.toNat := rfl
  simp only [String.utf8EncodeChar, same]
  split
  next small => exact .one (by omega)
  next large =>
    split
    next small =>
      have room : c.toNat / 64 % 32 = c.toNat / 64 := by omega
      rw [room]
      exact .two (by omega) (by omega)
    next large =>
      split
      next small =>
        have room : c.toNat / 4096 % 16 = c.toNat / 4096 := by omega
        rw [room]
        exact .three (by omega) (by omega) (by omega)
      next large =>
        have room : c.toNat / 262144 % 8 = c.toNat / 262144 := by omega
        rw [room]
        exact .four (by omega) (by omega)

theorem toNat_ofNat_of_lt {n : Nat} (small : n < 256) : (UInt8.ofNat n).toNat = n := by
  rw [UInt8.toNat_ofNat', Nat.mod_eq_of_lt small]

private theorem toNat_tail (value : Nat) : (tail value).toNat = value % 64 + 0x80 :=
  toNat_ofNat_of_lt (by omega)

private theorem pieces_ascii {octet : UInt8} (small : octet.toNat < 0x80) (rest : List UInt8) :
    pieces .idle (octet :: rest) = some (Char.ofNat octet.toNat) :: pieces .idle rest := by
  have ascii : octet < 0x80 := small
  simp [pieces, feed, start, ascii]

private theorem pieces_lead {octet : UInt8} {state : State} (large : 0x80 ≤ octet.toNat)
    (led : lead octet = some state) (rest : List UInt8) :
    pieces .idle (octet :: rest) = pieces state rest := by
  have not_ascii : ¬octet < 0x80 := Nat.not_lt.mpr large
  simp [pieces, feed, start, not_ascii, led]

private theorem tail_within {low high : UInt8} {value : Nat} (above : low.toNat ≤ value % 64 + 0x80)
    (below : value % 64 + 0x80 ≤ high.toNat) : low ≤ tail value ∧ tail value ≤ high := by
  simp only [UInt8.le_iff_toNat_le, toNat_tail]
  exact ⟨above, below⟩

private theorem tail_bits (value : Nat) : (tail value).toNat % 64 = value % 64 := by
  rw [toNat_tail]
  omega

private theorem pieces_last {low high : UInt8} {value : Nat} (bits : Nat) (rest : List UInt8)
    (above : low.toNat ≤ value % 64 + 0x80) (below : value % 64 + 0x80 ≤ high.toNat) :
    pieces (.inside 0 low high bits) (tail value :: rest) =
      some (Char.ofNat (bits * 64 + value % 64)) :: pieces .idle rest := by
  simp only [pieces, feed, tail_within above below, and_self, ite_true, tail_bits, List.cons_append,
    List.nil_append]

private theorem pieces_inner {low high : UInt8} {value : Nat} (more bits : Nat) (rest : List UInt8)
    (above : low.toNat ≤ value % 64 + 0x80) (below : value % 64 + 0x80 ≤ high.toNat) :
    pieces (.inside (more + 1) low high bits) (tail value :: rest) =
      pieces (.inside more 0x80 0xBF (bits * 64 + value % 64)) rest := by
  simp only [pieces, feed, tail_within above below, and_self, ite_true, tail_bits, List.nil_append]

private theorem tail_above (value : Nat) : (0x80 : UInt8).toNat ≤ value % 64 + 0x80 := by
  simp only [UInt8.reduceToNat]
  omega

private theorem tail_below (value : Nat) : value % 64 + 0x80 ≤ (0xBF : UInt8).toNat := by
  simp only [UInt8.reduceToNat]
  omega

private theorem lead_two {octet : UInt8} (above : 0xC2 ≤ octet.toNat) (below : octet.toNat ≤ 0xDF) :
    lead octet = some (.inside 0 0x80 0xBF (octet.toNat % 32)) := by
  have within : 0xC2 ≤ octet ∧ octet ≤ 0xDF := ⟨above, below⟩
  simp only [lead, within, and_self, ite_true]

/-- The bounds that the first of three octets sets for the second one let a second
octet through: what they keep out is overlong or a surrogate. -/
theorem lead_three {octet : UInt8} {value : Nat} (above : 0x800 ≤ value) (below : value < 0x10000)
    (scalar : value < 0xD800 ∨ 0xDFFF < value) (first : octet.toNat = value / 4096 + 0xE0) :
    ∃ low high : UInt8, lead octet = some (.inside 1 low high (value / 4096)) ∧
      low.toNat ≤ value / 64 % 64 + 0x80 ∧ value / 64 % 64 + 0x80 ≤ high.toNat := by
  simp only [lead, UInt8.le_iff_toNat_le, ← UInt8.toNat_inj, UInt8.reduceToNat, first]
  split
  · omega
  split
  · have bits : value / 4096 = 0 := by omega
    refine ⟨0xA0, 0xBF, by rw [bits], ?_, ?_⟩ <;> simp only [UInt8.reduceToNat] <;> omega
  split
  · have bits : value / 4096 = 13 := by omega
    refine ⟨0x80, 0x9F, by rw [bits], ?_, ?_⟩ <;> simp only [UInt8.reduceToNat] <;> omega
  split
  · have bits : (value / 4096 + 0xE0) % 16 = value / 4096 := by omega
    exact ⟨0x80, 0xBF, by rw [bits], tail_above _, tail_below _⟩
  · omega

private theorem lead_four {octet : UInt8} {value : Nat} (above : 0x10000 ≤ value) (below : value < 0x110000)
    (first : octet.toNat = value / 262144 + 0xF0) :
    ∃ low high : UInt8, lead octet = some (.inside 2 low high (value / 262144)) ∧
      low.toNat ≤ value / 4096 % 64 + 0x80 ∧ value / 4096 % 64 + 0x80 ≤ high.toNat := by
  simp only [lead, UInt8.le_iff_toNat_le, ← UInt8.toNat_inj, UInt8.reduceToNat, first]
  repeat (split; omega)
  split
  · have bits : value / 262144 = 0 := by omega
    refine ⟨0x90, 0xBF, by rw [bits], ?_, ?_⟩ <;> simp only [UInt8.reduceToNat] <;> omega
  split
  · have bits : (value / 262144 + 0xF0) % 8 = value / 262144 := by omega
    exact ⟨0x80, 0xBF, by rw [bits], tail_above _, tail_below _⟩
  split
  · have bits : value / 262144 = 4 := by omega
    refine ⟨0x80, 0x8F, by rw [bits], ?_, ?_⟩ <;> simp only [UInt8.reduceToNat] <;> omega
  · omega

/-- A spelt character is read whole, whatever comes behind it. -/
theorem pieces_spelling {value : Nat} {octets : List UInt8} (spelt : Spelling value octets)
    (rest : List UInt8) : pieces .idle (octets ++ rest) = some (Char.ofNat value) :: pieces .idle rest := by
  cases spelt with
  | one below =>
    have first := toNat_ofNat_of_lt (n := value) (by omega)
    have small : (UInt8.ofNat value).toNat < 0x80 := by omega
    have read := pieces_ascii small rest
    rwa [first] at read
  | two above below =>
    have first := toNat_ofNat_of_lt (n := value / 64 + 0xC0) (by omega)
    have least : 0xC2 ≤ (UInt8.ofNat (value / 64 + 0xC0)).toNat := by omega
    have led := lead_two least (by omega)
    have bits : (value / 64 + 0xC0) % 32 * 64 + value % 64 = value := by omega
    simp only [List.cons_append, List.nil_append]
    rw [pieces_lead (by omega) led, pieces_last _ _ (tail_above _) (tail_below _), first, bits]
  | three above below scalar =>
    have first := toNat_ofNat_of_lt (n := value / 4096 + 0xE0) (by omega)
    obtain ⟨low, high, led, floor, ceiling⟩ := lead_three above below scalar first
    have bits : (value / 4096 * 64 + value / 64 % 64) * 64 + value % 64 = value := by omega
    simp only [List.cons_append, List.nil_append]
    rw [pieces_lead (by omega) led, pieces_inner _ _ _ floor ceiling,
      pieces_last _ _ (tail_above _) (tail_below _), bits]
  | four above below =>
    have first := toNat_ofNat_of_lt (n := value / 262144 + 0xF0) (by omega)
    obtain ⟨low, high, led, floor, ceiling⟩ := lead_four above below first
    have bits : ((value / 262144 * 64 + value / 4096 % 64) * 64 + value / 64 % 64) * 64 + value % 64 = value := by
      omega
    simp only [List.cons_append, List.nil_append]
    rw [pieces_lead (by omega) led, pieces_inner _ _ _ floor ceiling, pieces_inner _ _ _ (tail_above _) (tail_below _),
      pieces_last _ _ (tail_above _) (tail_below _), bits]

theorem encode_cons (c : Char) (text : List Char) :
    encode (c :: text) = String.utf8EncodeChar c ++ encode text := rfl

theorem encode_append (a b : List Char) : encode (a ++ b) = encode a ++ encode b := List.flatMap_append

private theorem pieces_encode (text : List Char) : pieces .idle (encode text) = text.map some := by
  induction text with
  | nil => rfl
  | cons c text ih =>
    rw [encode_cons, pieces_spelling (spelling c), ih, Char.ofNat_toNat, List.map_cons]

theorem decode?_encode (text : List Char) : decode? (encode text) = some text := by
  rw [decode?, pieces_encode]
  induction text with
  | nil => rfl
  | cons c text ih => simp [ih]

theorem encode_injective {text other : List Char} (same : encode text = encode other) : text = other :=
  Option.some.inj (by rw [← decode?_encode, same, decode?_encode])

theorem decodeLossy_encode (text : List Char) : decodeLossy (encode text) = text := by
  rw [decodeLossy, pieces_encode, List.map_map]
  exact List.map_id' text

theorem encodeChar_ascii {c : Char} (small : c.toNat < 0x80) :
    String.utf8EncodeChar c = [UInt8.ofNat c.toNat] := by
  have spelt := spelling c
  generalize String.utf8EncodeChar c = octets at spelt
  cases spelt with
  | one below => rfl
  | two above below | three above below scalar | four above below => omega

theorem encode_ascii {text : List Char} (ascii : ∀ c ∈ text, c.toNat < 0x80) :
    encode text = text.map fun c => UInt8.ofNat c.toNat := by
  induction text with
  | nil => rfl
  | cons c text ih =>
    have small : c.toNat < 0x80 := ascii c List.mem_cons_self
    rw [encode_cons, encodeChar_ascii small, ih fun d inside => ascii d (List.mem_cons_of_mem c inside)]
    rfl

theorem Spelling.high {value : Nat} {octets : List UInt8} (spelt : Spelling value octets) (large : 0x80 ≤ value) :
    ∀ octet ∈ octets, 0x80 ≤ octet.toNat := by
  cases spelt with
  | one below => omega
  | two above below | three above below scalar | four above below =>
    simp only [List.forall_mem_cons, List.not_mem_nil, false_imp_iff, implies_true, and_true, toNat_tail]
    rw [toNat_ofNat_of_lt (by omega)]
    omega

/-- An octet of ASCII is a character of its own: all octets of longer ones lie above. -/
theorem mem_of_ascii {text : List Char} {octet : UInt8} (inside : octet ∈ encode text)
    (ascii : octet.toNat < 0x80) : Char.ofNat octet.toNat ∈ text := by
  obtain ⟨c, present, inside⟩ := List.mem_flatMap.mp inside
  by_cases small : c.toNat < 0x80
  · rw [encodeChar_ascii small, List.mem_singleton] at inside
    rw [inside, toNat_ofNat_of_lt (by omega), Char.ofNat_toNat]
    exact present
  · have large := (spelling c).high (by omega) octet inside
    omega

/-- The first octets in which two characters differ are ordered as the characters. -/
theorem spelling_lt {a b : Nat} {first second : List UInt8} (spelt : Spelling a first)
    (other : Spelling b second) (less : a < b) (r s : List UInt8) : first ++ r < second ++ s := by
  -- Places are cut off one by one, which is all that tells the octets of one length apart.
  have places : ∀ n, n / 64 / 64 = n / 4096 ∧ n / 4096 / 64 = n / 262144 := by omega
  obtain ⟨small, large⟩ := places a
  obtain ⟨small', large'⟩ := places b
  cases spelt <;> cases other
  all_goals
    simp (disch := omega) only [List.cons_append, List.nil_append, List.cons_lt_cons_iff, UInt8.lt_iff_toNat_lt,
      ← UInt8.toNat_inj, toNat_ofNat_of_lt, toNat_tail]
    omega

theorem encode_lt_of_lt {a b : List Char} (less : a < b) : encode a < encode b := by
  induction less with
  | nil =>
    rename_i c text
    rw [encode_cons]
    cases octets : String.utf8EncodeChar c with
    | nil => exact absurd octets String.utf8EncodeChar_ne_nil
    | cons octet rest => exact List.Lex.nil
  | cons rest ih =>
    rename_i c a b
    rw [encode_cons, encode_cons]
    exact List.append_left_lt ih
  | rel less =>
    rw [encode_cons, encode_cons]
    exact spelling_lt (spelling _) (spelling _) less _ _

private theorem Spelling.unique {value : Nat} {octets others : List UInt8} (spelt : Spelling value octets)
    (spelt' : Spelling value others) : octets = others := by
  cases spelt <;> cases spelt' <;> first | rfl | omega

private theorem encodeChar_of_spelling {value : Nat} {octets : List UInt8} (spelt : Spelling value octets) :
    String.utf8EncodeChar (Char.ofNat value) = octets := by
  have valid : value.isValidChar := by
    cases spelt with
    | one below => exact .inl (by omega)
    | two above below => exact .inl (by omega)
    | three above below scalar => exact scalar.imp id fun above => ⟨above, by omega⟩
    | four above below => exact .inr ⟨by omega, below⟩
  have scalar : Char.ofNat value = Char.ofNatAux value valid := dif_pos valid
  have same : (Char.ofNat value).toNat = value := by
    rw [scalar]
    rfl
  have spelt' := spelling (Char.ofNat value)
  rw [same] at spelt'
  exact spelt'.unique spelt

private theorem eq_tail (octet : UInt8) {value : Nat} (within : 0x80 ≤ octet.toNat ∧ octet.toNat ≤ 0xBF)
    (bits : octet.toNat % 64 = value % 64) : octet = tail value := by
  rw [← UInt8.toNat_inj, toNat_tail]
  omega

private theorem eq_ofNat (octet : UInt8) {value : Nat} (same : octet.toNat = value) : octet = UInt8.ofNat value := by
  rw [← same, UInt8.ofNat_toNat]

/-- Inside of a character an octet comes next that goes on with it. -/
theorem inside_of_pieces {more bits : Nat} {low high : UInt8} {octets : List UInt8} {text : List Char}
    (read : pieces (.inside more low high bits) octets = text.map some) : ∃ octet rest, octets = octet :: rest ∧
      (low.toNat ≤ octet.toNat ∧ octet.toNat ≤ high.toNat) ∧
      (more = 0 → some (Char.ofNat (bits * 64 + octet.toNat % 64)) :: pieces .idle rest = text.map some) ∧
      ∀ fewer, more = fewer + 1 →
        pieces (.inside fewer 0x80 0xBF (bits * 64 + octet.toNat % 64)) rest = text.map some := by
  have no_gap : none ∉ text.map some := by simp
  cases octets with
  | nil =>
    rw [← read] at no_gap
    exact absurd List.mem_cons_self no_gap
  | cons octet rest =>
    refine ⟨octet, rest, rfl, ?_⟩
    rw [pieces, feed] at read
    split at read
    next within =>
      refine ⟨within, ?_, ?_⟩
      · rintro rfl
        exact read
      · rintro fewer rfl
        exact read
    next =>
      rw [← read] at no_gap
      exact absurd List.mem_cons_self no_gap

/-- The first octet of a longer character, with the bounds that it sets. -/
inductive Lead (octet : UInt8) : State → Prop
  | two (within : 0xC2 ≤ octet.toNat ∧ octet.toNat ≤ 0xDF) : Lead octet (.inside 0 0x80 0xBF (octet.toNat - 0xC0))
  | three {low high : UInt8} (within : 0xE0 ≤ octet.toNat ∧ octet.toNat ≤ 0xEF)
      (least : 0x80 ≤ low.toNat ∧ (octet.toNat = 0xE0 → 0xA0 ≤ low.toNat))
      (most : high.toNat ≤ 0xBF ∧ (octet.toNat = 0xED → high.toNat ≤ 0x9F)) :
      Lead octet (.inside 1 low high (octet.toNat - 0xE0))
  | four {low high : UInt8} (within : 0xF0 ≤ octet.toNat ∧ octet.toNat ≤ 0xF4)
      (least : 0x80 ≤ low.toNat ∧ (octet.toNat = 0xF0 → 0x90 ≤ low.toNat))
      (most : high.toNat ≤ 0xBF ∧ (octet.toNat = 0xF4 → high.toNat ≤ 0x8F)) :
      Lead octet (.inside 2 low high (octet.toNat - 0xF0))

private theorem lead_of_eq_some {octet : UInt8} {state : State} (led : lead octet = some state) : Lead octet state := by
  have differs {other : UInt8} (unlike : octet ≠ other) : octet.toNat ≠ other.toNat := mt UInt8.toNat_inj.mp unlike
  unfold lead at led
  split at led
  next within =>
    cases led
    have bounds : 0xC2 ≤ octet.toNat ∧ octet.toNat ≤ 0xDF := within
    have bits : octet.toNat % 32 = octet.toNat - 0xC0 := by omega
    rw [bits]
    exact .two bounds
  split at led
  next first =>
    cases first
    cases led
    exact .three (by decide) (by decide) (by decide)
  split at led
  next first =>
    cases first
    cases led
    exact .three (by decide) (by decide) (by decide)
  split at led
  next not_least not_surrogate within =>
    cases led
    have bounds : 0xE1 ≤ octet.toNat ∧ octet.toNat ≤ 0xEF := within
    have bits : octet.toNat % 16 = octet.toNat - 0xE0 := by omega
    rw [bits]
    exact .three (by omega) ⟨by decide, fun least => absurd least (differs not_least)⟩
      ⟨by decide, fun surrogate => absurd surrogate (differs not_surrogate)⟩
  split at led
  next first =>
    cases first
    cases led
    exact .four (by decide) (by decide) (by decide)
  split at led
  next within =>
    cases led
    have bounds : 0xF1 ≤ octet.toNat ∧ octet.toNat ≤ 0xF3 := within
    have bits : octet.toNat % 8 = octet.toNat - 0xF0 := by omega
    rw [bits]
    exact .four (by omega) ⟨by decide, by omega⟩ ⟨by decide, by omega⟩
  split at led
  next first =>
    cases first
    cases led
    exact .four (by decide) (by decide) (by decide)
  next => cases led

/-- Octets that go on to a text start with the spelling of a character. -/
theorem spelling_of_pieces {octet : UInt8} {octets : List UInt8} {text : List Char}
    (read : pieces .idle (octet :: octets) = text.map some) : ∃ value front rest, Spelling value front ∧
      octet :: octets = front ++ rest ∧ some (Char.ofNat value) :: pieces .idle rest = text.map some := by
  by_cases small : octet.toNat < 0x80
  · rw [pieces_ascii small] at read
    exact ⟨octet.toNat, _, octets, .one small, by rw [UInt8.ofNat_toNat]; rfl, read⟩
  cases led : lead octet with
  | none =>
    have large : ¬octet < 0x80 := small
    have no_gap : none ∉ text.map some := by simp
    rw [← read] at no_gap
    simp [pieces, feed, start, large, led] at no_gap
  | some state =>
    rw [pieces_lead (by omega) led] at read
    cases lead_of_eq_some led with
    | two within =>
      obtain ⟨second, rest, rfl, bounds, done, _⟩ := inside_of_pieces read
      simp only [UInt8.reduceToNat] at bounds
      refine ⟨_, [octet, second], rest, ?_, rfl, done rfl⟩
      generalize same : (octet.toNat - 0xC0) * 64 + second.toNat % 64 = value
      have spelt : Spelling value _ := .two (by omega) (by omega)
      rwa [← eq_ofNat octet (by omega), ← eq_tail second bounds (by omega)] at spelt
    | three within least most =>
      obtain ⟨second, rest, rfl, bounds, _, goes⟩ := inside_of_pieces read
      obtain ⟨third, rest, rfl, bounds', done, _⟩ := inside_of_pieces (goes 0 rfl)
      simp only [UInt8.reduceToNat] at bounds'
      refine ⟨_, [octet, second, third], rest, ?_, rfl, done rfl⟩
      generalize same : ((octet.toNat - 0xE0) * 64 + second.toNat % 64) * 64 + third.toNat % 64 = value
      have spelt : Spelling value _ := .three (by omega) (by omega) (by omega)
      rwa [← eq_ofNat octet (by omega), ← eq_tail second (by omega) (by omega),
        ← eq_tail third bounds' (by omega)] at spelt
    | four within least most =>
      obtain ⟨second, rest, rfl, bounds, _, goes⟩ := inside_of_pieces read
      obtain ⟨third, rest, rfl, bounds', _, goes⟩ := inside_of_pieces (goes 1 rfl)
      obtain ⟨fourth, rest, rfl, bounds'', done, _⟩ := inside_of_pieces (goes 0 rfl)
      simp only [UInt8.reduceToNat] at bounds' bounds''
      refine ⟨_, [octet, second, third, fourth], rest, ?_, rfl, done rfl⟩
      generalize same :
        (((octet.toNat - 0xF0) * 64 + second.toNat % 64) * 64 + third.toNat % 64) * 64 + fourth.toNat % 64 = value
      have spelt : Spelling value _ := .four (by omega) (by omega)
      rwa [← eq_ofNat octet (by omega), ← eq_tail second (by omega) (by omega),
        ← eq_tail third bounds' (by omega), ← eq_tail fourth bounds'' (by omega)] at spelt

private theorem eq_encode_of_pieces {octets : List UInt8} {text : List Char}
    (read : pieces .idle octets = text.map some) :
    octets = encode text := by
  induction size : octets.length using Nat.strongRecOn generalizing octets text with
  | ind length ih =>
    cases octets with
    | nil =>
      cases List.map_eq_nil_iff.mp read.symm
      rfl
    | cons octet octets =>
      obtain ⟨value, front, rest, spelt, same, behind⟩ := spelling_of_pieces read
      obtain ⟨c, text, rfl, here, others⟩ := List.map_eq_cons_iff.mp behind.symm
      cases here
      have shorter : rest.length < length := by
        have lengths := congrArg List.length same
        rw [List.length_append, size] at lengths
        have some : 0 < front.length := by cases spelt <;> exact Nat.zero_lt_succ _
        omega
      rw [same, encode_cons, encodeChar_of_spelling spelt, ih _ shorter others.symm rfl]

private theorem eq_map_some_of_mapM {pieces : List (Option Char)} {text : List Char}
    (all : pieces.mapM id = some text) :
    pieces = text.map some := by
  induction pieces generalizing text with
  | nil =>
    cases all
    rfl
  | cons piece pieces ih =>
    cases piece with
    | none => simp at all
    | some c =>
      simp only [List.mapM_cons, id_eq, Option.bind_eq_bind, Option.bind_some, Option.bind_eq_some_iff] at all
      obtain ⟨text, others, whole⟩ := all
      cases whole
      rw [ih others, List.map_cons]

/-- Only what spells a text is read as one. -/
theorem decode?_eq_some_iff {octets : List UInt8} {text : List Char} : decode? octets = some text ↔
    octets = encode text := by
  constructor
  · exact fun read => eq_encode_of_pieces (eq_map_some_of_mapM read)
  · rintro rfl
    exact decode?_encode text

end LedgerClient.Utf8
