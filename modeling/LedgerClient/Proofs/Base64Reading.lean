import LedgerClient.Octets.Base64
import LedgerClient.Proofs.BitGroups
import LedgerClient.Proofs.Escapes
import LedgerClient.Proofs.Utf8Reading

/-! What is written in base64 is read back, and with less padding too, but nothing else is
read: the bits that the last symbol has to spare have to be zeros. -/

namespace LedgerClient.Base64

/-- The octet of a symbol. -/
def sign (n : Nat) : UInt8 := UInt8.ofNat (symbol n).toNat

theorem value?_sign {n : Nat} (small : n < 64) :
    value? (sign n) = some n ∧ sign n ≠ pad ∧ Utf8.encode [symbol n] = [sign n] := by
  have signs : ∀ n < 64, value? (sign n) = some n ∧ sign n ≠ pad ∧
      Utf8.encode [symbol n] = [sign n] := by
    decide +kernel
  exact signs n small

theorem encode_symbols {symbols : List Nat} (small : ∀ n ∈ symbols, n < 64) :
    Utf8.encode (symbols.map symbol) = symbols.map sign := by
  induction symbols with
  | nil => rfl
  | cons n symbols ih =>
    obtain ⟨first, small⟩ := List.forall_mem_cons.mp small
    have here := (value?_sign first).2.2
    rw [List.map_cons, ← List.singleton_append, Utf8.encode_append, here, ih small]
    rfl

theorem encode_padding (count : Nat) : Utf8.encode (List.replicate count '=') = List.replicate count pad := by
  induction count with
  | zero => rfl
  | succ count ih => rw [List.replicate_succ, Utf8.encode_cons, ih, List.replicate_succ]; rfl

private theorem values_signs {symbols : List Nat} (small : ∀ n ∈ symbols, n < 64) (offset : Nat) :
    values offset (symbols.map sign) = .ok symbols := by
  induction symbols generalizing offset with
  | nil => rfl
  | cons n symbols ih =>
    obtain ⟨first, small⟩ := List.forall_mem_cons.mp small
    rw [List.map_cons, values, (value?_sign first).1]
    dsimp only
    rw [ih small]
    rfl

/-- The last group is whole, or lacks one or two symbols for which padding stands. -/
theorem lastValues_signs {symbols : List Nat} (small : ∀ n ∈ symbols, n < 64) (offset : Nat) {count : Nat}
    (complete : symbols = [] ∧ count = 0 ∨ 2 ≤ symbols.length) :
    lastValues offset (symbols.map sign ++ List.replicate count pad) = .ok symbols := by
  have no_pad : ∀ octet ∈ symbols.map sign, decide (octet ≠ pad) = true :=
    List.forall_mem_map.mpr fun n among => decide_eq_true (value?_sign (small n among)).2.1
  have none : ¬decide (pad ≠ pad) = true := by decide
  have taken : (symbols.map sign ++ List.replicate count pad).takeWhile (· ≠ pad) = symbols.map sign := by
    rw [List.takeWhile_append_of_pos no_pad, List.takeWhile_replicate, if_neg none, List.append_nil]
  have left : (symbols.map sign ++ List.replicate count pad).dropWhile (· ≠ pad) = List.replicate count pad := by
    rw [List.dropWhile_append_of_pos no_pad, List.dropWhile_replicate, if_neg none]
  unfold lastValues
  rw [taken, left]
  dsimp only
  rw [values_signs small]
  change (if List.replicate count pad ≠ [] ∧ ((symbols.map sign).length < 2 ∨ _) then _ else _) = _
  rw [if_neg]
  · rw [if_neg]
    · rfl
    · rcases complete with ⟨rfl, _⟩ | enough
      · exact Nat.zero_ne_one
      · omega
  · rintro ⟨padded, short | ⟨octet, among, other⟩⟩
    · rw [List.length_map] at short
      rcases complete with ⟨_, rfl⟩ | enough
      · exact padded rfl
      · omega
    · exact other (List.eq_of_mem_replicate among)

/-- Signs are as many as the octets need, and padding completes groups of four. -/
theorem length_symbols (octets : List UInt8) :
    6 * (Bits.toSymbols 6 (Bits.ofOctets octets)).length =
      8 * octets.length + Bits.filling 6 (8 * octets.length) := by
  have length := congrArg List.length (Bits.ofSymbols_toSymbols (by decide : 0 < 6) (Bits.ofOctets octets))
  rwa [Bits.length_ofSymbols, List.length_append, List.length_replicate, Bits.length_ofOctets] at length

/-- The symbols of some octets, of which the last one is filled up with zeros. -/
def symbols (octets : List UInt8) : List Nat := Bits.toSymbols 6 (Bits.ofOctets octets)

/-- How much padding completes the last group. -/
def missing (octets : List UInt8) : Nat := (4 - (symbols octets).length % 4) % 4

theorem encode_eq (octets : List UInt8) :
    encode octets = (symbols octets).map symbol ++ List.replicate (missing octets) '=' := by
  rw [encode, List.length_map]
  rfl

/-- The symbols are read with any part of the padding. -/
theorem decode_symbols {octets : List UInt8} {count : Nat} (part : count ≤ missing octets) :
    decode ((symbols octets).map sign ++ List.replicate count pad) = .ok octets := by
  have small : ∀ n ∈ symbols octets, n < 64 := Bits.toSymbols_lt
  have bits : Bits.ofSymbols 6 (symbols octets) = _ :=
    Bits.ofSymbols_toSymbols (by decide : 0 < 6) (Bits.ofOctets octets)
  have length : 6 * (symbols octets).length = _ := length_symbols octets
  have filling : Bits.filling 6 (8 * octets.length) < 6 := Bits.filling_lt (by decide) _
  rw [Bits.length_ofOctets] at bits
  rw [missing] at part
  generalize symbols octets = symbols at small bits length part
  have accompanied : symbols.length % 4 ≠ 1 := by omega
  have whole : (symbols.map sign ++ List.replicate count pad).length = symbols.length + count := by
    rw [List.length_append, List.length_map, List.length_replicate]
  -- What stands in front of the last group holds no padding, and the last group is not cut short too far.
  have place : ∃ place, (symbols.length + count - 1) / 4 * 4 = place ∧ place ≤ symbols.length ∧
      (symbols.drop place = [] ∧ count = 0 ∨ 2 ≤ (symbols.drop place).length) := by
    refine ⟨_, rfl, by omega, ?_⟩
    rw [List.length_drop, List.drop_eq_nil_iff]
    omega
  obtain ⟨place, same, within, complete⟩ := place
  unfold decode
  dsimp only
  rw [whole, same]
  change (if (symbols.length + count) % 4 = 1 ∧ _ then _ else _) = _
  rw [if_neg fun stray => by omega, List.take_append_of_le_length (by rwa [List.length_map]),
    List.drop_append_of_le_length (by rwa [List.length_map]), ← List.map_take, ← List.map_drop]
  have first : values 0 ((symbols.take place).map sign) = .ok (symbols.take place) :=
    values_signs (fun n among => small n (List.mem_of_mem_take among)) 0
  have last := lastValues_signs (fun n among => small n (List.mem_of_mem_drop among)) place complete
  have spare : (List.replicate (Bits.filling 6 (8 * octets.length)) false).length < 8 := by
    rw [List.length_replicate]
    omega
  obtain ⟨read, unused⟩ := Bits.toOctets_ofOctets octets spare
  rw [first, last]
  change (if (Bits.unused (Bits.ofSymbols 6 (symbols.take place ++ symbols.drop place))).any id then _ else
    Except.ok (Bits.toOctets (Bits.ofSymbols 6 (symbols.take place ++ symbols.drop place)))) = _
  rw [List.take_append_drop, bits, unused, read, if_neg (by simp)]

theorem decode_encode (octets : List UInt8) : decode (Utf8.encode (encode octets)) = .ok octets := by
  have small : ∀ n ∈ symbols octets, n < 64 := Bits.toSymbols_lt
  rw [encode_eq, Utf8.encode_append, encode_symbols small, encode_padding]
  exact decode_symbols (Nat.le_refl _)

private theorem sign_of_value? {octet : UInt8} : ∀ n ∈ value? octet, n < 64 ∧ octet = sign n :=
  Percent.forall_octet (p := fun octet => ∀ n ∈ value? octet, n < 64 ∧ octet = sign n) (by decide +kernel) octet

private theorem signs_of_values {text : List UInt8} {offset : Nat} {read : List Nat}
    (done : values offset text = .ok read) :
    (∀ n ∈ read, n < 64) ∧ text = read.map sign := by
  induction text generalizing offset read with
  | nil =>
    cases done
    exact ⟨nofun, rfl⟩
  | cons octet text ih =>
    rw [values] at done
    split at done
    next n value =>
      cases rest : values (offset + 1) text with
      | error fault => rw [rest] at done; cases done
      | ok others =>
        rw [rest] at done
        cases done
        obtain ⟨small, same⟩ := sign_of_value? n value
        obtain ⟨small', same'⟩ := ih rest
        exact ⟨List.forall_mem_cons.mpr ⟨small, small'⟩, by rw [List.map_cons, ← same, ← same']⟩
    next => cases done

/-- Padding stands behind two symbols at least, and a symbol of the last group is not alone. -/
theorem group_of_lastValues {offset : Nat} {group : List UInt8} {read : List Nat}
    (done : lastValues offset group = .ok read) : (∀ n ∈ read, n < 64) ∧ read.length ≠ 1 ∧
      ∃ count, group = read.map sign ++ List.replicate count pad ∧ (count ≠ 0 → 2 ≤ read.length) := by
  unfold lastValues at done
  dsimp only at done
  have parted := List.takeWhile_append_dropWhile (p := (· ≠ pad)) (l := group)
  generalize group.takeWhile (· ≠ pad) = body at done parted
  generalize group.dropWhile (· ≠ pad) = padding at done parted
  cases found : values offset body with
  | error fault => rw [found] at done; cases done
  | ok symbols =>
    rw [found] at done
    change (if _ then _ else if _ then _ else _) = _ at done
    split at done
    · cases done
    next padded =>
      split at done
      · cases done
      next accompanied =>
        cases done
        obtain ⟨small, rfl⟩ := signs_of_values found
        rw [List.length_map] at padded
        refine ⟨small, accompanied, padding.length, ?_, fun some => ?_⟩
        · rw [← parted]
          refine congrArg _ (List.eq_replicate_of_mem fun octet among => ?_)
          exact Decidable.byContradiction fun other =>
            padded ⟨List.ne_nil_of_mem among, .inr ⟨octet, among, other⟩⟩
        · refine Nat.le_of_not_lt fun short => padded ⟨?_, .inl short⟩
          exact List.ne_nil_of_length_pos (Nat.pos_of_ne_zero some)

/-- Bits to spare that are zeros are those with which the last symbol was filled up. -/
theorem eq_symbols_of_unused {read : List Nat} (small : ∀ n ∈ read, n < 64) (accompanied : read.length % 4 ≠ 1)
    (zeros : (Bits.unused (Bits.ofSymbols 6 read)).any id = false) :
    read = symbols (Bits.toOctets (Bits.ofSymbols 6 read)) := by
  obtain ⟨whole, short⟩ := Bits.ofOctets_toOctets (Bits.ofSymbols 6 read)
  refine Bits.eq_of_ofSymbols (by decide : 0 < 6) small Bits.toSymbols_lt ?_
  have bits := Bits.ofSymbols_toSymbols (by decide : 0 < 6) (Bits.ofOctets (Bits.toOctets (Bits.ofSymbols 6 read)))
  have lengths := congrArg List.length whole
  rw [List.length_append, Bits.length_ofOctets, Bits.length_ofSymbols] at lengths
  have spare : Bits.unused (Bits.ofSymbols 6 read) =
      List.replicate (Bits.unused (Bits.ofSymbols 6 read)).length false :=
    List.eq_replicate_of_mem fun bit among => by simpa using (List.any_eq_false.mp zeros) bit among
  have filled : Bits.filling 6 (8 * (Bits.toOctets (Bits.ofSymbols 6 read)).length) =
      (Bits.unused (Bits.ofSymbols 6 read)).length := by
    have even : (8 * (Bits.toOctets (Bits.ofSymbols 6 read)).length) % 6 =
        (6 - (Bits.unused (Bits.ofSymbols 6 read)).length) % 6 := by omega
    have few : (Bits.unused (Bits.ofSymbols 6 read)).length < 6 := by omega
    rw [Bits.filling, even]
    omega
  rw [symbols, bits, Bits.length_ofOctets, filled, ← spare, whole]

/-- A text is read as some octets just if it is their symbols with part of the padding. -/
theorem decode_eq_ok_iff {text octets : List UInt8} : decode text = .ok octets ↔
    ∃ count ≤ missing octets, text = (symbols octets).map sign ++ List.replicate count pad := by
  constructor
  · intro done
    unfold decode at done
    dsimp only at done
    change (if _ then _ else _) = _ at done
    split at done
    · cases done
    have within : (text.length - 1) / 4 * 4 ≤ text.length := by omega
    have last : text.length - (text.length - 1) / 4 * 4 ≤ 4 := by omega
    have whole : (text.length - 1) / 4 * 4 % 4 = 0 := by omega
    have parted := List.take_append_drop ((text.length - 1) / 4 * 4) text
    have front := List.length_take_of_le within
    have back := List.length_drop (i := (text.length - 1) / 4 * 4) (l := text)
    generalize (text.length - 1) / 4 * 4 = place at done within last whole parted front back
    cases first : values 0 (text.take place) with
    | error fault => rw [first] at done; cases done
    | ok read =>
      cases second : lastValues place (text.drop place) with
      | error fault => rw [first, second] at done; cases done
      | ok others =>
        rw [first, second] at done
        change (if (Bits.unused (Bits.ofSymbols 6 (read ++ others))).any id then _ else _) = _ at done
        split at done
        · cases done
        next zeros =>
          cases done
          obtain ⟨small, signs⟩ := signs_of_values first
          obtain ⟨small', accompanied, count, group, enough⟩ := group_of_lastValues second
          rw [signs, List.length_map] at front
          rw [group, List.length_append, List.length_map, List.length_replicate] at back
          have symbols := eq_symbols_of_unused (List.forall_mem_append.mpr ⟨small, small'⟩)
            (by rw [List.length_append]; omega) (eq_false_of_ne_true zeros)
          refine ⟨count, ?_, ?_⟩
          · rw [missing, ← symbols, List.length_append]
            omega
          · rw [← symbols, ← parted, signs, group, List.map_append, List.append_assoc]
  · rintro ⟨count, part, rfl⟩
    exact decode_symbols part

end LedgerClient.Base64
