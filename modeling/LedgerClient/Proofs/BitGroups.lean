import LedgerClient.Octets.Bits
import Mathlib.Algebra.Group.Nat.Defs

/-! Regrouping bits loses none: the symbols give the bits back with the zeros that filled up
the last of them, and the octets that those bits fill are the octets they came from. -/

namespace LedgerClient.Bits

private theorem foldl_eq (n : Nat) (bits : List Bool) :
    bits.foldl (fun n bit => 2 * n + bit.toNat) n = 2 ^ bits.length * n + toNat bits := by
  induction bits generalizing n with
  | nil => simp [toNat]
  | cons bit bits ih =>
    rw [toNat, List.foldl_cons, List.foldl_cons, ih, ih, List.length_cons, Nat.pow_succ]
    simp only [Nat.mul_zero, Nat.zero_add, Nat.mul_add, Nat.mul_assoc, Nat.add_assoc]

private theorem toNat_cons (bit : Bool) (bits : List Bool) :
    toNat (bit :: bits) = 2 ^ bits.length * bit.toNat + toNat bits := by
  rw [toNat, List.foldl_cons, foldl_eq]
  simp

theorem toNat_lt (bits : List Bool) : toNat bits < 2 ^ bits.length := by
  induction bits with
  | nil => decide
  | cons bit bits ih =>
    rw [toNat_cons, List.length_cons, Nat.pow_succ]
    cases bit
    · simp only [Bool.toNat_false]
      omega
    · simp only [Bool.toNat_true]
      omega

private theorem length_ofNat (width n : Nat) : (ofNat width n).length = width := by
  induction width with
  | zero => rfl
  | succ width ih => rw [ofNat, List.length_cons, ih]

/-- Bits above the width play no part. -/
theorem ofNat_above {width place : Nat} (within : width ≤ place) (high : Nat) {low : Nat} (small : low < 2 ^ place) :
    ofNat width (2 ^ place * high + low) = ofNat width low := by
  induction width with
  | zero => rfl
  | succ width ih =>
    rw [ofNat, ofNat, ih (Nat.le_of_succ_le within), Nat.testBit_two_pow_mul_add _ small,
      if_pos (Nat.lt_of_succ_le within)]

private theorem ofNat_toNat (bits : List Bool) : ofNat bits.length (toNat bits) = bits := by
  induction bits with
  | nil => rfl
  | cons bit bits ih =>
    have small := toNat_lt bits
    rw [List.length_cons, ofNat, toNat_cons, ofNat_above (Nat.le_refl _) _ small, ih,
      Nat.testBit_two_pow_mul_add _ small, if_neg (Nat.lt_irrefl _), Nat.sub_self]
    cases bit <;> rfl

private theorem toNat_ofNat (width n : Nat) : toNat (ofNat width n) = n % 2 ^ width := by
  induction width with
  | zero => simp [ofNat, toNat, Nat.mod_one]
  | succ width ih => rw [ofNat, toNat_cons, length_ofNat, ih, Nat.toNat_testBit, Nat.mod_pow_succ, Nat.add_comm]

theorem length_ofSymbols (width : Nat) (symbols : List Nat) :
    (ofSymbols width symbols).length = width * symbols.length := by
  induction symbols with
  | nil => rfl
  | cons symbol symbols ih =>
    rw [ofSymbols, List.flatMap_cons, List.length_append, length_ofNat, ← ofSymbols, ih, List.length_cons,
      Nat.mul_succ, Nat.add_comm]

/-- The zeros that fill up the last symbol. -/
def filling (width length : Nat) : Nat := (width - length % width) % width

theorem filling_lt {width : Nat} (positive : 0 < width) (length : Nat) : filling width length < width :=
  Nat.mod_lt _ positive

private theorem ofNat_group {width : Nat} {group : List Bool} (full : group.length = width) :
    ofNat width (toNat group) = group :=
  full ▸ ofNat_toNat group

private theorem ofSymbols_cons (width symbol : Nat) (symbols : List Nat) :
    ofSymbols width (symbol :: symbols) = ofNat width symbol ++ ofSymbols width symbols := rfl

private theorem ofSymbols_go {width : Nat} (positive : 0 < width) {bound : Nat} {bits : List Bool}
    (enough : bits.length ≤ bound) :
    ofSymbols width (toSymbols.go width bound bits) = bits ++ List.replicate (filling width bits.length) false := by
  induction bound generalizing bits with
  | zero =>
    cases List.eq_nil_of_length_eq_zero (Nat.le_zero.mp enough)
    simp [toSymbols.go, ofSymbols, filling]
  | succ bound ih =>
    cases bits with
    | nil => simp [toSymbols.go, ofSymbols, filling]
    | cons bit others =>
      have step : toSymbols.go width (bound + 1) (bit :: others) =
          toNat ((bit :: others).take width ++ List.replicate (width - ((bit :: others).take width).length) false) ::
            toSymbols.go width bound ((bit :: others).drop width) := rfl
      rw [step]
      have some : 0 < (bit :: others).length := Nat.zero_lt_succ _
      generalize bit :: others = bits at enough some
      have shorter : (bits.drop width).length ≤ bound := by
        rw [List.length_drop]
        omega
      rw [ofSymbols_cons, ih shorter, List.length_drop]
      rcases Nat.lt_or_ge bits.length width with short | long
      · rw [List.take_of_length_le (Nat.le_of_lt short), List.drop_of_length_le (Nat.le_of_lt short), ofNat_group]
        · have full : filling width bits.length = width - bits.length := by
            rw [filling, Nat.mod_eq_of_lt short, Nat.mod_eq_of_lt (by omega)]
          have none : filling width (bits.length - width) = 0 := by
            rw [Nat.sub_eq_zero_of_le (Nat.le_of_lt short), filling, Nat.zero_mod, Nat.sub_zero, Nat.mod_self]
          rw [full, none, List.replicate_zero, List.append_nil, List.append_nil]
        · rw [List.length_append, List.length_replicate]
          omega
      · have taken : (bits.take width).length = width := List.length_take_of_le long
        have same : filling width (bits.length - width) = filling width bits.length := by
          rw [filling, filling, ← Nat.mod_eq_sub_mod long]
        rw [taken, Nat.sub_self, List.replicate_zero, List.append_nil, ofNat_group taken, same, ← List.append_assoc,
          List.take_append_drop]

/-- The symbols give the bits back, filled up with zeros. -/
theorem ofSymbols_toSymbols {width : Nat} (positive : 0 < width) (bits : List Bool) :
    ofSymbols width (toSymbols width bits) = bits ++ List.replicate (filling width bits.length) false :=
  ofSymbols_go positive (Nat.le_refl _)

theorem toSymbols_lt {width : Nat} {bits : List Bool} : ∀ symbol ∈ toSymbols width bits, symbol < 2 ^ width := by
  suffices go : ∀ bound bits, ∀ symbol ∈ toSymbols.go width bound bits, symbol < 2 ^ width from go _ _
  intro bound
  induction bound with
  | zero => exact fun bits => nofun
  | succ bound ih =>
    intro bits
    cases bits with
    | nil => exact nofun
    | cons bit bits =>
      refine List.forall_mem_cons.mpr ⟨?_, ih _⟩
      refine Nat.lt_of_lt_of_le (toNat_lt _) (Nat.pow_le_pow_right (by decide) ?_)
      rw [List.length_append, List.length_replicate]
      have := List.length_take_le width (bit :: bits)
      omega

theorem filling_of_dvd {width length : Nat} (divides : width ∣ length) : filling width length = 0 := by
  rw [filling, Nat.mod_eq_zero_of_dvd divides, Nat.sub_zero, Nat.mod_self]

/-- Symbols are known by their bits. -/
theorem eq_of_ofSymbols {width : Nat} (positive : 0 < width) {symbols others : List Nat}
    (small : ∀ n ∈ symbols, n < 2 ^ width) (small' : ∀ n ∈ others, n < 2 ^ width)
    (same : ofSymbols width symbols = ofSymbols width others) : symbols = others := by
  have lengths : symbols.length = others.length := by
    have bits := congrArg List.length same
    rw [length_ofSymbols, length_ofSymbols] at bits
    exact Nat.eq_of_mul_eq_mul_left positive bits
  induction symbols generalizing others with
  | nil => exact (List.eq_nil_of_length_eq_zero lengths.symm).symm
  | cons symbol symbols ih =>
    cases others with
    | nil => cases lengths
    | cons other others =>
      obtain ⟨first, small⟩ := List.forall_mem_cons.mp small
      obtain ⟨first', small'⟩ := List.forall_mem_cons.mp small'
      rw [ofSymbols_cons, ofSymbols_cons] at same
      obtain ⟨head, rest⟩ := List.append_inj same (by rw [length_ofNat, length_ofNat])
      have value := congrArg toNat head
      rw [toNat_ofNat, toNat_ofNat, Nat.mod_eq_of_lt first, Nat.mod_eq_of_lt first'] at value
      rw [value, ih small small' rest (Nat.succ.inj lengths)]

theorem toSymbols_ofSymbols {width : Nat} (positive : 0 < width) {symbols : List Nat}
    (small : ∀ n ∈ symbols, n < 2 ^ width) : toSymbols width (ofSymbols width symbols) = symbols := by
  refine eq_of_ofSymbols positive toSymbols_lt small ?_
  rw [ofSymbols_toSymbols positive, length_ofSymbols, filling_of_dvd (Nat.dvd_mul_right _ _), List.replicate_zero,
    List.append_nil]

/-- Bits may be cut into symbols piece by piece, if only the last piece has to be filled up. -/
theorem toSymbols_append {width : Nat} (positive : 0 < width) {front : List Bool} (divides : width ∣ front.length)
    (back : List Bool) : toSymbols width (front ++ back) = toSymbols width front ++ toSymbols width back := by
  have small : ∀ n ∈ toSymbols width front ++ toSymbols width back, n < 2 ^ width := by
    intro n inside
    exact (List.mem_append.mp inside).elim (toSymbols_lt n) (toSymbols_lt n)
  have same : filling width (front ++ back).length = filling width back.length := by
    rw [List.length_append, filling, filling, Nat.add_mod, Nat.mod_eq_zero_of_dvd divides, Nat.zero_add, Nat.mod_mod]
  refine eq_of_ofSymbols positive toSymbols_lt small ?_
  rw [ofSymbols_toSymbols positive, same, ofSymbols, List.flatMap_append, ← ofSymbols, ← ofSymbols,
    ofSymbols_toSymbols positive, ofSymbols_toSymbols positive, filling_of_dvd divides, List.replicate_zero,
    List.append_nil, List.append_assoc]

private theorem ofOctets_cons (octet : UInt8) (octets : List UInt8) :
    ofOctets (octet :: octets) = ofNat 8 octet.toNat ++ ofOctets octets := rfl

theorem length_ofOctets (octets : List UInt8) : (ofOctets octets).length = 8 * octets.length := by
  induction octets with
  | nil => rfl
  | cons octet octets ih =>
    rw [ofOctets_cons, List.length_append, length_ofNat, ih, List.length_cons, Nat.mul_succ, Nat.add_comm]

private theorem toOctets_ofNat (octet : UInt8) (bits : List Bool) :
    toOctets (ofNat 8 octet.toNat ++ bits) = octet :: toOctets bits ∧
    unused (ofNat 8 octet.toNat ++ bits) = unused bits := by
  have same : UInt8.ofNat (toNat (ofNat 8 octet.toNat)) = octet := by
    rw [toNat_ofNat, Nat.mod_eq_of_lt octet.toNat_lt, UInt8.ofNat_toNat]
  refine ⟨?_, rfl⟩
  change UInt8.ofNat (toNat (ofNat 8 octet.toNat)) :: toOctets bits = _
  rw [same]

/-- Bits that fill no octet are left over. -/
theorem toOctets_short {bits : List Bool} (short : bits.length < 8) : toOctets bits = [] ∧ unused bits = bits := by
  constructor
  · unfold toOctets
    split
    next => simp only [List.length_cons] at short; omega
    next => rfl
  · unfold unused
    split
    next => simp only [List.length_cons] at short; omega
    next => rfl

theorem toOctets_ofOctets (octets : List UInt8) {bits : List Bool} (short : bits.length < 8) :
    toOctets (ofOctets octets ++ bits) = octets ∧ unused (ofOctets octets ++ bits) = bits := by
  induction octets with
  | nil => exact toOctets_short short
  | cons octet octets ih =>
    rw [ofOctets_cons, List.append_assoc, (toOctets_ofNat octet _).1, (toOctets_ofNat octet _).2, ih.1]
    exact ⟨rfl, ih.2⟩

/-- Bits are the octets that they fill and what is left over. -/
theorem ofOctets_toOctets (bits : List Bool) :
    ofOctets (toOctets bits) ++ unused bits = bits ∧ (unused bits).length < 8 := by
  fun_induction toOctets bits with
  | case1 a b c d e f g h rest ih =>
    have octet : ofNat 8 (UInt8.ofNat (toNat [a, b, c, d, e, f, g, h])).toNat = [a, b, c, d, e, f, g, h] := by
      have small : toNat [a, b, c, d, e, f, g, h] < 2 ^ 8 := toNat_lt _
      rw [UInt8.toNat_ofNat', Nat.mod_eq_of_lt small]
      exact ofNat_group rfl
    rw [ofOctets_cons, octet, List.append_assoc]
    exact ⟨congrArg ([a, b, c, d, e, f, g, h] ++ ·) ih.1, ih.2⟩
  | case2 bits short =>
    have few : bits.length < 8 := by
      rcases bits with _ | ⟨a, _ | ⟨b, _ | ⟨c, _ | ⟨d, _ | ⟨e, _ | ⟨f, _ | ⟨g, _ | ⟨h, rest⟩⟩⟩⟩⟩⟩⟩⟩
      case cons.cons.cons.cons.cons.cons.cons.cons => exact (short a b c d e f g h rest rfl).elim
      all_goals
        simp only [List.length_cons, List.length_nil]
        decide
    rw [(toOctets_short few).2]
    exact ⟨rfl, few⟩

end LedgerClient.Bits
