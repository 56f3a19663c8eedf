import LedgerClient.Octets.Bits

/-! Base32 without padding, in capital letters. Reading takes letters of either
case and gives no meaning to the bits that are left over behind the last octet. -/

namespace LedgerClient.Base32

def symbol (n : Nat) : Char := Char.ofNat (if n < 26 then 65 + n else 24 + n)

def value? (c : Char) : Option Nat :=
  if 'A' ≤ c ∧ c ≤ 'Z' then some (c.toNat - 65)
  else if 'a' ≤ c ∧ c ≤ 'z' then some (c.toNat - 97)
  else if '2' ≤ c ∧ c ≤ '7' then some (c.toNat - 24)
  else none

def encode (octets : List UInt8) : List Char :=
  (Bits.toSymbols 5 (Bits.ofOctets octets)).map symbol

def decode? (text : List Char) : Option (List UInt8) :=
  (text.mapM value?).map fun symbols => Bits.toOctets (Bits.ofSymbols 5 symbols)

end LedgerClient.Base32
