import LedgerClient.Text.Utf8

/-! Percent encoding. A set says which octets stand for themselves; every other
octet is spelt as a percent sign and two hexadecimal digits in capitals. -/

namespace LedgerClient.Percent

def hexDigit (n : Nat) : Char := Char.ofNat (if n < 10 then 48 + n else 55 + n)

def spell (octet : UInt8) : List Char :=
  ['%', hexDigit (octet.toNat / 16), hexDigit (octet.toNat % 16)]

def encodeOctets (keeps : UInt8 → Bool) (octets : List UInt8) : List Char :=
  octets.flatMap fun octet => if keeps octet then [Char.ofNat octet.toNat] else spell octet

def encode (keeps : UInt8 → Bool) (text : List Char) : List Char :=
  encodeOctets keeps (Utf8.encode text)

def hexValue? (octet : UInt8) : Option Nat :=
  let n := octet.toNat
  if 48 ≤ n ∧ n ≤ 57 then some (n - 48)
  else if 65 ≤ n ∧ n ≤ 70 then some (n - 55)
  else if 97 ≤ n ∧ n ≤ 102 then some (n - 87)
  else none

/-- A percent sign without two digits behind it stands for itself. -/
def decode : List UInt8 → List UInt8
  | [] => []
  | 37 :: a :: b :: rest =>
    match hexValue? a, hexValue? b with
    | some high, some low => UInt8.ofNat (high * 16 + low) :: decode rest
    | _, _ => 37 :: decode (a :: b :: rest)
  | octet :: rest => octet :: decode rest

end LedgerClient.Percent
