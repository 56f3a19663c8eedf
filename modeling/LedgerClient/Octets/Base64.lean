import LedgerClient.Octets.Bits

/-! Base64 in the standard alphabet. Writing pads to whole groups of four.
Reading takes any part of the padding, but insists that the bits which the last
symbol has to spare are zero. -/

namespace LedgerClient.Base64

def symbol (n : Nat) : Char :=
  Char.ofNat (if n < 26 then 65 + n else if n < 52 then 71 + n else if n < 62 then n - 4
    else if n = 62 then 43 else 47)

def value? (octet : UInt8) : Option Nat :=
  let n := octet.toNat
  if 65 ≤ n ∧ n ≤ 90 then some (n - 65)
  else if 97 ≤ n ∧ n ≤ 122 then some (n - 71)
  else if 48 ≤ n ∧ n ≤ 57 then some (n + 4)
  else if n = 43 then some 62
  else if n = 47 then some 63
  else none

def encode (octets : List UInt8) : List Char :=
  let text := (Bits.toSymbols 6 (Bits.ofOctets octets)).map symbol
  text ++ List.replicate ((4 - text.length % 4) % 4) '='

/-- Why a text is not base64. Offsets count octets. -/
inductive Fault
  | symbol (octet : UInt8) (offset : Nat)
  | length (count : Nat)
  | lastSymbol (octet : UInt8) (offset : Nat) (value : Nat)
deriving DecidableEq, Repr

def Fault.message : Fault → String
  | symbol octet offset => "Invalid symbol " ++ toString octet.toNat ++ ", offset " ++ toString offset ++ "."
  | length count => "Invalid input length: " ++ toString count
  | lastSymbol octet offset value =>
    let hex := Nat.toDigits 16 octet.toNat
    let binary := Nat.toDigits 2 value
    "Invalid last symbol 0x" ++ String.ofList (List.replicate (2 - hex.length) '0' ++ hex.map Char.toUpper) ++
      " ('" ++ (Char.ofNat octet.toNat).toString ++ "') at offset " ++ toString offset ++ ", decoded as 0b" ++
      String.ofList (List.replicate (8 - binary.length) '0' ++ binary) ++ "."

def pad : UInt8 := 61

/-- The values of symbols of which the first stands at an offset. -/
def values (offset : Nat) : List UInt8 → Except Fault (List Nat)
  | [] => .ok []
  | octet :: rest =>
    match value? octet with
    | some n => (values (offset + 1) rest).map (n :: ·)
    | none => .error (.symbol octet offset)

/-- The values in the last group, which alone may hold padding: behind its
second symbol, and with nothing else behind. -/
def lastValues (offset : Nat) (group : List UInt8) : Except Fault (List Nat) := do
  let body := group.takeWhile (· ≠ pad)
  let padding := group.dropWhile (· ≠ pad)
  let read ← values offset body
  if padding ≠ [] ∧ (body.length < 2 ∨ ∃ octet ∈ padding, octet ≠ pad) then
    throw (.symbol pad (offset + body.length))
  if read.length = 1 then throw (.length (offset + 1))
  return read

/-- A stray octet behind whole groups is named before anything in front of it. -/
def decode (text : List UInt8) : Except Fault (List UInt8) := do
  let stray := text.getLastD pad
  if text.length % 4 = 1 ∧ stray ≠ pad ∧ value? stray = none then
    throw (.symbol stray (text.length - 1))
  let whole := (text.length - 1) / 4 * 4
  let first ← values 0 (text.take whole)
  let last ← lastValues whole (text.drop whole)
  let bits := Bits.ofSymbols 6 (first ++ last)
  if (Bits.unused bits).any id then
    let offset := whole + last.length - 1
    throw (.lastSymbol (text[offset]?.getD pad) offset (last.getLastD 0))
  return Bits.toOctets bits

end LedgerClient.Base64
