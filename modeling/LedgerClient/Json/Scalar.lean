import LedgerClient.Json.Reader
import LedgerClient.Text.Utf8

/-! Reading words, numbers and strings. -/

namespace LedgerClient.Json.Reader

def digit? (octet : UInt8) : Option Nat :=
  if 48 ≤ octet ∧ octet ≤ 57 then some (octet.toNat - 48) else none

def isDigit (octet : UInt8) : Bool := (digit? octet).isSome

def digits : Reader (List Nat) := fun rest =>
  .done ((rest.takeWhile isDigit).filterMap digit?) (rest.dropWhile isDigit)

/-- Appends digits to a number as long as it stays below 2⁶⁴, and counts the
digits that are left then. -/
def gather (n : Nat) : List Nat → Nat × Nat
  | [] => (n, 0)
  | digit :: rest =>
    if n * 10 + digit < 0x10000000000000000 then gather (n * 10 + digit) rest else (n, rest.length + 1)

def powerOfTen (n : Nat) : Binary64 := (Binary64.ofNat (Nat.pow 10 n)).getD .zero

def divided (x : Binary64) (n : Nat) : Binary64 := (x.div (powerOfTen n)).getD .zero

/-- A significand times a power of ten. Each product and quotient is rounded; a
quotient by more than 10³⁰⁸ is taken in steps, of which the third leaves nothing
that is not zero. `none` is a number that is too large. -/
def scaled (significand : Nat) (exponent : Int) : Option Binary64 := do
  let x ← Binary64.ofNat significand
  let power := exponent.natAbs
  if exponent < 0 then
    if power ≤ 308 then divided x power
    else if power ≤ 616 then divided (divided x 308) (power - 308)
    else some .zero
  else if power ≤ 308 then x.mul (powerOfTen power)
  else if x.isZero then some .zero
  else none

def signed (negative : Bool) (x : Binary64) : Binary64 := if negative then x.neg else x

/-- A whole number written without fraction and exponent. Zero with a sign is a
float, and so is what lies outside the range of exact numbers. -/
def wholeNumber (negative : Bool) (whole : List Nat) : Option Json :=
  let (n, left) := gather 0 whole
  if left ≠ 0 then (scaled n left).map fun x => .float (signed negative x)
  else
    let value : Int := if negative then -n else n
    if h : (-0x8000000000000000 ≤ value ∧ value < 0x10000000000000000) ∧ ¬(negative ∧ n = 0) then
      some (.integer ⟨value, h.1⟩)
    else (Binary64.ofNat n).map fun x => .float (signed negative x)

/-- The digits of an exponent behind the first. Counting stops beyond 2³¹, at a
fault if the number would be too large. -/
def exponentDigits (tooLarge : Bool) : Nat → List UInt8 → Outcome (Option Nat)
  | n, [] => .done (some n) []
  | n, octet :: rest =>
    match digit? octet with
    | none => .done (some n) (octet :: rest)
    | some digit =>
      if n * 10 + digit < 0x80000000 then exponentDigits tooLarge (n * 10 + digit) rest
      else if tooLarge then failHere .numberTooLarge rest
      else .done none (rest.dropWhile isDigit)

/-- An exponent behind its letter; `none` leaves nothing but zero. -/
def exponent (zero : Bool) : Reader (Option Int) := do
  let sign ← peek
  if sign = some '+' ∨ sign = some '-' then skipOne
  let negative := sign = some '-'
  match ← next with
  | none => failHere .valueEnds
  | some c =>
    if c.isDigit then
      let n ← exponentDigits (!zero && !negative) (c.toNat - 48)
      return n.map fun n => if negative then -n else n
    else failHere .badNumber

/-- The digits in front of the point; a zero is followed by no other. -/
def wholeDigits : Reader (List Nat) := do
  match ← peek with
  | none => failHere .valueEnds
  | some '0' =>
    skipOne
    match ← peek with
    | some c => if c.isDigit then failAhead .badNumber else pure [0]
    | none => pure [0]
  | some c =>
    if c.isDigit then digits
    else do
      skipOne
      failHere .badNumber

/-- The number as far as read, before an exponent is looked for. -/
def inexact (negative : Bool) (significand : Nat) (power : Int) : Reader Json := do
  let letter ← peek
  if letter = some 'e' ∨ letter = some 'E' then
    skipOne
    match ← exponent (significand = 0) with
    | none => return .float (signed negative .zero)
    | some e => finish (power + e)
  else finish power
where
  finish (power : Int) : Reader Json :=
    match scaled significand power with
    | some x => pure (.float (signed negative x))
    | none => failHere .numberTooLarge

/-- A number from its first digit or its sign on. -/
def number : Reader Json := do
  let negative := (← peek) = some '-'
  if negative then skipOne
  let whole ← wholeDigits
  let (n, left) := gather 0 whole
  match ← peek with
  | some '.' =>
    skipOne
    let fraction ← digits
    if fraction.isEmpty then
      match ← peek with
      | none => failAhead .valueEnds
      | some _ => failAhead .badNumber
    else
      let (m, unused) := gather n fraction
      inexact negative m ((left : Int) - (fraction.length - unused : Nat))
  | some 'e' | some 'E' => inexact negative n left
  | _ =>
    match wholeNumber negative whole with
    | some value => pure value
    | none => failHere .numberTooLarge

def hexDigit? (octet : UInt8) : Option Nat :=
  let c := character octet
  if '0' ≤ c ∧ c ≤ '9' then some (c.toNat - 48)
  else if 'a' ≤ c ∧ c ≤ 'f' then some (c.toNat - 87)
  else if 'A' ≤ c ∧ c ≤ 'F' then some (c.toNat - 55)
  else none

/-- Four hexadecimal digits. If the text is too short for them it is used up. -/
def fourHex : Reader Nat := fun rest =>
  match rest with
  | a :: b :: c :: d :: rest =>
    match hexDigit? a, hexDigit? b, hexDigit? c, hexDigit? d with
    | some a, some b, some c, some d => .done (((a * 16 + b) * 16 + c) * 16 + d) rest
    | _, _, _, _ => failHere .badEscape rest
  | _ => failHere .stringEnds []

/-- The next character of an escape that needs two parts. -/
def secondHalf (c : Char) : Reader Unit := do
  match ← next with
  | none => failHere .stringEnds
  | some d => if d = c then pure () else failHere .halfSurrogate

/-- A character by its number, or by two surrogates. -/
def numbered : Reader Char := do
  let high ← fourHex
  if 0xDC00 ≤ high ∧ high ≤ 0xDFFF then failHere .loneSurrogate
  else if high < 0xD800 ∨ 0xDBFF < high then return Char.ofNat high
  else
    secondHalf '\\'
    secondHalf 'u'
    let low ← fourHex
    if low < 0xDC00 ∨ 0xDFFF < low then failHere .loneSurrogate
    else return Char.ofNat (0x10000 + (high - 0xD800) * 0x400 + (low - 0xDC00))

/-- What a backslash stands for with the letters behind it. -/
def escape : Reader Char := do
  match ← next with
  | none => failHere .stringEnds
  | some '"' => pure '"'
  | some '\\' => pure '\\'
  | some '/' => pure '/'
  | some 'b' => pure '\x08'
  | some 'f' => pure '\x0c'
  | some 'n' => pure '\n'
  | some 'r' => pure '\r'
  | some 't' => pure '\t'
  | some 'u' => numbered
  | some _ => failHere .badEscape

/-- What stands for itself in a string. -/
def isPlain (octet : UInt8) : Bool := 0x20 ≤ octet && octet ≠ 34 && octet ≠ 92

/-- The part of a string in front of its next escape or its closing quote. It is
decoded when that has been found; octets that are no text are reported where the
first malformed sequence starts. -/
def plain : Reader (List Char) := fun rest =>
  let octets := rest.takeWhile isPlain
  match rest.dropWhile isPlain with
  | [] => failHere .stringEnds []
  | stop :: behind =>
    if stop < 0x20 then failHere .control behind
    else
      match Utf8.decode? octets with
      | some text => .done text (stop :: behind)
      | none => .fault ⟨.notUtf8, some (rest.length - (Utf8.soundLength octets + 1))⟩ rest

def characters : Nat → Reader (List Char)
  | 0 => failHere .stringEnds
  | bound + 1 => do
    let text ← plain
    match ← next with
    | some '\\' =>
      let c ← escape
      return text ++ c :: (← characters bound)
    | _ => return text

/-- A string behind its opening quote. -/
def string : Reader String := do
  return String.ofList (← bounded characters)

end LedgerClient.Json.Reader
