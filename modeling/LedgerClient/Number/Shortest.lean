import LedgerClient.Number.Binary64

/-! The fewest decimal digits that read back as a given number, and how they are
laid out. All arithmetic is exact. -/

namespace LedgerClient.Shortest

/-- Digits `d₁d₂…` and an exponent stand for `d₁.d₂… · 10^exponent`. -/
structure Decimal where
  digits : List Char
  exponent : Int
deriving DecidableEq, Repr

/-- The reals nearer to a number than to any other, over a common unit: from
`low` to `high`, with both ends if `closed`. -/
structure Interval where
  low : Nat
  value : Nat
  high : Nat
  unit : Nat
  closed : Bool

def interval (x : Binary64) : Interval :=
  let s := x.significand
  let up := 1 <<< (x.scale - 2).toNat
  { low := (if s = Binary64.leastFull ∧ x.scale ≠ -1074 then 4 * s - 1 else 4 * s - 2) * up
    value := 4 * s * up
    high := (4 * s + 2) * up
    unit := 1 <<< (2 - x.scale).toNat
    closed := s % 2 = 0 }

def Interval.holds (i : Interval) (dividend divisor : Nat) : Bool :=
  let point := dividend * i.unit
  if i.closed then i.low * divisor ≤ point && point ≤ i.high * divisor
  else i.low * divisor < point && point < i.high * divisor

/-- The power of ten of the first digit of a positive value. -/
def firstPower (i : Interval) : Int :=
  let guess : Int := ((Nat.toDigits 10 i.value).length : Int) - (Nat.toDigits 10 i.unit).length
  let fits := if 0 ≤ guess then i.unit * Nat.pow 10 guess.toNat ≤ i.value
    else i.unit ≤ i.value * Nat.pow 10 (-guess).toNat
  if fits then guess else guess - 1

/-- The point of the interval, if there is one, with the given number of places
behind the first digit; of two such points the nearer, and at the same distance
the even one. It is a multiple of ten to the power of `first - places`. -/
def point? (i : Interval) (first : Int) (places : Nat) : Option Nat :=
  let power := first - places
  let up := Nat.pow 10 power.toNat
  let down := Nat.pow 10 (-power).toNat
  let dividend := i.value * down
  let divisor := i.unit * up
  let below := dividend / divisor
  let best := Binary64.nearest dividend divisor
  let inside := fun n => i.holds (n * up) down
  if inside best then some best
  else if inside below then some below
  else if inside (below + 1) then some (below + 1)
  else none

/-- Tries ever more places; seventeen digits tell all numbers apart. -/
def search (i : Interval) (first : Int) : Nat → Nat → Decimal
  | 0, _ => ⟨['0'], 0⟩
  | tries + 1, places =>
    match point? i first places with
    | some n =>
      let digits := Nat.toDigits 10 n
      ⟨digits, first - places + (digits.length - 1 : Nat)⟩
    | none => search i first tries (places + 1)

/-- Drops the zeros at the end of a fraction. -/
def Decimal.trim (d : Decimal) : Decimal :=
  match (d.digits.reverse.dropWhile (· = '0')).reverse with
  | [] => ⟨['0'], 0⟩
  | digits => ⟨digits, d.exponent⟩

/-- The shortest decimal of a magnitude. -/
def decimal (x : Binary64) : Decimal :=
  if x.isZero then ⟨['0'], 0⟩
  else
    let i := interval x
    (search i (firstPower i) 18 0).trim

/-- How a decimal is written: the exponents for which the digits stand in place,
and whether a positive exponent has a sign. -/
structure Layout where
  least : Int
  greatest : Int
  plus : Bool

/-- A point and a digit behind it are always there when no exponent is. -/
def Decimal.text (layout : Layout) (d : Decimal) : List Char :=
  if layout.least ≤ d.exponent ∧ d.exponent ≤ layout.greatest then
    if d.exponent < 0 then
      '0' :: '.' :: (List.replicate (-d.exponent - 1).toNat '0' ++ d.digits)
    else
      let whole := d.exponent.toNat + 1
      let padded := d.digits ++ List.replicate (whole - d.digits.length) '0'
      match padded.drop whole with
      | [] => padded ++ ['.', '0']
      | fraction => padded.take whole ++ '.' :: fraction
  else
    let mantissa := match d.digits with
      | [] => []
      | [c] => [c]
      | c :: rest => c :: '.' :: rest
    let sign := if d.exponent < 0 then ['-'] else if layout.plus then ['+'] else []
    mantissa ++ 'e' :: sign ++ Nat.toDigits 10 d.exponent.natAbs

def text (layout : Layout) (x : Binary64) : List Char :=
  let magnitude := (decimal x).text layout
  if x.negative then '-' :: magnitude else magnitude

end LedgerClient.Shortest
