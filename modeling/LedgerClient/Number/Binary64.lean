/-! Finite numbers of double precision. A magnitude is known by its place among
all magnitudes counted up from zero, so rounding is a matter of finding a place,
and a carry into the next power of two needs no case of its own. -/

namespace LedgerClient

/-- How many magnitudes there are, up to the greatest finite one. -/
abbrev Binary64.places : Nat := 0x7FF0000000000000

structure Binary64 where
  negative : Bool
  place : Fin Binary64.places
deriving DecidableEq, Repr

namespace Binary64

/-- The least significand with all of its 53 bits, and the number of magnitudes
between two powers of two. -/
def leastFull : Nat := 0x10000000000000

def zero : Binary64 := ⟨false, 0⟩

instance : Inhabited Binary64 := ⟨zero⟩

def neg (x : Binary64) : Binary64 := { x with negative := !x.negative }

/-- The magnitude is the significand times two to the power of the scale. -/
def significand (x : Binary64) : Nat :=
  if x.place.val < leastFull then x.place.val else x.place.val % leastFull + leastFull

def scale (x : Binary64) : Int :=
  max (x.place.val / leastFull : Nat) 1 - 1075

def isZero (x : Binary64) : Bool := x.place.val == 0

/-- The quotient, or its upper neighbour if that is nearer; a half goes to the
even one. -/
def nearest (dividend divisor : Nat) : Nat :=
  let quotient := dividend / divisor
  let twice := 2 * (dividend % divisor)
  if twice < divisor ∨ (twice = divisor ∧ quotient % 2 = 0) then quotient else quotient + 1

/-- The place nearest to a positive quotient. Beyond the last place there is no
number, and the count just goes on. -/
def placeOf (dividend divisor : Nat) : Nat :=
  let guess : Int := (dividend.log2 : Int) - divisor.log2
  let small := if 0 ≤ guess then dividend < divisor <<< guess.toNat
    else dividend <<< (-guess).toNat < divisor
  let scale := max ((if small then guess - 1 else guess) - 52) (-1074)
  let units := if 0 ≤ scale then nearest dividend (divisor <<< scale.toNat)
    else nearest (dividend <<< (-scale).toNat) divisor
  (scale + 1074).toNat * leastFull + units

/-- The number nearest to a quotient, unless it is too large for any. -/
def ofRatio (negative : Bool) (dividend divisor : Nat) : Option Binary64 :=
  if dividend = 0 then some ⟨negative, 0⟩
  else
    let place := placeOf dividend divisor
    if h : place < places then some ⟨negative, ⟨place, h⟩⟩ else none

/-- The magnitude as a quotient. -/
def ratio (x : Binary64) : Nat × Nat :=
  (x.significand <<< x.scale.toNat, 1 <<< (-x.scale).toNat)

def mul (x y : Binary64) : Option Binary64 :=
  let (a, b) := x.ratio
  let (c, d) := y.ratio
  ofRatio (x.negative != y.negative) (a * c) (b * d)

/-- The quotient of two numbers, the second of which is not zero. -/
def div (x y : Binary64) : Option Binary64 :=
  let (a, b) := x.ratio
  let (c, d) := y.ratio
  ofRatio (x.negative != y.negative) (a * d) (b * c)

def ofNat (n : Nat) : Option Binary64 := ofRatio false n 1

end Binary64
end LedgerClient
