/-! Spans of time, and their text in the largest unit that they fill. -/

namespace LedgerClient

structure Duration where
  nanoseconds : Nat
deriving DecidableEq, Repr

namespace Duration

def ofSeconds (n : Nat) : Duration := ⟨n * 1000000000⟩

def ofMilliseconds (n : Nat) : Duration := ⟨n * 1000000⟩

def ofNanoseconds (n : Nat) : Duration := ⟨n⟩

def wholeSeconds (d : Duration) : Nat := d.nanoseconds / 1000000000

def restNanoseconds (d : Duration) : Nat := d.nanoseconds % 1000000000

/-- A count of units of so many nanoseconds, with a fraction of the number of
places that such a unit has; zeros at its end are dropped. -/
def inUnits (size places : Nat) (unit : List Char) (n : Nat) : List Char :=
  let digits := Nat.toDigits 10 (n % size)
  let fraction := ((List.replicate (places - digits.length) '0' ++ digits).reverse.dropWhile (· = '0')).reverse
  Nat.toDigits 10 (n / size) ++ (if n % size = 0 then [] else '.' :: fraction) ++ unit

def text (d : Duration) : String :=
  let n := d.nanoseconds
  String.ofList <|
    if 1000000000 ≤ n then inUnits 1000000000 9 ['s'] n
    else if 1000000 ≤ n then inUnits 1000000 6 ['m', 's'] n
    else if 1000 ≤ n then inUnits 1000 3 ['µ', 's'] n
    else inUnits 1 0 ['n', 's'] n

end Duration
end LedgerClient
