import LedgerClient.Time.Calendar

/-! Instants, and their text with date, time and offset. -/

namespace LedgerClient

/-- Seconds since the start of 1970, and a part of a second in nanoseconds. A part
of a second or more marks a leap second, which is shown as one second later. -/
structure Instant where
  seconds : Int
  nanoseconds : Nat
deriving DecidableEq, Repr

namespace Instant

/-- A number with at least as many digits as are said. -/
def padded (width : Nat) (n : Nat) : List Char :=
  let digits := Nat.toDigits 10 n
  List.replicate (width - digits.length) '0' ++ digits

/-- Years of up to four digits have no sign. -/
def yearText (year : Int) : List Char :=
  if year < 0 then '-' :: padded 4 year.natAbs
  else if year ≤ 9999 then padded 4 year.natAbs
  else '+' :: padded 4 year.natAbs

/-- An offset in minutes, to the nearest one. -/
def offsetText (offset : Int) : List Char :=
  if offset = 0 then ['Z']
  else
    let minutes := (offset.natAbs + 30) / 60
    (if offset < 0 then '-' else '+') :: (padded 2 (minutes / 60) ++ ':' :: padded 2 (minutes % 60))

/-- The instant as a clock shows it that is ahead of UTC by an offset in seconds. -/
def text (instant : Instant) (offset : Int) : String :=
  let shown := instant.seconds + offset
  let date := Date.ofDays (shown / 86400)
  let second := (shown % 86400).toNat
  let leap := if instant.nanoseconds < 1000000000 then 0 else 1
  String.ofList <|
    yearText date.year ++ '-' :: (padded 2 date.month.toNat ++ '-' :: (padded 2 date.day.toNat ++
      'T' :: (padded 2 (second / 3600) ++ ':' :: (padded 2 (second / 60 % 60) ++
        ':' :: (padded 2 (second % 60 + leap) ++ offsetText offset)))))

/-- The instant a number of seconds earlier. -/
def before (instant : Instant) (seconds : Int) : Instant :=
  { instant with seconds := instant.seconds - seconds }

end Instant
end LedgerClient
