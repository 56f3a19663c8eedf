import LedgerClient.Proofs.CalendarDays
import LedgerClient.Time.Instant

/-! The text of an instant, read back: a date of the calendar, a time of the day, and an
offset in minutes that leads back to the second of the instant. -/

namespace LedgerClient.Instant

abbrev Scan := StateT (List Char) Option

/-- A number of so many digits. -/
def Scan.number (width : Nat) : Scan Nat := fun text =>
  if (text.take width).length = width ∧ (text.take width).all Char.isDigit
  then some (Nat.ofDigitChars 10 (text.take width) 0, text.drop width) else none

def Scan.sign (expected : Char) : Scan Unit
  | [] => none
  | char :: text => if char = expected then some ((), text) else none

/-- `Z`, or hours and minutes with a sign before them. -/
def Scan.zone : Scan (Option Int)
  | 'Z' :: text => some (none, text)
  | '+' :: text => minutes text
  | '-' :: text => (minutes text).map fun (zone, text) => (zone.map Neg.neg, text)
  | _ => none
where
  minutes : Scan (Option Int) := do
    let hours ← number 2
    sign ':'
    let minutes ← number 2
    return some (60 * hours + minutes)

/-- What a text shows. The zone is the offset in minutes, or nothing for `Z`. -/
structure Stamp where
  date : Date
  hour : Nat
  minute : Nat
  second : Nat
  zone : Option Int
deriving DecidableEq, Repr

def Scan.stamp : Scan Stamp := do
  let year ← number 4
  sign '-'
  let month ← number 2
  sign '-'
  let day ← number 2
  sign 'T'
  let hour ← number 2
  sign ':'
  let minute ← number 2
  sign ':'
  let second ← number 2
  let zone ← zone
  return ⟨⟨year, month, day⟩, hour, minute, second, zone⟩

namespace Stamp

/-- Reads a text of the form `YYYY-MM-DDThh:mm:ss` with a zone behind it. -/
def read? (text : String) : Option Stamp :=
  match Scan.stamp text.toList with
  | some (stamp, []) => some stamp
  | _ => none

/-- The minutes by which a stamp is ahead of UTC. -/
def ahead (stamp : Stamp) : Int := stamp.zone.getD 0

/-- The seconds from the start of 1970 to the time of a stamp. -/
def seconds (stamp : Stamp) : Int :=
  86400 * stamp.date.count + 3600 * stamp.hour + 60 * stamp.minute + stamp.second - 60 * stamp.ahead

/-- Stamps that are a date of the calendar and a time of the day. -/
structure IsReal (stamp : Stamp) : Prop where
  date : stamp.date.IsReal
  hour : stamp.hour < 24
  minute : stamp.minute < 60
  second : stamp.second < 60

end Stamp

private theorem length_padded {width n : Nat} (small : n < 10 ^ width) (positive : 0 < width) :
    (padded width n).length = width := by
  have short := (Nat.length_toDigits_le_iff (b := 10) (by decide) positive).mpr small
  rw [padded, List.length_append, List.length_replicate, Nat.sub_add_cancel short]

private theorem isDigit_padded (width n : Nat) : (padded width n).all Char.isDigit = true := by
  rw [padded, List.all_append, List.all_replicate, Bool.and_eq_true, List.all_eq_true]
  refine ⟨by split <;> rfl, fun char member => Nat.isDigit_of_mem_toDigits (by decide) (by decide) member⟩

private theorem ofDigitChars_padded (width n : Nat) : Nat.ofDigitChars 10 (padded width n) 0 = n := by
  have zeros (count : Nat) : Nat.ofDigitChars 10 (List.replicate count '0') 0 = 0 := by
    induction count with
    | zero => rfl
    | succ count ih => rw [List.replicate_succ, Nat.ofDigitChars_cons]; exact ih
  rw [padded, Nat.ofDigitChars_append, zeros, Nat.ofDigitChars_toDigits (by decide) (by decide)]

namespace Scan

private theorem bind_of_some {scan : Scan α} {text rest : List Char} {value : α} (read : scan text = some (value, rest))
    (next : α → Scan β) : (scan >>= next) text = next value rest := by
  change (scan text).bind (fun (value, rest) => next value rest) = _
  rw [read]
  rfl

private theorem number_padded {width n : Nat} (small : n < 10 ^ width) (positive : 0 < width) (text : List Char) :
    number width (padded width n ++ text) = some (n, text) := by
  have length := length_padded small positive
  have front : (padded width n ++ text).take width = padded width n := List.take_left' length
  have behind : (padded width n ++ text).drop width = text := List.drop_left' length
  rw [number, front, behind, if_pos ⟨length, isDigit_padded width n⟩, ofDigitChars_padded]

private theorem two_padded {n : Nat} (small : n < 100) (text : List Char) :
    number 2 (padded 2 n ++ text) = some (n, text) :=
  number_padded (by omega) (by decide) text

private theorem sign_cons (expected : Char) (text : List Char) :
    sign expected (expected :: text) = some ((), text) := by
  rw [sign, if_pos rfl]

private theorem stamp_padded {year month day hour minute second : Nat} {zone : Option Int} {text rest : List Char}
    (years : year < 10000) (months : month < 100) (days : day < 100) (hours : hour < 100) (minutes : minute < 100)
    (seconds : second < 100) (zoned : Scan.zone text = some (zone, rest)) :
    stamp (padded 4 year ++ '-' :: (padded 2 month ++ '-' :: (padded 2 day ++ 'T' :: (padded 2 hour ++
      ':' :: (padded 2 minute ++ ':' :: (padded 2 second ++ text)))))) =
      some (⟨⟨year, month, day⟩, hour, minute, second, zone⟩, rest) := by
  rw [stamp, bind_of_some (number_padded years (by decide) _), bind_of_some (sign_cons _ _),
    bind_of_some (two_padded months _), bind_of_some (sign_cons _ _), bind_of_some (two_padded days _),
    bind_of_some (sign_cons _ _), bind_of_some (two_padded hours _), bind_of_some (sign_cons _ _),
    bind_of_some (two_padded minutes _), bind_of_some (sign_cons _ _), bind_of_some (two_padded seconds _),
    bind_of_some zoned]
  rfl

private theorem minutes_padded {minutes : Nat} (small : minutes < 6000) (text : List Char) :
    zone.minutes (padded 2 (minutes / 60) ++ ':' :: (padded 2 (minutes % 60) ++ text)) =
      some (some (minutes : Int), text) := by
  rw [zone.minutes, bind_of_some (two_padded (by omega) _), bind_of_some (sign_cons _ _),
    bind_of_some (two_padded (by omega) _)]
  have whole : (60 * (minutes / 60 : Nat) + (minutes % 60 : Nat) : Int) = minutes := by omega
  change some (some _, text) = _
  rw [whole]

end Scan

/-- The whole number of minutes closest to an offset in seconds. Of two it is the one
that is farther from zero. -/
def IsNearest (offset minutes : Int) : Prop :=
  (offset - 60 * minutes).natAbs ≤ 30 ∧
    ((offset - 60 * minutes).natAbs = 30 → offset.natAbs < (60 * minutes).natAbs)

private theorem scan_offsetText {offset : Int} (within : offset.natAbs < 86400) : ∃ zone : Option Int,
    Scan.zone (offsetText offset) = some (zone, []) ∧ (zone = none ↔ offset = 0) ∧
      IsNearest offset (zone.getD 0) := by
  rw [offsetText]
  by_cases utc : offset = 0
  · subst utc
    exact ⟨none, rfl, iff_of_true rfl rfl, by decide, by decide⟩
  · rw [if_neg utc]
    have small : (offset.natAbs + 30) / 60 < 6000 := by omega
    have read := Scan.minutes_padded small []
    rw [List.append_nil] at read
    by_cases west : offset < 0
    · simp only [west, if_true]
      refine ⟨some (-((offset.natAbs + 30) / 60 : Nat)), ?_, iff_of_false nofun utc, ?_⟩
      · rw [Scan.zone, read]
        rfl
      · rw [Option.getD_some, IsNearest]
        omega
    · simp only [west, if_false]
      refine ⟨some ((offset.natAbs + 30) / 60 : Nat), ?_, iff_of_false nofun utc, ?_⟩
      · rw [Scan.zone, read]
      · rw [Option.getD_some, IsNearest]
        omega

private theorem read?_text {instant : Instant} {offset : Int} (plain : instant.nanoseconds < 1000000000) {date : Date}
    (shown : Date.ofDays ((instant.seconds + offset) / 86400) = date) (real : date.IsReal)
    (years : 0 ≤ date.year ∧ date.year < 10000) {zone : Option Int}
    (scanned : Scan.zone (offsetText offset) = some (zone, [])) :
    let second := ((instant.seconds + offset) % 86400).toNat
    Stamp.read? (instant.text offset) = some ⟨date, second / 3600, second / 60 % 60, second % 60, zone⟩ := by
  intro second
  have bound : second < 86400 := by omega
  have days := real.day_within
  obtain ⟨months, _⟩ := real
  obtain ⟨year, month, day⟩ := date
  dsimp only at years months days
  lift year to Nat using years.1
  lift month to Nat using by omega
  lift day to Nat using by omega
  rw [Stamp.read?, text, String.toList_ofList, shown]
  dsimp only
  rw [yearText, if_neg (by omega), if_pos (by omega), if_pos plain, Nat.add_zero]
  simp only [Int.natAbs_natCast, Int.toNat_natCast]
  rw [Scan.stamp_padded (by omega) (by omega) (by omega) (by omega) (by omega) (by omega) scanned]

/-- The text of an instant within four digits of years shows a date of the calendar and
a time of the day. They lead back to its second, but for what the offset is rounded by. -/
theorem text_leads_back {instant : Instant} {offset : Int} (plain : instant.nanoseconds < 1000000000)
    (within : offset.natAbs < 86400) (early : Date.count ⟨0, 1, 1⟩ ≤ (instant.seconds + offset) / 86400)
    (late : (instant.seconds + offset) / 86400 < Date.count ⟨10000, 1, 1⟩) : ∃ stamp,
      Stamp.read? (instant.text offset) = some stamp ∧ stamp.IsReal ∧ (stamp.zone = none ↔ offset = 0) ∧
      IsNearest offset stamp.ahead ∧ stamp.seconds = instant.seconds + (offset - 60 * stamp.ahead) ∧
      (60 ∣ offset → stamp.seconds = instant.seconds) := by
  obtain ⟨zone, scanned, utc, nearest⟩ := scan_offsetText within
  have real := Date.isReal_ofDays ((instant.seconds + offset) / 86400)
  have counted := Date.count_ofDays ((instant.seconds + offset) / 86400)
  have years := real.year_within.mpr (by rw [counted]; exact ⟨early, late⟩)
  have read := read?_text plain rfl real years scanned
  have whole : (((instant.seconds + offset) % 86400).toNat : Int) = (instant.seconds + offset) % 86400 := by omega
  generalize ((instant.seconds + offset) % 86400).toNat = second at read whole
  refine ⟨_, read, ⟨real, ?_, ?_, ?_⟩, utc, nearest, ?_, ?_⟩
  · dsimp only
    omega
  · exact Nat.mod_lt _ (by decide)
  · exact Nat.mod_lt _ (by decide)
  · simp only [Stamp.seconds, Stamp.ahead, counted]
    omega
  · intro minutes
    rw [IsNearest] at nearest
    simp only [Stamp.seconds, Stamp.ahead, counted]
    omega

/-- Half a minute before the epoch east of Greenwich, where the day has begun already. -/
theorem text_leads_back_east :
    let instant : Instant := ⟨-30, 500000000⟩
    instant.nanoseconds < 1000000000 ∧ (5430 : Int).natAbs < 86400 ∧
      Date.count ⟨0, 1, 1⟩ ≤ (instant.seconds + 5430) / 86400 ∧
      (instant.seconds + 5430) / 86400 < Date.count ⟨10000, 1, 1⟩ ∧
      ∃ stamp, Stamp.read? (instant.text 5430) = some stamp ∧ stamp.IsReal ∧ stamp.zone ≠ none ∧
        IsNearest 5430 stamp.ahead ∧ stamp.seconds = -30 + (5430 - 60 * stamp.ahead) := by
  intro instant
  have early : Date.count ⟨0, 1, 1⟩ ≤ (instant.seconds + 5430) / 86400 := by decide
  have late : (instant.seconds + 5430) / 86400 < Date.count ⟨10000, 1, 1⟩ := by decide
  obtain ⟨stamp, read, real, utc, nearest, seconds, _⟩ :=
    @text_leads_back instant 5430 (by decide) (by decide) early late
  have shifted : stamp.zone ≠ none := fun zone => absurd (utc.mp zone) (by decide)
  exact ⟨by decide, by decide, early, late, stamp, read, real, shifted, nearest, seconds⟩

example : (⟨-5431, 0⟩ : Instant).text 5430 = "1969-12-31T23:59:59+01:31" := by decide +kernel

end LedgerClient.Instant
