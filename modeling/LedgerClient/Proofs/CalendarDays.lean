import LedgerClient.Time.Calendar
import Mathlib.Tactic.IntervalCases
import Mathlib.Tactic.Ring

/-! The calendar as it is taught: months have their lengths, and a year that four divides
has a day more unless it ends a century that four does not divide. The date of a day is
one that this calendar has, and the next day has the next date. -/

namespace LedgerClient.Date

def IsLeap (year : Int) : Prop := year % 4 = 0 ∧ (year % 100 ≠ 0 ∨ year % 400 = 0)

instance (year : Int) : Decidable (IsLeap year) := inferInstanceAs (Decidable (_ ∧ _))

def monthLengths (year : Int) : List Int :=
  [31, if IsLeap year then 29 else 28, 31, 30, 31, 30, 31, 31, 30, 31, 30, 31]

def monthLength (date : Date) : Int := (monthLengths date.year).getD (date.month.toNat - 1) 0

/-- Dates that the calendar has. -/
structure IsReal (date : Date) : Prop where
  month : 1 ≤ date.month ∧ date.month ≤ 12
  day : 1 ≤ date.day ∧ date.day ≤ date.monthLength

/-- The days of the years before a year, counted from the year 1. -/
def daysBefore (year : Int) : Int :=
  365 * (year - 1) + (year - 1) / 4 - (year - 1) / 100 + (year - 1) / 400

/-- The days from the start of 1970 to a date. -/
def count (date : Date) : Int :=
  daysBefore date.year - daysBefore 1970 + ((monthLengths date.year).take (date.month.toNat - 1)).sum + (date.day - 1)

def next (date : Date) : Date :=
  if date.day < date.monthLength then { date with day := date.day + 1 }
  else if date.month < 12 then { date with month := date.month + 1, day := 1 }
  else ⟨date.year + 1, 1, 1⟩

private theorem daysBefore_succ (year : Int) : daysBefore (year + 1) = daysBefore year + (monthLengths year).sum := by
  simp only [daysBefore, monthLengths, List.sum_cons, List.sum_nil]
  by_cases leap : IsLeap year
  all_goals
    simp only [leap, if_true, if_false]
    rw [IsLeap] at leap
    omega

private theorem daysBefore_add_one (year : Int) :
    daysBefore (year + 1) = daysBefore year + if IsLeap year then 366 else 365 := by
  rw [daysBefore_succ, monthLengths]
  split <;> rfl

private theorem daysBefore_mono {year other : Int} (early : year ≤ other) : daysBefore year ≤ daysBefore other := by
  rcases eq_or_lt_of_le early with rfl | early
  · exact le_rfl
  · simp only [daysBefore]
    omega

theorem IsReal.day_within {date : Date} (real : date.IsReal) : 1 ≤ date.day ∧ date.day ≤ 31 := by
  obtain ⟨year, month, day⟩ := date
  obtain ⟨⟨first, last⟩, start, within⟩ := real
  simp only [monthLength, monthLengths] at first last start within ⊢
  refine ⟨start, within.trans ?_⟩
  interval_cases month
  all_goals
    simp
    try split <;> decide

private theorem IsReal.next {date : Date} (real : date.IsReal) : date.next.IsReal := by
  obtain ⟨year, month, day⟩ := date
  obtain ⟨⟨first, last⟩, start, within⟩ := real
  dsimp only at first last start within
  rw [Date.next]
  split
  next inside =>
    dsimp only at inside
    refine ⟨⟨first, last⟩, ?_, ?_⟩
    · exact le_add_of_le_of_nonneg start (by decide)
    · exact inside
  next ends =>
    split
    next early =>
      dsimp only at early
      interval_cases month
      all_goals
        constructor
        all_goals simp [monthLength, monthLengths]
        try split <;> omega
    next => exact ⟨by simp, by simp [monthLength, monthLengths]⟩

private theorem count_next {date : Date} (real : date.IsReal) : date.next.count = date.count + 1 := by
  obtain ⟨year, month, day⟩ := date
  obtain ⟨⟨first, last⟩, _, within⟩ := real
  dsimp only at first last within
  rw [next]
  split
  next =>
    simp only [count]
    ring
  next ends =>
    have full : day = monthLength ⟨year, month, day⟩ := le_antisymm within (not_lt.mp ends)
    rw [full]
    dsimp only
    split
    next early =>
      interval_cases month
      all_goals
        simp [count, monthLength, monthLengths]
        ring
    next late =>
      obtain rfl : month = 12 := by omega
      simp [count, monthLength, daysBefore_succ]
      simp [monthLengths]
      ring

private theorem daysBefore_era (year era : Int) :
    daysBefore (year + era * 400) = daysBefore year + era * daysOfEra := by
  rw [daysBefore, daysBefore, daysOfEra]
  omega

private theorem isLeap_era (year era : Int) : IsLeap (year + era * 400) ↔ IsLeap year := by
  rw [IsLeap, IsLeap]
  omega

private theorem daysBefore_of_lt {year : Int} (within : 0 ≤ year ∧ year < 400) :
    daysBefore (year + 1) = 365 * year + year / 4 - year / 100 := by
  rw [daysBefore]
  omega

/-- The first two months belong to the year before. -/
theorem toDays_eq (date : Date) : date.toDays + daysToEpoch = if date.month ≤ 2
    then daysBefore date.year + ((153 * (date.month + 9) + 2) / 5 + date.day - 1)
    else daysBefore (date.year + 1) + ((153 * (date.month - 3) + 2) / 5 + date.day - 1) := by
  have days (year : Int) : daysBefore (year + 1) = year / 400 * daysOfEra +
      (year % 400 * 365 + year % 400 / 4 - year % 400 / 100) := by
    have same : year + 1 = year % 400 + 1 + year / 400 * 400 := by omega
    rw [same, daysBefore_era, daysBefore_of_lt (by omega)]
    ring
  have before := days (date.year - 1)
  rw [sub_add_cancel] at before
  rw [toDays]
  by_cases winter : date.month ≤ 2
  · simp only [winter, if_true, before]
    ring
  · simp only [winter, if_false, days]
    ring

private theorem toDays_eq_count {date : Date} (real : date.IsReal) : date.toDays = date.count := by
  obtain ⟨year, month, day⟩ := date
  obtain ⟨⟨first, last⟩, _, _⟩ := real
  dsimp only at first last
  have whole := daysBefore_succ year
  have counted := toDays_eq ⟨year, month, day⟩
  have epoch : daysBefore 1970 = 719162 := by decide
  rw [daysToEpoch] at counted
  interval_cases month
  all_goals
    simp [count, epoch, monthLengths] at whole counted ⊢
    omega

/-- The years of an era have their days one after the other. -/
theorem yearOfEra_bounds {day : Int} (within : 0 ≤ day ∧ day < daysOfEra) :
    let year := (day - day / 1460 + day / 36524 - day / 146096) / 365
    (0 ≤ year ∧ year < 400) ∧ daysBefore (year + 1) ≤ day ∧ day < daysBefore (year + 1 + 1) := by
  intro year
  rw [daysOfEra] at within
  have first : 0 ≤ year := by omega
  have last : year < 400 := by omega
  rw [daysBefore_of_lt ⟨first, last⟩, daysBefore]
  have leaps : year / 4 ≤ day / 1460 ∧ day / 1460 ≤ (year + 1) / 4 := by omega
  have centuries : day / 36524 - day / 146096 ≤ year / 100 := by omega
  refine ⟨⟨first, last⟩, by omega, ?_⟩
  rw [Int.add_sub_cancel]
  have century : (year + 1) / 100 = 0 ∨ (year + 1) / 100 = 1 ∨ (year + 1) / 100 = 2 ∨ (year + 1) / 100 = 3 ∨
      (year + 1) / 100 = 4 := by omega
  by_cases full : (year + 1) % 100 = 0
  · rcases century with same | same | same | same | same
    all_goals omega
  · have same : (year + 1) / 100 ≤ day / 36524 - day / 146096 := by
      rcases century with same | same | same | same | same
      all_goals omega
    omega

/-- The date of a day of a year that begins with March. -/
def ofMarch (year day : Int) : Date :=
  let month := (5 * day + 2) / 153
  if month < 10 then ⟨year, month + 3, day - (153 * month + 2) / 5 + 1⟩
  else ⟨year + 1, month - 9, day - (153 * month + 2) / 5 + 1⟩

/-- A date falls on a day if the year that has begun with the March before has both. -/
def FallsOn (date : Date) (days : Int) : Prop :=
  ∃ year day, 0 ≤ day ∧ day < (if IsLeap (year + 1) then 366 else 365) ∧
    days + daysToEpoch = daysBefore (year + 1) + day ∧ date = ofMarch year day

private theorem FallsOn.isReal {date : Date} {days : Int} (falls : date.FallsOn days) : date.IsReal := by
  obtain ⟨year, day, first, last, _, rfl⟩ := falls
  rw [ofMarch]
  generalize same : (5 * day + 2) / 153 = month
  have months : 0 ≤ month ∧ month ≤ 11 := by
    split at last
    all_goals omega
  obtain ⟨low, high⟩ := months
  by_cases leap : IsLeap (year + 1)
  all_goals
    simp only [leap, if_true, if_false] at last
    interval_cases month
    all_goals
      constructor
      all_goals
        simp [monthLength, monthLengths, leap]
        try omega

private theorem FallsOn.toDays {date : Date} {days : Int} (falls : date.FallsOn days) : date.toDays = days := by
  obtain ⟨year, day, first, last, same, rfl⟩ := falls
  have counted := toDays_eq (ofMarch year day)
  have within : day < 366 := by
    split at last
    all_goals omega
  rw [ofMarch] at counted ⊢
  split at counted
  next early =>
    rw [if_pos early]
    dsimp only at counted ⊢
    rw [if_neg (by omega)] at counted
    omega
  next late =>
    rw [if_neg late]
    dsimp only at counted ⊢
    rw [if_pos (by omega)] at counted
    omega

private theorem FallsOn.unique {date other : Date} {days : Int} (falls : date.FallsOn days)
    (falls' : other.FallsOn days) :
    date = other := by
  obtain ⟨year, day, first, last, same, rfl⟩ := falls
  obtain ⟨year', day', first', last', same', rfl⟩ := falls'
  have years : year = year' := by
    rcases lt_trichotomy year year' with before | same | after
    · have ordered := daysBefore_mono (show year + 1 + 1 ≤ year' + 1 by omega)
      rw [daysBefore_add_one] at ordered
      omega
    · exact same
    · have ordered := daysBefore_mono (show year' + 1 + 1 ≤ year + 1 by omega)
      rw [daysBefore_add_one] at ordered
      omega
  subst years
  have days : day = day' := by omega
  rw [days]

private theorem ofDays_eq_ofMarch {days year day dayOfEra yearOfEra : Int}
    (era : (days + daysToEpoch) % daysOfEra = dayOfEra)
    (whole : (dayOfEra - dayOfEra / 1460 + dayOfEra / 36524 - dayOfEra / 146096) / 365 = yearOfEra)
    (sameYear : year = yearOfEra + (days + daysToEpoch) / daysOfEra * 400)
    (sameDay : day = dayOfEra - (365 * yearOfEra + yearOfEra / 4 - yearOfEra / 100)) (within : 0 ≤ day ∧ day < 366) :
    ofDays days = ofMarch year day := by
  have found : ofDays days =
      let month := if (5 * day + 2) / 153 < 10 then (5 * day + 2) / 153 + 3 else (5 * day + 2) / 153 - 9
      ⟨if month ≤ 2 then year + 1 else year, month, day - (153 * ((5 * day + 2) / 153) + 2) / 5 + 1⟩ := by
    subst sameYear sameDay whole era
    rfl
  rw [found, ofMarch]
  by_cases early : (5 * day + 2) / 153 < 10
  · have spring : ¬(5 * day + 2) / 153 + 3 ≤ 2 := by omega
    simp only [early, spring, if_true, if_false]
  · have winter : (5 * day + 2) / 153 - 9 ≤ 2 := by omega
    simp only [early, winter, if_true, if_false]

private theorem fallsOn_ofDays (days : Int) : (ofDays days).FallsOn days := by
  have within : 0 ≤ (days + daysToEpoch) % daysOfEra ∧ (days + daysToEpoch) % daysOfEra < daysOfEra := by
    rw [daysOfEra]
    omega
  have whole : (days + daysToEpoch) / daysOfEra * daysOfEra + (days + daysToEpoch) % daysOfEra = days + daysToEpoch :=
    Int.ediv_mul_add_emod _ _
  have found := @ofDays_eq_ofMarch days
  obtain ⟨years, low, high⟩ := yearOfEra_bounds within
  generalize (days + daysToEpoch) / daysOfEra = era, (days + daysToEpoch) % daysOfEra = dayOfEra at *
  generalize reckoned : (dayOfEra - dayOfEra / 1460 + dayOfEra / 36524 - dayOfEra / 146096) / 365 = yearOfEra at *
  have length : daysBefore (yearOfEra + 1 + 1) = daysBefore (yearOfEra + 1) +
      if IsLeap (yearOfEra + era * 400 + 1) then 366 else 365 := by
    simp only [daysBefore_add_one, add_right_comm, isLeap_era]
  have before : daysBefore (yearOfEra + era * 400 + 1) = daysBefore (yearOfEra + 1) + era * daysOfEra := by
    rw [add_right_comm, daysBefore_era]
  refine ⟨yearOfEra + era * 400, dayOfEra - daysBefore (yearOfEra + 1), by omega, by omega, by omega, ?_⟩
  refine found rfl reckoned rfl (by rw [daysBefore_of_lt years]) ⟨by omega, ?_⟩
  split at length
  all_goals omega

private theorem ofMarch_of_month {year month day : Int}
    (found : (5 * ((153 * month + 2) / 5 + day - 1) + 2) / 153 = month) :
    ofMarch year ((153 * month + 2) / 5 + day - 1) =
      if month < 10 then ⟨year, month + 3, day⟩ else ⟨year + 1, month - 9, day⟩ := by
  have same : (153 * month + 2) / 5 + day - 1 - (153 * month + 2) / 5 + 1 = day := by ring
  simp only [ofMarch, found, same]

private theorem IsReal.fallsOn {date : Date} (real : date.IsReal) : date.FallsOn date.toDays := by
  rw [FallsOn, toDays_eq]
  obtain ⟨year, month, day⟩ := date
  obtain ⟨⟨first, last⟩, start, within⟩ := real
  dsimp only at first last start within ⊢
  simp only [monthLength, monthLengths] at within
  rcases lt_or_ge 2 month with spring | winter
  · have found : (5 * ((153 * (month - 3) + 2) / 5 + day - 1) + 2) / 153 = month - 3 ∧
        (153 * (month - 3) + 2) / 5 + day - 1 < 365 := by
      interval_cases month
      all_goals
        simp at within ⊢
        omega
    rw [if_neg (by omega)]
    refine ⟨year, _, by omega, ?_, rfl, ?_⟩
    · split
      all_goals omega
    · rw [ofMarch_of_month found.1, if_pos (by omega), sub_add_cancel]
  · have found : (5 * ((153 * (month + 9) + 2) / 5 + day - 1) + 2) / 153 = month + 9 ∧
        (153 * (month + 9) + 2) / 5 + day - 1 < if IsLeap year then 366 else 365 := by
      split
      all_goals
        interval_cases month
        all_goals
          simp [*] at within ⊢
          omega
    rw [if_pos winter]
    refine ⟨year - 1, (153 * (month + 9) + 2) / 5 + day - 1, by omega, ?_, by rw [sub_add_cancel], ?_⟩
    · rw [sub_add_cancel]
      exact found.2
    · rw [ofMarch_of_month found.1, if_neg (by omega), sub_add_cancel, add_sub_cancel_right]

theorem isReal_ofDays (days : Int) : (ofDays days).IsReal := (fallsOn_ofDays days).isReal

theorem count_ofDays (days : Int) : (ofDays days).count = days := by
  rw [← toDays_eq_count (isReal_ofDays days), (fallsOn_ofDays days).toDays]

private theorem ofDays_count {date : Date} (real : date.IsReal) : ofDays date.count = date := by
  have falls := real.fallsOn
  rw [toDays_eq_count real] at falls
  exact (fallsOn_ofDays date.count).unique falls

/-- The dates of days that follow each other follow each other. -/
theorem ofDays_succ (days : Int) : ofDays (days + 1) = (ofDays days).next := by
  have real := isReal_ofDays days
  rw [← ofDays_count real.next, count_next real, count_ofDays]

example : ofDays 0 = ⟨1970, 1, 1⟩ := by decide

private theorem IsReal.count_within {date : Date} (real : date.IsReal) :
    daysBefore date.year ≤ date.count + daysBefore 1970 ∧
    date.count + daysBefore 1970 < daysBefore (date.year + 1) := by
  rw [daysBefore_succ, count]
  obtain ⟨year, month, day⟩ := date
  obtain ⟨⟨first, last⟩, start, within⟩ := real
  simp only [monthLength, monthLengths] at first last start within ⊢
  by_cases leap : IsLeap year
  all_goals
    simp only [leap, if_true, if_false] at within ⊢
    interval_cases month
    all_goals
      simp at within ⊢
      omega

/-- The dates of a number of years are the days from the start of the first to the end of the last. -/
theorem IsReal.year_within {date : Date} (real : date.IsReal) {first last : Int} :
    first ≤ date.year ∧ date.year < last ↔ count ⟨first, 1, 1⟩ ≤ date.count ∧ date.count < count ⟨last, 1, 1⟩ := by
  have within := real.count_within
  have start (year : Int) : count ⟨year, 1, 1⟩ = daysBefore year - daysBefore 1970 := by
    simp [count]
  rw [start, start]
  constructor
  · rintro ⟨early, late⟩
    have low := daysBefore_mono early
    have high := daysBefore_mono (show date.year + 1 ≤ last by omega)
    omega
  · rintro ⟨low, high⟩
    constructor
    · by_contra before
      have low' := daysBefore_mono (show date.year + 1 ≤ first by omega)
      omega
    · by_contra after
      have high' := daysBefore_mono (show last ≤ date.year by omega)
      omega

end LedgerClient.Date
