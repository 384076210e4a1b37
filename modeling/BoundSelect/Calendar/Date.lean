/-!
# Days of the Gregorian calendar

The calendar is extended over all years, backwards too. Days are numbered from the first of January
of the year 1, which makes the leap day the last day of every cycle of years: a fourth year, a
hundredth, a four-hundredth. A date knows that it exists.
-/

set_option autoImplicit false

namespace BoundSelect

namespace Calendar

/-! ## Years and months -/

/-- Whether a year has a leap day. -/
def isLeap (year : Int) : Bool :=
  year % 4 = 0 && (year % 100 ≠ 0 || year % 400 = 0)

/-- The lengths of the months. -/
def monthLengths (leap : Bool) : List Nat :=
  [31, if leap then 29 else 28, 31, 30, 31, 30, 31, 31, 30, 31, 30, 31]

/-- The length of a month, which counts from one; zero where there is no such month. -/
def monthLength (year : Int) (month : Nat) : Nat :=
  if month = 0 then 0 else ((monthLengths (isLeap year))[month - 1]?).getD 0

/-- The number of the first day of a year. -/
def yearStart (year : Int) : Int :=
  365 * (year - 1) + (year - 1) / 4 - (year - 1) / 100 + (year - 1) / 400

/-- The year that a day falls in: so many cycles of 400 years, of 100, of 4, and single years. The
last of the hundreds and the last of the single years are a day longer than the others. -/
def yearOf (day : Int) : Int :=
  let r := day % 146097
  -- the last day of the four hundredth year would begin a fifth hundred
  let c := min (r / 36524) 3
  let r := r - 36524 * c
  let q := r / 1461
  let r := r - 1461 * q
  400 * (day / 146097) + 100 * c + 4 * q + min (r / 365) 3 + 1

/-- The number of whole months before a day of a year, and the days left over. -/
def monthOf : List Nat → Nat → Nat × Nat
  | [], d => (0, d)
  | l :: ls, d => if d < l then (0, d) else ((monthOf ls (d - l)).1 + 1, (monthOf ls (d - l)).2)

/-- The days of the first months, so many of them. -/
def daysBefore : List Nat → Nat → Nat
  | l :: ls, m + 1 => l + daysBefore ls m
  | _, _ => 0

/-- The first year that dates and times cover. -/
def firstYear : Int := -262143

/-- The last year that dates and times cover. -/
def lastYear : Int := 262142

/-- Whether there is such a day, within the years covered. -/
def IsDay (year : Int) (month day : Nat) : Prop :=
  (firstYear ≤ year ∧ year ≤ lastYear) ∧ 1 ≤ day ∧ day ≤ monthLength year month

instance (year : Int) (month day : Nat) : Decidable (IsDay year month day) :=
  inferInstanceAs (Decidable (_ ∧ _))

/-! ## Text -/

/-- A number with at least so many digits. -/
def padded (width n : Nat) : List Char :=
  let ds := Nat.toDigits 10 n
  List.replicate (width - ds.length) '0' ++ ds

/-- A year has at least four digits, and a sign unless it is one of the years 0 to 9999. -/
def yearText (year : Int) : List Char :=
  if year < 0 then '-' :: padded 4 year.natAbs
  else if 9999 < year then '+' :: padded 4 year.natAbs
  else padded 4 year.natAbs

/-- Year, month and day with hyphens between them. -/
def dateText (year : Int) (month day : Nat) : List Char :=
  yearText year ++ '-' :: padded 2 month ++ '-' :: padded 2 day

end Calendar

open Calendar

/-- A day of the calendar. -/
structure Date where
  year : Int
  month : Nat
  day : Nat
  is_day : IsDay year month day
  deriving DecidableEq

namespace Date

/-- The date with these parts, if there is one. -/
def ofParts? (year : Int) (month day : Nat) : Option Date :=
  if h : IsDay year month day then some ⟨year, month, day, h⟩ else none

/-- The number of the day, with the first of January of the year 1 as day zero. -/
def dayNumber (d : Date) : Int :=
  yearStart d.year + daysBefore (monthLengths (isLeap d.year)) (d.month - 1) + (d.day - 1 : Nat)

/-- The written date. -/
def text (d : Date) : List Char :=
  dateText d.year d.month d.day

end Date

end BoundSelect
