import BoundSelect.Calendar.Timestamp

/-!
# Dates and their numbers

A date is given back by the number of its day: the year is found from the cycles of years
(`Calendar.yearOf_eq`), and month and day from the lengths of the months before
(`Calendar.monthOf_daysBefore`), so that `Date.ofDayNumber?` undoes `Date.dayNumber`.
-/

set_option autoImplicit false

namespace BoundSelect

namespace Calendar

/-! ## Years -/

/-- The number of days in a year. -/
def yearLength (year : Int) : Nat :=
  if isLeap year then 366 else 365

theorem yearStart_succ (year : Int) : yearStart (year + 1) = yearStart year + yearLength year := by
  unfold yearStart yearLength isLeap
  split <;> simp_all <;> omega

/-- A year is so many cycles of 400 years, of 100 and of 4, and single years. -/
theorem exists_cycles (year : Int) :
    ∃ a c q r : Int, (0 ≤ c ∧ c ≤ 3) ∧ (0 ≤ q ∧ q ≤ 24) ∧ (0 ≤ r ∧ r ≤ 3) ∧
      year = 400 * a + 100 * c + 4 * q + r + 1 :=
  ⟨(year - 1) / 400, (year - 1) % 400 / 100, (year - 1) % 100 / 4, (year - 1) % 4, by omega,
    by omega, by omega, by omega⟩

/-- The year of a day is the year between whose first day and the next year's the day is. -/
theorem yearOf_eq {year day : Int} (hstart : yearStart year ≤ day)
    (hend : day < yearStart (year + 1)) : yearOf day = year := by
  obtain ⟨a, c, q, r, hc, hq, hr, rfl⟩ := exists_cycles year
  have hfirst : yearStart (400 * a + 100 * c + 4 * q + r + 1) =
      146097 * a + 36524 * c + 1461 * q + 365 * r := by
    unfold yearStart
    omega
  -- the leap day is the last of a cycle of four years, unless it is the last of a hundred
  have hlength : day < 146097 * a + 36524 * c + 1461 * q + 365 * r + 365 +
      (if r = 3 ∧ (q ≠ 24 ∨ c = 3) then 1 else 0) := by
    unfold yearStart at hend
    split <;> omega
  rw [hfirst] at hstart
  have hcycle : day / 146097 = a ∧
      day % 146097 = day - 146097 * a := by
    split at hlength <;> omega
  have hhundred : min ((day - 146097 * a) / 36524) 3 = c := by
    split at hlength <;> omega
  have hfour : (day - 146097 * a - 36524 * c) / 1461 = q := by
    split at hlength <;> omega
  have hsingle : min ((day - 146097 * a - 36524 * c - 1461 * q) / 365) 3 = r := by
    split at hlength <;> omega
  unfold yearOf
  simp only [hcycle, hhundred, hfour, hsingle]

/-! ## Months -/

/-- The day within the month `m`, so many days after those of the months before. -/
theorem monthOf_daysBefore {ls : List Nat} {m d : Nat} (hm : m < ls.length) (hd : d < ls[m]) :
    monthOf ls (daysBefore ls m + d) = (m, d) := by
  induction ls generalizing m with
  | nil => cases hm
  | cons l ls ih =>
      cases m with
      | zero =>
          have hfirst : d < l := hd
          simp [monthOf, daysBefore, hfirst]
      | succ m =>
          have hrest := ih (Nat.lt_of_succ_lt_succ hm) hd
          have hafter : ¬ l + daysBefore ls m + d < l := by omega
          have hskip : l + daysBefore ls m + d - l = daysBefore ls m + d := by omega
          simp [monthOf, daysBefore, hafter, hskip, hrest]

theorem daysBefore_add_lt {ls : List Nat} {m d : Nat} (hm : m < ls.length) (hd : d < ls[m]) :
    daysBefore ls m + d < daysBefore ls ls.length := by
  induction ls generalizing m with
  | nil => cases hm
  | cons l ls ih =>
      rw [List.length_cons, daysBefore]
      cases m with
      | zero =>
          have hfirst : d < l := hd
          rw [daysBefore]
          · omega
          · simp
      | succ m =>
          have hrest := ih (Nat.lt_of_succ_lt_succ hm) hd
          rw [daysBefore]
          omega

theorem daysBefore_monthLengths (year : Int) :
    daysBefore (monthLengths (isLeap year)) (monthLengths (isLeap year)).length =
      yearLength year := by
  unfold yearLength
  cases isLeap year <;> rfl

/-- The month of a day is one of the twelve, and the day is within it. -/
theorem IsDay.lt_month {year : Int} {month day : Nat} (h : IsDay year month day) :
    ∃ hm : month - 1 < (monthLengths (isLeap year)).length,
      day - 1 < (monthLengths (isLeap year))[month - 1] ∧ month ≠ 0 ∧ day ≠ 0 := by
  obtain ⟨-, hday, hlength⟩ := h
  unfold monthLength at hlength
  split at hlength
  · omega
  · next hmonth =>
      by_cases hm : month - 1 < (monthLengths (isLeap year)).length
      · rw [List.getElem?_eq_getElem hm, Option.getD_some] at hlength
        exact ⟨hm, by omega, hmonth, by omega⟩
      · rw [List.getElem?_eq_none (by omega)] at hlength
        simp at hlength
        omega

end Calendar

namespace Date

open Calendar

/-- The days of the year before the date. -/
def dayOfYear (d : Date) : Nat :=
  daysBefore (monthLengths (isLeap d.year)) (d.month - 1) + (d.day - 1)

theorem dayNumber_eq (d : Date) : d.dayNumber = yearStart d.year + d.dayOfYear := by
  unfold dayNumber dayOfYear
  omega

theorem dayOfYear_lt (d : Date) : d.dayOfYear < yearLength d.year := by
  obtain ⟨hm, hd, -, -⟩ := d.is_day.lt_month
  have h := daysBefore_add_lt hm hd
  rwa [daysBefore_monthLengths] at h

/-- The date with the number, if it is covered. -/
def ofDayNumber? (n : Int) : Option Date :=
  let year := yearOf n
  let (month, rest) := monthOf (monthLengths (isLeap year)) (n - yearStart year).toNat
  ofParts? year (month + 1) (rest + 1)

/-- A date is given back by its number. -/
theorem ofDayNumber?_dayNumber (d : Date) : ofDayNumber? d.dayNumber = some d := by
  have hyear : yearOf d.dayNumber = d.year := by
    apply yearOf_eq
    · rw [dayNumber_eq]
      omega
    · rw [dayNumber_eq, yearStart_succ]
      have h := d.dayOfYear_lt
      omega
  have hrest : (d.dayNumber - yearStart d.year).toNat = d.dayOfYear := by
    rw [dayNumber_eq]
    omega
  obtain ⟨hm, hd, hmonth, hday⟩ := d.is_day.lt_month
  have hparts : monthOf (monthLengths (isLeap d.year)) d.dayOfYear = (d.month - 1, d.day - 1) :=
    monthOf_daysBefore hm hd
  have hmonth' : d.month - 1 + 1 = d.month := by omega
  have hday' : d.day - 1 + 1 = d.day := by omega
  simp only [ofDayNumber?, hyear, hrest, hparts, hmonth', hday', ofParts?]
  rw [dif_pos d.is_day]

/-- The numbers of all dates lie between the first day covered and the last. -/
theorem dayNumber_mem (d : Date) :
    yearStart firstYear ≤ d.dayNumber ∧ d.dayNumber < yearStart (lastYear + 1) := by
  obtain ⟨⟨hfirst, hlast⟩, -⟩ := d.is_day
  have hlt := d.dayOfYear_lt
  have hnext := yearStart_succ d.year
  rw [dayNumber_eq]
  unfold firstYear lastYear at *
  unfold yearStart at *
  omega

end Date

end BoundSelect
