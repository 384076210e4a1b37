import BoundSelect.Calendar.Date

/-!
# Instants

An instant is a number of whole seconds since the first moment of 1970 in universal time, and a
number of nanoseconds after that second. These may be those of two seconds, and then the instant is
within a leap second. It is written as date and time of day with `Z`, and with as few groups of
three decimals of a second as keep its value.
-/

set_option autoImplicit false

namespace BoundSelect

open Calendar

namespace Calendar

/-- The seconds of a day. -/
def daySeconds : Int := 86400

/-- The first second of a year, counted from the start of 1970. -/
def yearSecond (year : Int) : Int :=
  daySeconds * (yearStart year - yearStart 1970)

end Calendar

/-- An instant within the years covered. -/
structure Timestamp where
  seconds : Int
  nanos : Nat
  nanos_lt : nanos < 2000000000
  covered : yearSecond firstYear ≤ seconds ∧ seconds < yearSecond (lastYear + 1)
  deriving DecidableEq

namespace Timestamp

/-- The nanoseconds from the start of a year to the instant, negative before it. -/
def nanosSince (year : Int) (t : Timestamp) : Int :=
  (t.seconds - yearSecond year) * 1000000000 + t.nanos

/-- The decimals of a second: none, three, six or nine. -/
def fractionText (nanos : Nat) : List Char :=
  if nanos = 0 then []
  else if nanos % 1000000 = 0 then '.' :: padded 3 (nanos / 1000000)
  else if nanos % 1000 = 0 then '.' :: padded 6 (nanos / 1000)
  else '.' :: padded 9 nanos

/-- Date and time of day in universal time. -/
def text (t : Timestamp) : List Char :=
  let day := t.seconds / daySeconds + yearStart 1970
  let second := (t.seconds % daySeconds).toNat
  -- a leap second counts on within its minute, whose last second is then 60
  let leap := t.nanos / 1000000000
  let year := yearOf day
  let (month, rest) := monthOf (monthLengths (isLeap year)) (day - yearStart year).toNat
  dateText year (month + 1) (rest + 1) ++
    'T' :: padded 2 (second / 3600) ++ ':' :: padded 2 (second / 60 % 60) ++
    ':' :: padded 2 (second % 60 + leap) ++ fractionText (t.nanos % 1000000000) ++ ['Z']

end Timestamp

end BoundSelect
