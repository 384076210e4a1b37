import BoundSelect.Number.Binary64

/-!
# The shortest decimal that reads back

A finite number is written with the fewest digits that still round to it; among those of the same
length the nearest is taken, and of two equally near ones the even one. The search goes through the
decimal grids of one digit, two digits and so on, and on each grid only the two neighbours of the
number have to be looked at.
-/

set_option autoImplicit false

namespace BoundSelect.Number

/-- A decimal number: `digits` times ten to the `power`. -/
structure Decimal where
  digits : Nat
  power : Int
  deriving DecidableEq

/-- The magnitudes that round to one number, as numerators over a common denominator. Two numbers
share an end of their ranges, and it belongs to the one with the even significand. -/
structure RoundingRange where
  low : Nat
  value : Nat
  high : Nat
  den : Nat
  closed : Bool

/-- The range of a positive finite number, over `2 ^ 1076`. Below a power of two the numbers lie
half as far apart as above it. -/
def RoundingRange.of (x : Binary64) : RoundingRange :=
  let f := BinaryFormat.binary64
  let b := x.bits.toNat
  let step := twoTo (f.scale b)
  -- halves of the distances to both neighbours, in quarters of the smallest unit
  let below := if f.fraction b = 0 ∧ 1 < f.exponent b then step else 2 * step
  { low := 4 * x.units - below
    value := 4 * x.units
    high := 4 * x.units + 2 * step
    den := twoTo (f.depth + 2)
    closed := f.significand b % 2 = 0 }

namespace RoundingRange

/-- Whether a magnitude, over the same denominator, rounds to the number. -/
def holds (r : RoundingRange) (n : Nat) : Bool :=
  if r.closed then r.low ≤ n && n ≤ r.high else r.low < n && n < r.high

/-- The range in units of ten to the `power`: after this a multiple of the grid is a multiple of
the denominator. -/
def onGrid (r : RoundingRange) (power : Int) : RoundingRange :=
  match power with
  | .ofNat p => { r with den := r.den * tenTo p }
  | .negSucc p =>
    { r with
      low := r.low * tenTo (p + 1)
      value := r.value * tenTo (p + 1)
      high := r.high * tenTo (p + 1) }

/-- The multiple of the denominator that rounds to the number, if one of the two around it does. -/
def neighbour? (r : RoundingRange) : Option Nat :=
  let below := r.value / r.den
  match r.holds (below * r.den), r.holds ((below + 1) * r.den) with
  | true, true => some (roundDiv r.value r.den)
  | true, false => some below
  | false, true => some (below + 1)
  | false, false => none

/-- The power of ten of the first digit. No positive number is below `10 ^ -324`, so the count of
digits over that power tells it. -/
def leadingPower (r : RoundingRange) : Int :=
  ((Nat.toDigits 10 (r.value * tenTo 324 / r.den)).length : Int) - 325

/-- The first grid with a hit, from `power` downwards. -/
def search (r : RoundingRange) (power : Int) : Nat → Decimal
  | 0 => ⟨roundDiv (r.onGrid power).value (r.onGrid power).den, power⟩
  | more + 1 =>
    match (r.onGrid power).neighbour? with
    | some d => ⟨d, power⟩
    | none => r.search (power - 1) more

end RoundingRange

/-- The shortest decimal of a positive finite number. Seventeen digits always suffice. -/
def shortest (x : Binary64) : Decimal :=
  let r := RoundingRange.of x
  r.search r.leadingPower 17

/-! ## Layout -/

/-- How a decimal is laid out. With the point before the first digit and a power `p` of ten behind,
it is written positionally for `leastPoint ≤ p ≤ mostPoint`, and otherwise with one digit before
the point and an exponent with a sign. -/
structure DecimalLayout where
  leastPoint : Int
  mostPoint : Int
  mark : Char

namespace DecimalLayout

/-- Digits without the zeros at their end, and the power of ten in front of the first digit. -/
def normal (d : Decimal) : List Char × Int :=
  let cs := Nat.toDigits 10 d.digits
  ((cs.reverse.dropWhile (· == '0')).reverse, d.power + cs.length)

/-- The text of a positive decimal. A number written positionally always has a fraction. -/
def text (l : DecimalLayout) (d : Decimal) : List Char :=
  let (ds, point) := normal d
  if l.leastPoint ≤ point ∧ point ≤ l.mostPoint then
    if point ≤ 0 then
      '0' :: '.' :: (List.replicate (-point).toNat '0' ++ ds)
    else if (ds.length : Int) ≤ point then
      ds ++ List.replicate (point.toNat - ds.length) '0' ++ ['.', '0']
    else ds.take point.toNat ++ '.' :: ds.drop point.toNat
  else
    let rest := ds.drop 1
    ds.take 1 ++ (if rest = [] then [] else '.' :: rest) ++
      l.mark :: (if point - 1 < 0 then '-' else '+') :: Nat.toDigits 10 (point - 1).natAbs

end DecimalLayout

end BoundSelect.Number
