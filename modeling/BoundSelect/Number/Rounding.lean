/-!
# Rounding a fraction to a binary format

A binary floating-point format keeps a sign, an exponent and a fraction in fields of fixed width.
All its finite numbers are whole multiples of one smallest unit, so a magnitude is the natural
number of these units, and rounding to the format is rounding of natural fractions: nothing here
depends on a machine's arithmetic.
-/

set_option autoImplicit false

namespace BoundSelect.Number

/-- A power of two. -/
def twoTo (n : Nat) : Nat := Nat.pow 2 n

/-- A power of ten. -/
def tenTo (n : Nat) : Nat := Nat.pow 10 n

/-- The whole number nearest to `num / den`; of two that are equally near, the even one. -/
def roundDiv (num den : Nat) : Nat :=
  let whole := num / den
  let rest := num % den
  if 2 * rest < den then whole
  else if den < 2 * rest then whole + 1
  else whole + whole % 2

/-- The widths of the fields of a binary format. -/
structure BinaryFormat where
  fractionBits : Nat
  exponentBits : Nat
  deriving DecidableEq

namespace BinaryFormat

/-- The format of single precision. -/
def binary32 : BinaryFormat := ⟨23, 8⟩

/-- The format of double precision. -/
def binary64 : BinaryFormat := ⟨52, 11⟩

variable (f : BinaryFormat)

/-- The smallest positive number is two to the minus this. -/
def depth : Nat :=
  twoTo (f.exponentBits - 1) + f.fractionBits - 2

/-- The bits of infinity, which are also the first bits that stand for no finite magnitude. -/
def infinityBits : Nat :=
  (twoTo f.exponentBits - 1) * twoTo f.fractionBits

/-- The weight of the sign. -/
def signBit : Nat :=
  twoTo (f.fractionBits + f.exponentBits)

/-- Whether the sign is set. -/
def negative (bits : Nat) : Bool :=
  f.signBit ≤ bits

/-- The bits without the sign. -/
def magnitude (bits : Nat) : Nat :=
  bits % f.signBit

/-- The fraction field. -/
def fraction (bits : Nat) : Nat :=
  bits % twoTo f.fractionBits

/-- The exponent field. -/
def exponent (bits : Nat) : Nat :=
  f.magnitude bits / twoTo f.fractionBits

/-- The fraction with its leading one, which the numbers of the lowest exponent do not have. -/
def significand (bits : Nat) : Nat :=
  if f.exponent bits = 0 then f.fraction bits else twoTo f.fractionBits + f.fraction bits

/-- How many binary places the significand stands above the smallest unit. -/
def scale (bits : Nat) : Nat :=
  f.exponent bits - 1

/-- The magnitude of a finite number, counted in smallest units. -/
def units (bits : Nat) : Nat :=
  f.significand bits * twoTo (f.scale bits)

/-- The bits of the format's number nearest to `num / den`, ties to an even significand; what is too
large becomes infinity. A significand that rounds up to the next power of two carries into the
exponent by itself, because the fields lie side by side. -/
def nearest (num den : Nat) : Nat :=
  let top := num * twoTo f.depth
  -- below the normal numbers the difference is cut off at zero, which is the lowest exponent
  let shift := (top / den).log2 - f.fractionBits
  min (shift * twoTo f.fractionBits + roundDiv top (den * twoTo shift)) f.infinityBits

end BinaryFormat

end BoundSelect.Number
