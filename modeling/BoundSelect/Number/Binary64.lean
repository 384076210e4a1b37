import BoundSelect.Number.Rounding

/-!
# Double precision numbers as words

A number is kept as its 64 bits, so that every bit of a NaN survives, and compared by the rules of
floating point: a NaN equals nothing, and the two zeros are equal.
-/

set_option autoImplicit false

namespace BoundSelect

open Number

/-- A double precision number. -/
structure Binary64 where
  bits : UInt64
  deriving DecidableEq

namespace Binary64

/-- The number with these bits. -/
def ofBits (bits : Nat) : Binary64 := ⟨UInt64.ofNat bits⟩

/-- Whether the sign is set. -/
def negative (x : Binary64) : Bool :=
  BinaryFormat.binary64.negative x.bits.toNat

/-- The bits without the sign. -/
def magnitude (x : Binary64) : Nat :=
  BinaryFormat.binary64.magnitude x.bits.toNat

/-- Whether the word stands for no number. -/
def isNaN (x : Binary64) : Bool :=
  BinaryFormat.binary64.infinityBits < x.magnitude

/-- Whether the number is neither infinite nor a NaN. -/
def isFinite (x : Binary64) : Bool :=
  x.magnitude < BinaryFormat.binary64.infinityBits

/-- Equality of numbers: no NaN equals anything, and zero has two words. -/
def same (x y : Binary64) : Bool :=
  !x.isNaN && !y.isNaN && (x.bits == y.bits || x.magnitude == 0 && y.magnitude == 0)

/-- A number with the sign and the magnitude given. -/
def signed (negative : Bool) (magnitude : Nat) : Binary64 :=
  ofBits (if negative then BinaryFormat.binary64.signBit + magnitude else magnitude)

/-- The number nearest to a fraction of natural numbers, with a sign. -/
def ofRatio (negative : Bool) (num den : Nat) : Binary64 :=
  signed negative (BinaryFormat.binary64.nearest num den)

/-- The numerator of the magnitude over `2 ^ 1074`. -/
def units (x : Binary64) : Nat :=
  BinaryFormat.binary64.units x.bits.toNat

/-! ## Single precision -/

/-- The weight of the lowest fraction bit of single precision, in double precision. -/
def narrowing : Nat :=
  BinaryFormat.binary64.fractionBits - BinaryFormat.binary32.fractionBits

/-- The double with the value of a single. A NaN keeps its sign and payload and is made quiet. -/
def ofSingle (bits : UInt32) : Binary64 :=
  let f := BinaryFormat.binary32
  let b := bits.toNat
  if f.magnitude b < f.infinityBits then ofRatio (f.negative b) (f.units b) (twoTo f.depth)
  else if f.magnitude b = f.infinityBits then
    signed (f.negative b) BinaryFormat.binary64.infinityBits
  else
    -- the payload moves to the top of the wider fraction, whose first bit makes the NaN quiet
    signed (f.negative b) (BinaryFormat.binary64.infinityBits +
      (f.fraction b ||| twoTo (f.fractionBits - 1)) * twoTo narrowing)

/-- The single nearest to a double; what is too large becomes infinity. A NaN keeps its sign and the
upper part of its payload and is made quiet. -/
def toSingle (x : Binary64) : UInt32 :=
  let f := BinaryFormat.binary32
  let m :=
    if x.isFinite then f.nearest x.units (twoTo BinaryFormat.binary64.depth)
    else if x.isNaN then
      f.infinityBits + (BinaryFormat.binary64.fraction x.bits.toNat / twoTo narrowing |||
        twoTo (f.fractionBits - 1))
    else f.infinityBits
  UInt32.ofNat (if x.negative then f.signBit + m else m)

end Binary64

end BoundSelect
