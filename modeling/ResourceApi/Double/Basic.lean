/-!
# 64-bit floating point numbers

A `Double` is its sixty-four bits: a sign, an exponent field of eleven bits and a fraction of
fifty-two. A finite one denotes `±significand · 2 ^ exponent`, and arithmetic is exact rational
arithmetic followed by one rounding to the nearest representable number, ties to even.

For two non-negative numbers the order of the bits is the order of the values, so `rank`
compares without decoding.
-/

namespace ResourceApi

/-- A 64-bit floating point number, by its bits. -/
structure Double where
  bits : UInt64
  deriving DecidableEq, Repr, Inhabited

namespace Double

/-! ## Decoding -/

/-- The weight of the sign bit: `2 ^ 63`. -/
def signBit : Nat := 0x8000000000000000

/-- The weight of the leading bit of a significand: `2 ^ 52`. -/
def leadingBit : Nat := 0x10000000000000

/-- Whether the sign bit is set. -/
def isNegative (d : Double) : Bool := signBit ≤ d.bits.toNat

/-- The bits without the sign. -/
def magnitude (d : Double) : Nat := d.bits.toNat % signBit

/-- The magnitude of infinity; larger ones are not numbers. -/
def infinity : Nat := 2047 * leadingBit

/-- Neither infinite nor the result of an undefined operation. -/
def isFinite (d : Double) : Bool := d.magnitude < infinity

/-- Whether the number is zero, of either sign. -/
def isZero (d : Double) : Bool := d.magnitude == 0

/-- The integer that the power of two scales. The leading bit is implicit unless the exponent
field is zero. -/
def significand (d : Double) : Nat :=
  if d.magnitude < leadingBit then d.magnitude else d.magnitude % leadingBit + leadingBit

/-- The power of two that scales the significand. -/
def exponent (d : Double) : Int := max (d.magnitude / leadingBit : Nat) 1 - 1075

/-- The number with the given sign and bits. -/
def ofMagnitude (negative : Bool) (magnitude : Nat) : Double :=
  ⟨UInt64.ofNat (if negative then magnitude + signBit else magnitude)⟩

/-- Zero with a clear sign bit. -/
def zero : Double := ofMagnitude false 0

/-- The number with the opposite sign. -/
def neg (d : Double) : Double := ofMagnitude (!d.isNegative) d.magnitude

/-- The absolute value. -/
def abs (d : Double) : Double := ofMagnitude false d.magnitude

/-! ## Order -/

/-- Position of a number among the finite ones; both zeros share position `0`. -/
def rank (d : Double) : Int := if d.isNegative then -(d.magnitude : Int) else d.magnitude

/-- Numeric comparison. -/
def compare (a b : Double) : Ordering := Ord.compare a.rank b.rank

/-- Numeric equality: the two zeros are equal. -/
def same (a b : Double) : Bool := a.rank == b.rank

/-- Numeric order. -/
def lt (a b : Double) : Bool := a.rank < b.rank

/-! ## Rounding -/

/-- `num / den` rounded to the nearest integer, a half to the even neighbour. -/
def halfEven (num den : Nat) : Nat :=
  let quotient := num / den
  let rest := num % den
  if 2 * rest < den then quotient
  else if den < 2 * rest then quotient + 1
  else quotient + quotient % 2

/-- `num · 2 ^ (-shift) / den` as a fraction of natural numbers. -/
def shifted (num den : Nat) (shift : Int) : Nat × Nat :=
  if 0 ≤ shift then (num, den * Nat.pow 2 shift.toNat) else (num * Nat.pow 2 (-shift).toNat, den)

/-- The power of two whose multiples the quotient `num / den` is rounded to: the one that leaves
fifty-three significant bits, but never less than the smallest exponent. -/
def scaleOf (num den : Nat) : Int :=
  let low := max ((num.log2 : Int) - den.log2 - 53) (-1074)
  let (n, d) := shifted num den low
  if n / d < 2 * leadingBit then low else low + 1

/-- Magnitude of the number nearest to `num / den`. -/
def roundedMagnitude (num den : Nat) : Nat :=
  if num = 0 then 0
  else
    let scale := scaleOf num den
    let (n, d) := shifted num den scale
    min infinity ((scale + 1074).toNat * leadingBit + halfEven n d)

/-- The number nearest to `±num / den`. -/
def ofRatio (negative : Bool) (num den : Nat) : Double :=
  ofMagnitude negative (roundedMagnitude num den)

/-- The number nearest to an integer. -/
def ofInt (i : Int) : Double := ofRatio (i < 0) i.natAbs 1

/-- The absolute value as a fraction. -/
def ratio (d : Double) : Nat × Nat := shifted d.significand 1 (-d.exponent)

/-- The integer a number denotes, if it denotes one. -/
def toInt? (d : Double) : Option Int :=
  let (num, den) := d.ratio
  if d.isFinite && num % den == 0 then
    some (if d.isNegative then -(num / den : Nat) else (num / den : Nat))
  else none

/-- The fraction that a number denotes, its sign in the numerator. -/
def signedRatio (d : Double) : Int × Nat :=
  let (num, den) := d.ratio
  (if d.isNegative then -(num : Int) else num, den)

/-- Sum of two finite numbers. -/
def add (a b : Double) : Double :=
  let (n, d) := a.signedRatio
  let (n', d') := b.signedRatio
  let sum := n * d' + n' * d
  ofRatio (sum < 0 || (sum == 0 && a.isNegative && b.isNegative)) sum.natAbs (d * d')

/-- Difference of two finite numbers. -/
def sub (a b : Double) : Double := a.add b.neg

/-- The integer part of the absolute value. -/
def wholePart (d : Double) : Nat :=
  let (num, den) := d.ratio
  num / den

/-- Product of two finite numbers. -/
def mul (a b : Double) : Double :=
  let (n, d) := a.ratio
  let (n', d') := b.ratio
  ofRatio (a.isNegative != b.isNegative) (n * n') (d * d')

/-- Quotient of two finite numbers, the second not zero. -/
def div (a b : Double) : Double :=
  let (n, d) := a.ratio
  let (n', d') := b.ratio
  ofRatio (a.isNegative != b.isNegative) (n * d') (d * n')

/-- Comparison of an integer with a finite number, without rounding either. -/
def compareInt (i : Int) (d : Double) : Ordering :=
  let (num, den) := d.signedRatio
  Ord.compare (i * den) num

end Double

end ResourceApi
