import ResourceApi.Double.Decimal

/-!
# Pairs of floating point numbers

Two numbers, the second far smaller than the first, hold a value with about twice as many digits
as one of them does. A pair stands for the sum of its parts. `Pair.mul` rounds every step of the
product like a single number, and `Pair.scale` multiplies by a power of ten in steps of a
hundred, ten and one decimal places.

A product beyond the range of numbers is `none`.
-/

namespace ResourceApi

/-- A value as the sum of two numbers. -/
structure Pair where
  high : Double
  low : Double
  deriving DecidableEq, Repr

namespace Pair

/-- A number without the lower half of its significand, so that products of such numbers are
exact. -/
def upperHalf (d : Double) : Double := ⟨d.bits &&& 0xfffffffffc000000⟩

/-- The product of two pairs of finite numbers. The high parts are multiplied in halves, which leaves
what rounding took away; the low parts add to that. -/
def mul (x y : Pair) : Option Pair :=
  let xUpper := upperHalf x.high
  let xLower := x.high.sub xUpper
  let yUpper := upperHalf y.high
  let yLower := y.high.sub yUpper
  let outer := xUpper.mul yUpper
  let mixed := (xUpper.mul yLower).add (xLower.mul yUpper)
  let product := outer.add mixed
  let rest := (((outer.sub product).add mixed).add (xLower.mul yLower)).add
    ((x.high.mul y.low).add (x.low.mul y.high))
  let high := product.add rest
  if outer.isFinite && product.isFinite && high.isFinite then
    some ⟨high, (product.sub high).add rest⟩
  else none

/-- The number nearest to a pair. -/
def toDouble (x : Pair) : Double := x.high.add x.low

/-- A natural number as a pair. Past the largest 64-bit number that is a floating point number, what
rounding takes away is lost. -/
def ofNat (n : Nat) : Pair :=
  let high := Double.ofInt n
  let rounded := high.wholePart
  ⟨high, if rounded ≤ 0xfffffffffffff800 then .ofInt ((n : Int) - rounded) else .zero⟩

/-! ## Powers of ten -/

/-- A number of decimal places by which pairs are scaled in one step, with the pairs for the power of
ten and for its inverse. -/
structure Step where
  places : Nat
  up : Pair
  down : Pair

/-- A hundred places at a time. -/
def hundredPlaces : Step :=
  ⟨100, ⟨.ofDecimal false 1 100, .ofDecimal true 15902891109759918046 64⟩,
    ⟨.ofDecimal false 1 (-100), .ofDecimal true 199918998026028836196 (-137)⟩⟩

/-- Ten places at a time. -/
def tenPlaces : Step :=
  ⟨10, ⟨.ofDecimal false 1 10, .zero⟩,
    ⟨.ofDecimal false 1 (-10), .ofDecimal true 36432197315497741579 (-46)⟩⟩

/-- One place at a time. -/
def onePlace : Step :=
  ⟨1, ⟨.ofDecimal false 1 1, .zero⟩,
    ⟨.ofDecimal false 1 (-1), .ofDecimal true 55511151231257827021 (-37)⟩⟩

/-- Multiplies by a factor again and again. -/
def mulTimes (factor : Pair) : Nat → Pair → Option Pair
  | 0, x => some x
  | n + 1, x => (x.mul factor).bind (mulTimes factor n)

/-- Scales a pair by a power of ten. -/
def scale (x : Pair) (exponent : Int) : Option Pair := do
  let factor (s : Step) : Pair := if 0 ≤ exponent then s.up else s.down
  let places := exponent.natAbs
  let x ← mulTimes (factor hundredPlaces) (places / 100) x
  let x ← mulTimes (factor tenPlaces) (places % 100 / 10) x
  mulTimes (factor onePlace) (places % 10) x

end Pair

end ResourceApi
