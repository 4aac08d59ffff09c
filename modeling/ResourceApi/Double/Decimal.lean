import ResourceApi.Double.Basic

/-!
# Decimal digits of floating point numbers

Reading a decimal rounds it once to the nearest number. Writing chooses digits: `shortest` gives
the fewest that read back to the same number and, among those, the nearest.
-/

namespace ResourceApi

/-- The decimal `0.d₁d₂…dₙ · 10 ^ point`, with its digits as one integer and their count. -/
structure Digits where
  value : Nat
  count : Nat
  point : Int
  deriving DecidableEq, Repr

namespace Digits

/-- The digits, first one first, padded with zeros on the left to the count. -/
def toList (d : Digits) : List Char :=
  let written := Nat.toDigits 10 d.value
  List.replicate (d.count - written.length) '0' ++ written

/-- The same decimal without trailing zeros, keeping one digit. -/
def trim (d : Digits) : Digits :=
  go d.count d
where
  go : Nat → Digits → Digits
    | 0, d => d
    | fuel + 1, d =>
      if 1 < d.count ∧ d.value % 10 = 0 then
        go fuel { d with value := d.value / 10, count := d.count - 1 }
      else d

end Digits

namespace Double

/-- `10 ^ e` as a fraction. -/
def powerOfTen (e : Int) : Nat × Nat :=
  if 0 ≤ e then (Nat.pow 10 e.toNat, 1) else (1, Nat.pow 10 (-e).toNat)

/-- The number nearest to `±digits · 10 ^ exponent`. Decimals that are certainly too large or too
small for the format are settled without forming the power. -/
def ofDecimal (negative : Bool) (digits : Nat) (exponent : Int) : Double :=
  let size := (Nat.toDigits 10 digits).length + exponent
  if digits = 0 ∨ size < -400 then ofMagnitude negative 0
  else if 400 < size then ofMagnitude negative infinity
  else
    let (num, den) := powerOfTen exponent
    ofRatio negative (digits * num) den

/-- The least `k` with `num / den < 10 ^ k`, for a positive quotient. -/
def decimalPoint (num den : Nat) : Int :=
  let digits (n : Nat) : Int := (Nat.toDigits 10 n).length
  let guess := digits num - digits den
  let (pn, pd) := powerOfTen guess
  if num * pd < pn * den then guess else guess + 1

/-- The two ends of the interval of reals that round to a positive number, as fractions over one
denominator: lower end, upper end, denominator. -/
def roundingInterval (d : Double) : Nat × Nat × Nat :=
  let (num, den) := d.ratio
  let m := d.significand
  -- one unit of the significand is `num / m`
  let below := if m = leadingBit ∧ leadingBit < d.magnitude then 4 * m - 1 else 4 * m - 2
  (num * below, num * (4 * m + 2), den * (4 * m))

/-- Whether the decimal `value · 10 ^ exponent` rounds to `d`. The ends of the interval belong to
it when the significand is even. -/
def readsBack (d : Double) (value : Nat) (exponent : Int) : Bool :=
  let (low, high, den) := d.roundingInterval
  let (pn, pd) := powerOfTen exponent
  let x := value * pn * den
  if d.significand % 2 = 0 then low * pd ≤ x && x ≤ high * pd
  else low * pd < x && x < high * pd

/-- The digits of a rounded value. Rounding up may carry into a further digit; the last one is then a
zero and is dropped. -/
def carried (value count : Nat) (point : Int) : Digits :=
  if value = Nat.pow 10 count then ⟨Nat.pow 10 (count - 1), count, point + 1⟩
  else ⟨value, count, point⟩

/-- Digits of the grid of `count` significant digits that lie around `d` and read back to it: the
nearer of the two neighbours first, the even one on a tie. -/
def onGrid? (d : Double) (count : Nat) : Option Digits :=
  let (num, den) := d.ratio
  let point := decimalPoint num den
  let (pn, pd) := powerOfTen (point - count)
  let low := num * pd / (den * pn)
  let rounded := halfEven (num * pd) (den * pn)
  let other := if rounded = low then low + 1 else low
  let accepts (value : Nat) := d.readsBack value (point - count)
  if accepts rounded then some (carried rounded count point)
  else if accepts other then some (carried other count point)
  else none

/-- The fewest digits that read back to a positive finite number. Seventeen always suffice. -/
def shortest (d : Double) : Digits :=
  match (List.range 17).findSome? fun n => d.onGrid? (n + 1) with
  | some digits => digits.trim
  | none => ⟨0, 1, 0⟩

end Double

end ResourceApi
