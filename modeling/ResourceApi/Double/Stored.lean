import ResourceApi.Double.Pair
import ResourceApi.Double.Text
import ResourceApi.Text.Numeral

/-!
# Numbers in the texts of a table

A table turns texts into numbers and numbers into texts with pairs of floating point numbers
instead of exact arithmetic. The last bit of a number that is read, and the last of the fifteen
digits that are written, may therefore differ from the nearest ones.
-/

namespace ResourceApi.Double

open ResourceApi.Text.Numeral (digitValue)

/-! ## Reading -/

/-- A significand takes further digits as long as it is below this. -/
def fullSignificand : Nat := (0xffffffffffffffff - 9) / 10

/-- Takes digits into a significand until it is full, and counts the others. -/
def takeDigits (significand : Nat) : List Char → Nat × Nat
  | [] => (significand, 0)
  | c :: rest =>
    if significand < fullSignificand then takeDigits (10 * significand + digitValue c) rest
    else (significand, rest.length + 1)

/-- Moves places from a positive exponent into the significand as long as it stays below `2 ^ 64`, and
from a negative one as long as the significand ends in zeros. -/
def moveExponent : Nat → Nat → Int → Nat × Int
  | 0, significand, exponent => (significand, exponent)
  | fuel + 1, significand, exponent =>
    if 0 < exponent && significand < (0xffffffffffffffff - 0x7ff) / 10 then
      moveExponent fuel (significand * 10) (exponent - 1)
    else if exponent < 0 && significand % 10 == 0 then
      moveExponent fuel (significand / 10) (exponent + 1)
    else (significand, exponent)

/-- The number of a numeral: its digits before and after the point, and its exponent. Exponents past
ten thousand are not told apart. -/
def ofNumeral (negative : Bool) (whole fraction : List Char) (exponent : Int) : Double :=
  let (significand, skipped) := takeDigits 0 whole
  let (significand, unread) := takeDigits significand fraction
  let exponent := max (-10000) (min exponent 10000)
  let exponent := exponent + skipped - (fraction.length - unread : Nat)
  if significand = 0 then ofMagnitude negative 0
  else
    let (significand, exponent) := moveExponent 40 significand exponent
    let value := match (Pair.ofNat significand).scale exponent with
      | some x => x.toDouble.magnitude
      | none => infinity
    ofMagnitude negative value

/-! ## Writing -/

/-- Multiplies by a factor while a condition holds, and counts. -/
def mulWhile (condition : Double → Bool) (factor : Pair) : Nat → Pair → Pair × Nat
  | 0, x => (x, 0)
  | fuel + 1, x =>
    if condition x.high then
      match x.mul factor with
      | some product =>
        let (x, n) := mulWhile condition factor fuel product
        (x, n + 1)
      | none => (x, 0)
    else (x, 0)

/-- The bound of a step that makes a number of eighteen or nineteen digits before the point. -/
def bound (places : Int) : Double := ofDecimal false 9223372036854774784 places

/-- A positive finite number as a pair between about `10 ^ 17` and `10 ^ 19`, and the power of ten that
scales it back. -/
def normalized (d : Double) : Pair × Int :=
  let go (start : Pair × Int) (step : Pair.Step × Int) : Pair × Int :=
    let (x, exponent) := start
    let (s, places) := step
    if (bound 0).lt d then
      let (x, n) := mulWhile (bound places).lt s.down 16 x
      (x, exponent + n * s.places)
    else
      let (x, n) := mulWhile (·.lt (bound (-places - 1))) s.up 16 x
      (x, exponent - n * s.places)
  [(Pair.hundredPlaces, (100 : Int)), (Pair.tenPlaces, 10), (Pair.onePlace, 0)].foldl go
    (⟨d, .zero⟩, 0)

/-- The fifteen digits that are written for a positive finite number. -/
def storedDigits (d : Double) : Digits :=
  let (x, exponent) := normalized d
  let value := if x.low.isNegative then x.high.wholePart - x.low.wholePart
    else x.high.wholePart + x.low.wholePart
  let length := (Nat.toDigits 10 value).length
  let kept := (value / Nat.pow 10 (length - 16) + 5) / 10
  (carried kept 15 (length + exponent)).trim

/-- The text of a number. -/
def storedText (d : Double) : String :=
  if d.isZero then "0.0"
  else d.signText ++ if d.isFinite then general d.abs.storedDigits else "Inf"

end ResourceApi.Double
