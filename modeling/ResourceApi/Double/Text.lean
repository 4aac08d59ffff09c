import ResourceApi.Double.Decimal

/-!
# Written forms of floating point numbers

Three layouts of digits. `plain` never uses an exponent and marks no whole number; `compact` is
the form of JSON text, positional between `10⁻⁵` and `10¹⁶`; `general` has a point in every number.
-/

namespace ResourceApi.Double

/-- Writes digits positionally: integer part, point, fraction. `whole` follows the integer part
when there is no fraction. -/
def positional (digits : Digits) (whole : String) : String :=
  let ds := digits.toList
  if digits.point ≤ 0 then
    "0." ++ String.ofList (List.replicate (-digits.point).toNat '0' ++ ds)
  else
    let point := digits.point.toNat
    if digits.count ≤ point then
      String.ofList (ds ++ List.replicate (point - digits.count) '0') ++ whole
    else String.ofList (ds.take point) ++ "." ++ String.ofList (ds.drop point)

/-- Writes one digit before the point and the others behind it; `whole` stands for an empty
fraction. -/
def scientific (digits : Digits) (whole : String) : String :=
  match digits.toList with
  | [] => ""
  | [first] => String.ofList [first] ++ whole
  | first :: rest => String.ofList [first] ++ "." ++ String.ofList rest

/-- The sign as written. -/
def signText (d : Double) : String := if d.isNegative then "-" else ""

/-- Shortest digits, never an exponent, no mark on whole numbers. -/
def plain (d : Double) : String :=
  d.signText ++ if d.isZero then "0" else positional d.shortest ""

/-- Shortest digits, with a signed exponent outside `10⁻⁵ … 10¹⁶`; whole numbers end in `.0`. -/
def compact (d : Double) : String :=
  d.signText ++
    if d.isZero then "0.0"
    else
      let digits := d.shortest
      if -5 < digits.point ∧ digits.point ≤ 16 then positional digits ".0"
      else
        scientific digits "" ++ (if digits.point ≤ 0 then "e" else "e+") ++ toString (digits.point - 1)

/-- Digits with a signed exponent of at least two digits outside `10⁻⁴ … 10¹⁵`; every form has a
point and a digit behind it. -/
def general (digits : Digits) : String :=
  let exponent := digits.point - 1
  if exponent < -4 ∨ 14 < exponent then
    let written := toString exponent.natAbs
    scientific digits ".0" ++ "e" ++ (if exponent < 0 then "-" else "+")
      ++ (if written.length < 2 then "0" else "") ++ written
  else positional digits ".0"

end ResourceApi.Double
