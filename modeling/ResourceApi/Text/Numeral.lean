import ResourceApi.Double.Decimal

/-!
# Numerals

Readers for numbers given as text. An integer is an optional sign and at least one digit, in the
range of its type; a floating point number adds a fraction and an exponent. Nothing may stand
around a numeral.
-/

namespace ResourceApi.Text.Numeral

/-- The least signed 64-bit integer. -/
def minInt : Int := -0x8000000000000000

/-- The greatest signed 64-bit integer. -/
def maxInt : Int := 0x7fffffffffffffff

/-- The greatest unsigned 64-bit integer. -/
def maxNat : Nat := 0xffffffffffffffff

/-- The value of a digit. -/
def digitValue (c : Char) : Nat := c.toNat - '0'.toNat

/-- The value of a sequence of digits, continuing from `start`. -/
def valueFrom (start : Nat) (cs : List Char) : Nat :=
  cs.foldl (fun n c => 10 * n + digitValue c) start

/-- The value of a non-empty sequence of digits. -/
def natural? (cs : List Char) : Option Nat :=
  if cs.isEmpty || !cs.all Char.isDigit then none else some (valueFrom 0 cs)

/-- Takes an optional sign off: whether it is a minus, and the rest. -/
def takeSign : List Char → Bool × List Char
  | '-' :: rest => (true, rest)
  | '+' :: rest => (false, rest)
  | cs => (false, cs)

/-- A signed 64-bit integer. -/
def int? (s : String) : Option Int :=
  let (negative, digits) := takeSign s.toList
  match natural? digits with
  | none => none
  | some n =>
    let i : Int := if negative then -n else n
    if minInt ≤ i && i ≤ maxInt then some i else none

/-- An unsigned 64-bit integer; a plus sign is allowed, a minus sign is not. -/
def nat? (s : String) : Option Nat :=
  match takeSign s.toList with
  | (true, _) => none
  | (false, digits) => (natural? digits).filter (· ≤ maxNat)

/-- The exponent behind `e` or `E`, or zero where nothing is left. -/
def exponent? : List Char → Option Int
  | [] => some 0
  | e :: rest =>
    if e = 'e' ∨ e = 'E' then
      let (negative, digits) := takeSign rest
      (natural? digits).map fun n => if negative then -(n : Int) else n
    else none

/-- A numeral taken apart: its sign, the digits before and after the point, and its exponent. -/
structure Decimal where
  negative : Bool
  whole : List Char
  fraction : List Char
  exponent : Int
  deriving DecidableEq, Repr

/-- The parts of a floating point number. One side of the point may lack digits. -/
def decimal? (s : String) : Option Decimal :=
  let (negative, cs) := takeSign s.toList
  let whole := cs.takeWhile Char.isDigit
  let (fraction, rest) :=
    match cs.dropWhile Char.isDigit with
    | '.' :: rest => (rest.takeWhile Char.isDigit, rest.dropWhile Char.isDigit)
    | rest => ([], rest)
  if whole.isEmpty && fraction.isEmpty then none
  else (exponent? rest).map (⟨negative, whole, fraction, ·⟩)

/-- A finite floating point number, rounded once. -/
def float? (s : String) : Option Double :=
  (decimal? s).bind fun d =>
    let value := Double.ofDecimal d.negative (valueFrom 0 (d.whole ++ d.fraction))
      (d.exponent - d.fraction.length)
    if value.isFinite then some value else none

end ResourceApi.Text.Numeral
