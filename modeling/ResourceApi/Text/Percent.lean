import ResourceApi.Text.Utf8

/-!
# Percent-encoding

`%` and two hexadecimal digits stand for one byte; a `%` without two digits stands for itself.
The bytes of the whole text must then be well-formed UTF-8. In a query string `+` stands for a
space before anything else is decoded. `encode` escapes every byte that is not an unreserved
ASCII character.
-/

namespace ResourceApi.Text.Percent

/-- The value of a hexadecimal digit. -/
def hexValue? (b : UInt8) : Option UInt8 :=
  if 0x30 ≤ b && b ≤ 0x39 then some (b - 0x30)
  else if 0x41 ≤ b && b ≤ 0x46 then some (b - 0x37)
  else if 0x61 ≤ b && b ≤ 0x66 then some (b - 0x57)
  else none

/-- Replaces every escape by its byte. -/
def unescape : List UInt8 → List UInt8
  | [] => []
  | [a] => [a]
  | [a, b] => [a, b]
  | a :: b :: c :: rest =>
    match if a = 0x25 then (hexValue? b, hexValue? c) else (none, none) with
    | (some high, some low) => (high * 16 + low) :: unescape rest
    | _ => a :: unescape (b :: c :: rest)

/-- The decoded text, if its bytes are well formed. -/
def decode? (s : String) : Option String :=
  (Utf8.decode? (unescape (Utf8.encode s.toList))).map String.ofList

/-- The decoded text of a key or value of a query string. -/
def decodeForm? (s : String) : Option String :=
  decode? (s.map fun c => if c = '+' then ' ' else c)

/-- The upper case hexadecimal digit of a value below sixteen. -/
def hexDigit (value : UInt8) : Char :=
  Char.ofNat (if value < 10 then 0x30 + value.toNat else 0x37 + value.toNat)

/-- Letters, digits and `-`, `.`, `_`, `~` stand for themselves. -/
def isUnreserved (b : UInt8) : Bool :=
  (0x30 ≤ b && b ≤ 0x39) || (0x41 ≤ b && b ≤ 0x5A) || (0x61 ≤ b && b ≤ 0x7A)
    || b == 0x2D || b == 0x2E || b == 0x5F || b == 0x7E

/-- The written form of one byte. -/
def escape (b : UInt8) : List Char :=
  if isUnreserved b then [Char.ofNat b.toNat] else ['%', hexDigit (b / 16), hexDigit (b % 16)]

/-- The text with everything but unreserved characters escaped. -/
def encode (s : String) : String :=
  String.ofList ((Utf8.encode s.toList).flatMap escape)

end ResourceApi.Text.Percent
