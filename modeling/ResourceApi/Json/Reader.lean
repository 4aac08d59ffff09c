import ResourceApi.Text.Numeral
import ResourceApi.Json.Basic

/-!
# Reading JSON text

A number without fraction and exponent that fits 64 bits, signed or unsigned, is an integer;
every other number, `-0` included, is a floating point number. The leading digits of a floating
point number that fit 64 bits form its significand, later ones only move the decimal point; the
significand is rounded, then scaled by a power of ten and rounded again.
-/

namespace ResourceApi.Json

open ResourceApi.Text.Numeral (digitValue natural? exponent? minInt maxNat)

/-- Skips blanks. -/
def skipBlanks (cs : List Char) : List Char :=
  cs.dropWhile fun c => c = ' ' || c = '\n' || c = '\r' || c = '\t'

/-! ## Numbers -/

/-- Takes digits into the significand as long as it fits 64 bits; the others are counted. -/
def takeSignificand (significand : Nat) : List Char → Nat × Nat
  | [] => (significand, 0)
  | c :: rest =>
    let extended := 10 * significand + digitValue c
    if extended ≤ maxNat then takeSignificand extended rest else (significand, rest.length + 1)

/-- The nearest number to `10 ^ e`. -/
def tenTo (e : Nat) : Double := Double.ofDecimal false 1 e

/-- Scales a rounded significand by a power of ten. A power beyond the largest representable one
is either out of range or divided off in steps. -/
def scale (d : Double) (exponent : Int) : Option Double :=
  go 4 d exponent
where
  go : Nat → Double → Int → Option Double
    | 0, d, _ => some d
    | fuel + 1, d, e =>
      if e.natAbs ≤ 308 then
        let scaled := if 0 ≤ e then d.mul (tenTo e.natAbs) else d.div (tenTo e.natAbs)
        if scaled.isFinite then some scaled else none
      else if d.isZero then some d
      else if 0 ≤ e then none
      else go fuel (d.div (tenTo 308)) (e + 308)

/-- A floating point number from its sign, digits before and after the point, and exponent. -/
def readFloat (negative : Bool) (whole fraction : List Char) (exponent : Int) : Option Json :=
  let (significand, skipped) := takeSignificand 0 whole
  let (significand, left) := takeSignificand significand fraction
  let shift : Int := skipped - (fraction.length - left : Nat) + exponent
  (scale (Double.ofInt significand) shift).map fun d => float (if negative then d.neg else d)

/-- A number at the start of a text, and what follows it. -/
def readNumber (cs : List Char) : Option (Json × List Char) :=
  let (negative, cs) := match cs with
    | '-' :: rest => (true, rest)
    | cs => (false, cs)
  let whole := cs.takeWhile Char.isDigit
  let rest := cs.dropWhile Char.isDigit
  if whole.isEmpty || (whole.head? == some '0' && 1 < whole.length) then none
  else
    let (fraction, rest, hasPoint) := match rest with
      | '.' :: rest => (rest.takeWhile Char.isDigit, rest.dropWhile Char.isDigit, true)
      | rest => ([], rest, false)
    let isExponent (c : Char) : Bool := c = 'e' || c = 'E'
    let (marker, rest) := match rest with
      | c :: sign :: tail =>
        if isExponent c then
          if sign = '+' ∨ sign = '-' then
            ([c, sign] ++ tail.takeWhile Char.isDigit, tail.dropWhile Char.isDigit)
          else (c :: (sign :: tail).takeWhile Char.isDigit, (sign :: tail).dropWhile Char.isDigit)
        else ([], rest)
      | [c] => if isExponent c then ([c], []) else ([], rest)
      | [] => ([], [])
    if hasPoint && fraction.isEmpty then none
    else
      match exponent? marker with
      | none => none
      | some exponent =>
        if !hasPoint && marker.isEmpty then
          match natural? whole with
          | none => none
          | some n =>
            let i : Int := if negative then -n else n
            if (negative && (n = 0 || i < minInt)) || maxNat < n then
              (readFloat negative whole [] 0).map (·, rest)
            else some (int i, rest)
        else (readFloat negative whole fraction exponent).map (·, rest)

/-! ## Strings -/

/-- The value of four hexadecimal digits. -/
def hexUnit (digits : List Char) : Option Nat :=
  if digits.length ≠ 4 then none
  else digits.foldlM (fun n c =>
    if c.isDigit then some (16 * n + (c.toNat - 48))
    else if 'a' ≤ c && c ≤ 'f' then some (16 * n + (c.toNat - 87))
    else if 'A' ≤ c && c ≤ 'F' then some (16 * n + (c.toNat - 55))
    else none) 0

/-- The character of an escape behind the backslash, and how many characters it took. Two escaped
surrogates form one character; a lone one is refused. -/
def readEscape : List Char → Option (Char × Nat)
  | '"' :: _ => some ('"', 1)
  | '\\' :: _ => some ('\\', 1)
  | '/' :: _ => some ('/', 1)
  | 'b' :: _ => some ('\x08', 1)
  | 'f' :: _ => some ('\x0c', 1)
  | 'n' :: _ => some ('\n', 1)
  | 'r' :: _ => some ('\r', 1)
  | 't' :: _ => some ('\t', 1)
  | 'u' :: rest =>
    match hexUnit (rest.take 4) with
    | none => none
    | some high =>
      if 0xD800 ≤ high && high < 0xDC00 then
        match rest.drop 4 with
        | '\\' :: 'u' :: tail =>
          match hexUnit (tail.take 4) with
          | none => none
          | some second =>
            if 0xDC00 ≤ second && second < 0xE000 then
              some (Char.ofNat (0x10000 + (high - 0xD800) * 1024 + (second - 0xDC00)), 11)
            else none
        | _ => none
      else if 0xDC00 ≤ high && high < 0xE000 then none
      else some (Char.ofNat high, 5)
  | _ => none

/-- The content of a string literal behind its opening quotation mark, and what follows the
closing one. `skip` characters have been consumed already. -/
def readString (skip : Nat) (content : List Char) : List Char → Option (String × List Char)
  | [] => none
  | c :: rest =>
    match skip with
    | skip + 1 => readString skip content rest
    | 0 =>
      if c = '"' then some (String.ofList content.reverse, rest)
      else if c = '\\' then
        match readEscape rest with
        | none => none
        | some (e, taken) => readString taken (e :: content) rest
      else if c.toNat < 0x20 then none
      else readString 0 (c :: content) rest

/-! ## Values -/

/-- Reads `word` and answers `value`. -/
def readWord (word : String) (value : Json) (cs : List Char) : Option (Json × List Char) :=
  if word.toList.isPrefixOf cs then some (value, cs.drop word.length) else none

mutual

/-- A value at the start of a text, and what follows it. -/
def readValue : Nat → List Char → Option (Json × List Char)
  | 0, _ => none
  | fuel + 1, cs =>
    match skipBlanks cs with
    | '\x7b' :: rest =>
      match skipBlanks rest with
      | '\x7d' :: rest => some (obj [], rest)
      | rest => readMembers fuel [] rest
    | '[' :: rest =>
      match skipBlanks rest with
      | ']' :: rest => some (arr [], rest)
      | rest => readItems fuel [] rest
    | '"' :: rest => (readString 0 [] rest).map fun (s, rest) => (str s, rest)
    | 't' :: rest => readWord "true" (bool true) ('t' :: rest)
    | 'f' :: rest => readWord "false" (bool false) ('f' :: rest)
    | 'n' :: rest => readWord "null" null ('n' :: rest)
    | cs => readNumber cs

/-- The elements of an array that are left, the ones read so far in reverse. -/
def readItems : Nat → List Json → List Char → Option (Json × List Char)
  | 0, _, _ => none
  | fuel + 1, items, cs =>
    match readValue fuel cs with
    | none => none
    | some (item, rest) =>
      match skipBlanks rest with
      | ',' :: rest => readItems fuel (item :: items) rest
      | ']' :: rest => some (arr (item :: items).reverse, rest)
      | _ => none

/-- The members of an object that are left. -/
def readMembers : Nat → Object → List Char → Option (Json × List Char)
  | 0, _, _ => none
  | fuel + 1, members, cs =>
    match skipBlanks cs with
    | '"' :: rest =>
      match readString 0 [] rest with
      | none => none
      | some (key, rest) =>
        match skipBlanks rest with
        | ':' :: rest =>
          match readValue fuel rest with
          | none => none
          | some (value, rest) =>
            let members := members.insert key value
            match skipBlanks rest with
            | ',' :: rest => readMembers fuel members rest
            | '\x7d' :: rest => some (obj members, rest)
            | _ => none
        | _ => none
    | _ => none

end

/-- The value that a text denotes. -/
def parse? (s : String) : Option Json :=
  let cs := s.toList
  match readValue (cs.length + 1) cs with
  | some (value, rest) => if (skipBlanks rest).isEmpty then some value else none
  | none => none

end ResourceApi.Json
