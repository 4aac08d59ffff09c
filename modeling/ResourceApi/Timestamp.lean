import ResourceApi.Text.Blank
import ResourceApi.Text.Numeral

/-!
# Timestamps

A timestamp is kept as text in one normal form: UTC, three digits of seconds' fraction, `Z`.
Three written forms are read: a full date and time with an offset, a date and time without one
(taken as UTC), and a bare date (taken as its midnight). The offset form has fields of fixed
width; in the other two a number may be shorter and may follow blanks, and a year with a sign may
be longer than four digits.

A second of 60 is a leap second and stays one.
-/

namespace ResourceApi

/-! ## Calendar -/

/-- A day of the calendar. -/
structure Date where
  year : Int
  month : Nat
  day : Nat
  deriving DecidableEq, Repr

namespace Date

/-- Years of 366 days. -/
def isLeapYear (year : Int) : Bool := year % 4 == 0 && (year % 100 != 0 || year % 400 == 0)

/-- Length of a month. -/
def daysInMonth (year : Int) (month : Nat) : Nat :=
  if month = 2 then if isLeapYear year then 29 else 28
  else if month = 4 ∨ month = 6 ∨ month = 9 ∨ month = 11 then 30
  else 31

/-- The years the calendar covers. -/
def coversYear (year : Int) : Bool := -262143 ≤ year && year ≤ 262142

/-- Whether a day exists. -/
def isValid (d : Date) : Bool :=
  coversYear d.year && (1 ≤ d.month && d.month ≤ 12)
    && (1 ≤ d.day && d.day ≤ daysInMonth d.year d.month)

/-- The following day. -/
def next (d : Date) : Date :=
  if d.day < daysInMonth d.year d.month then { d with day := d.day + 1 }
  else if d.month < 12 then { d with month := d.month + 1, day := 1 }
  else ⟨d.year + 1, 1, 1⟩

/-- The preceding day. -/
def previous (d : Date) : Date :=
  if 1 < d.day then { d with day := d.day - 1 }
  else if 1 < d.month then
    { d with month := d.month - 1, day := daysInMonth d.year (d.month - 1) }
  else ⟨d.year - 1, 12, 31⟩

end Date

/-! ## Instants -/

/-- A minute of a day, and a second and millisecond in it. -/
structure Timestamp where
  date : Date
  minute : Nat
  second : Nat
  millisecond : Nat
  deriving DecidableEq, Repr

namespace Timestamp

/-- Moves a local time to UTC; the offset is less than a day. -/
def toUtc (t : Timestamp) (offset : Int) : Timestamp :=
  let minute := t.minute - offset
  if minute < 0 then { t with date := t.date.previous, minute := (minute + 1440).toNat }
  else if 1440 ≤ minute then { t with date := t.date.next, minute := (minute - 1440).toNat }
  else { t with minute := minute.toNat }

/-! ## Reading -/

open ResourceApi.Text (isBlank)
open ResourceApi.Text.Numeral (valueFrom)

/-- A number of `least` to `most` digits, and what follows it. -/
def number (least most : Nat) (cs : List Char) : Option (Nat × List Char) :=
  let digits := (cs.take most).takeWhile Char.isDigit
  if digits.length < least then none else some (valueFrom 0 digits, cs.drop digits.length)

/-- What follows the expected character. -/
def expect (c : Char) : List Char → Option (List Char)
  | first :: rest => if first = c then some rest else none
  | [] => none

/-- The milliseconds of an optional fraction. Digits past the ninth are read and dropped. -/
def fraction : List Char → Option (Nat × List Char)
  | '.' :: rest =>
    let digits := rest.takeWhile Char.isDigit
    if digits.isEmpty then none
    else
      let first := digits.take 3
      some (valueFrom 0 (first ++ List.replicate (3 - first.length) '0'), rest.drop digits.length)
  | cs => some (0, cs)

/-- Whether the sign of an offset is a minus. -/
def isMinus? (sign : Char) : Option Bool :=
  if sign = '+' then some false
  else if sign = '-' ∨ sign = '\u2212' then some true
  else none

/-- The minutes of an offset: `Z`, or a sign, two digits of hours and two of minutes. -/
def offset (cs : List Char) : Option (Int × List Char) := do
  match cs with
  | [] => none
  | sign :: rest =>
    if sign = 'Z' ∨ sign = 'z' then some (0, rest)
    else
      let negative ← isMinus? sign
      let (hours, rest) ← number 2 2 rest
      let rest ← expect ':' rest
      let (minutes, rest) ← number 2 2 rest
      if 59 < minutes ∨ 23 < hours then none
      else
        let total : Int := 60 * hours + minutes
        some (if negative then -total else total, rest)

/-- The timestamp of a date and a time of day, if both exist. -/
def ofParts? (date : Date) (hour minute second millisecond : Nat) : Option Timestamp :=
  if date.isValid && hour ≤ 23 && minute ≤ 59 && second ≤ 60 then
    some ⟨date, 60 * hour + minute, second, millisecond⟩
  else none

/-- A full date and time with an offset: the local time, and how many minutes it is ahead of
UTC. -/
def readZoned (cs : List Char) : Option (Timestamp × Int) := do
  let (year, cs) ← number 4 4 cs
  let cs ← expect '-' cs
  let (month, cs) ← number 2 2 cs
  let cs ← expect '-' cs
  let (day, cs) ← number 2 2 cs
  match cs with
  | [] => none
  | mark :: cs =>
    if mark ≠ 'T' ∧ mark ≠ 't' ∧ mark ≠ ' ' then none
    else
      let (hour, cs) ← number 2 2 cs
      let cs ← expect ':' cs
      let (minute, cs) ← number 2 2 cs
      let cs ← expect ':' cs
      let (second, cs) ← number 2 2 cs
      let (millisecond, cs) ← fraction cs
      let (offset, cs) ← offset cs
      if cs.isEmpty then
        (ofParts? ⟨year, month, day⟩ hour minute second millisecond).map (·, offset)
      else none

/-- A full date and time with an offset, in UTC. -/
def readWithOffset (cs : List Char) : Option Timestamp :=
  (readZoned cs).map fun (t, offset) => t.toUtc offset

/-- A number of at most `most` digits behind blanks. -/
def loose (most : Nat) (cs : List Char) : Option (Nat × List Char) :=
  number 1 most (cs.dropWhile isBlank)

/-- A year behind blanks: up to four digits, or a sign and any number of digits. -/
def looseYear (cs : List Char) : Option (Int × List Char) :=
  match cs.dropWhile isBlank with
  | '-' :: rest => (number 1 rest.length rest).map fun (n, rest) => (-(n : Int), rest)
  | '+' :: rest => (number 1 rest.length rest).map fun (n, rest) => ((n : Int), rest)
  | cs => (number 1 4 cs).map fun (n, rest) => ((n : Int), rest)

/-- A date with loose fields, and what follows it. -/
def readDate (cs : List Char) : Option (Date × List Char) := do
  let (year, cs) ← looseYear cs
  let cs ← expect '-' cs
  let (month, cs) ← loose 2 cs
  let cs ← expect '-' cs
  let (day, cs) ← loose 2 cs
  return (⟨year, month, day⟩, cs)

/-- A date and time without an offset. -/
def readLocal (cs : List Char) : Option Timestamp := do
  let (date, cs) ← readDate cs
  let cs ← expect 'T' cs
  let (hour, cs) ← loose 2 cs
  let cs ← expect ':' cs
  let (minute, cs) ← loose 2 cs
  let cs ← expect ':' cs
  let (second, cs) ← loose 2 cs
  let (millisecond, cs) ← fraction cs
  if cs.isEmpty then ofParts? date hour minute second millisecond else none

/-- Midnight of a bare date. -/
def readDay (cs : List Char) : Option Timestamp := do
  let (date, cs) ← readDate cs
  if cs.isEmpty then ofParts? date 0 0 0 0 else none

/-- The instant that a text denotes. -/
def parse? (s : String) : Option Timestamp :=
  let cs := s.toList
  (readWithOffset cs).or ((readLocal cs).or (readDay cs))

/-! ## Writing -/

/-- A number with at least `width` digits. -/
def padded (width n : Nat) : String :=
  let digits := Nat.toDigits 10 n
  String.ofList (List.replicate (width - digits.length) '0' ++ digits)

/-- Four digits, or a sign and digits outside the four-digit years. -/
def yearText (year : Int) : String :=
  if 0 ≤ year ∧ year ≤ 9999 then padded 4 year.toNat
  else if year < 0 then "-" ++ padded 4 year.natAbs
  else "+" ++ padded 4 year.toNat

/-- The normal form of a timestamp in UTC. -/
def text (t : Timestamp) : String :=
  yearText t.date.year ++ "-" ++ padded 2 t.date.month ++ "-" ++ padded 2 t.date.day
    ++ "T" ++ padded 2 (t.minute / 60) ++ ":" ++ padded 2 (t.minute % 60)
    ++ ":" ++ padded 2 t.second ++ "." ++ padded 3 t.millisecond ++ "Z"

/-- The normal form of the instant that a text denotes. -/
def normalize? (s : String) : Option String := (parse? s).map text

end Timestamp

end ResourceApi
