import ResourceApi.Double.Stored
import ResourceApi.Json.Reader
import ResourceApi.Json.Writer

/-!
# JSON text of related rows

A database hands related rows over as JSON text, and reading that text back is not the identity:
a number is written with fifteen digits, an infinite one as `9.0e+999`, and what is read may be
a neighbour of what was written. `Json.reread` says what comes of a value on this way. A number
past the largest one cannot be read; the failure tells where its text ends.

Texts, integers and the structure of a value come back as they were. Of members with the same key
the last one stays.
-/

namespace ResourceApi

/-- A number in JSON text is larger than every floating point number. -/
structure OutOfRange where
  /-- The number of bytes up to the end of the number. -/
  column : Nat
  deriving DecidableEq, Repr

/-- The failure in words. -/
def OutOfRange.message (e : OutOfRange) : String :=
  s!"number out of range at line 1 column {e.column}"

namespace Json

/-- The text of a number. -/
def numberText (d : Double) : String :=
  if d.isFinite then d.storedText else d.signText ++ "9.0e+999"

/-- The number that is read from the text of a number. -/
def rereadNumber (d : Double) : Option Json := (readNumber (numberText d).toList).map (·.1)

mutual

/-- What is read from the text of a value that begins at a place, and the place where it ends. -/
def reread (start : Nat) : Json → Except OutOfRange (Json × Nat)
  | float d =>
    let stop := start + (numberText d).utf8ByteSize
    match rereadNumber d with
    | some value => .ok (value, stop)
    | none => .error ⟨stop⟩
  | arr [] => .ok (arr [], start + 2)
  | arr items => do
    let (items, stop) ← rereadItems (start + 1) items
    return (arr items, stop)
  | obj [] => .ok (obj [], start + 2)
  | obj members => do
    let (members, stop) ← rereadMembers (start + 1) members
    return (obj (Object.ofList members), stop)
  | null => .ok (null, start + 4)
  | bool b => .ok (bool b, start + if b then 4 else 5)
  | int i => .ok (int i, start + (toString i).utf8ByteSize)
  | str s => .ok (str s, start + (quote s).utf8ByteSize)

/-- What is read from several values, each with the mark behind it. -/
def rereadItems (start : Nat) : List Json → Except OutOfRange (List Json × Nat)
  | [] => .ok ([], start)
  | item :: rest => do
    let (item, stop) ← reread start item
    let (rest, stop) ← rereadItems (stop + 1) rest
    return (item :: rest, stop)

/-- What is read from several members, each with the mark behind it. -/
def rereadMembers (start : Nat) :
    List (String × Json) → Except OutOfRange (List (String × Json) × Nat)
  | [] => .ok ([], start)
  | (key, value) :: rest => do
    let (value, stop) ← reread (start + (quote key).utf8ByteSize + 1) value
    let (rest, stop) ← rereadMembers (stop + 1) rest
    return ((key, value) :: rest, stop)

end

/-- What is read from the text of a value. -/
def throughText (value : Json) : Except OutOfRange Json := (·.1) <$> reread 0 value

end Json

end ResourceApi
