import ResourceApi.Double.Stored
import ResourceApi.Sql.Statement

/-!
# Comparing stored values

Stored values are totally ordered by kind: null, numbers by value, texts by code point, bytes.
The storage type of a column decides which values it turns into numbers or texts before it keeps
them, and the same conversion is made of a value that the column is compared with.

A comparison with null holds in no case, so `holds` of each condition is simply false there.
-/

namespace ResourceApi

namespace SqlValue

/-- The place of a kind of values in the order. -/
def kindRank : SqlValue → Nat
  | null => 0
  | integer _ | real _ => 1
  | text _ => 2
  | blob _ => 3

/-- The order of stored values. -/
def compare : SqlValue → SqlValue → Ordering
  | integer a, integer b => Ord.compare a b
  | integer a, real b => Double.compareInt a b
  | real a, integer b => (Double.compareInt b a).swap
  | real a, real b => Double.compare a b
  | text a, text b => Ord.compare a b
  | blob a, blob b => Ord.compare a b
  | a, b => Ord.compare a.kindRank b.kindRank

/-- Whether two values other than null are equal. -/
def equals (a b : SqlValue) : Bool := a != null && b != null && a.compare b == .eq

/-- The text of a value. -/
def textOf : SqlValue → String
  | null => ""
  | integer i => toString i
  | real d => d.storedText
  | text s => s
  | blob bytes => String.ofList (Text.Utf8.decodeLossy bytes)

/-- A number without fraction as an integer, where one can hold it. -/
def condense (d : Double) : SqlValue :=
  match d.toInt? with
  | some i => if Text.Numeral.minInt < i && i < Text.Numeral.maxInt then integer i else real d
  | none => real d

/-- Whether a character may stand around a number. -/
def isPadding (c : Char) : Bool := c = ' ' || ('\t' ≤ c && c ≤ '\r')

/-- The number that a text writes, blanks around it aside. -/
def number? (s : String) : Option SqlValue :=
  let cs := ((s.toList.dropWhile isPadding).reverse.dropWhile isPadding).reverse
  let s := String.ofList cs
  match Text.Numeral.int? s with
  | some i => some (integer i)
  | none => (Text.Numeral.decimal? s).map fun d =>
    condense (.ofNumeral d.negative d.whole d.fraction d.exponent)

end SqlValue

namespace Affinity

open SqlValue

/-- Turns a text that writes a number into the number. -/
def numeric : SqlValue → SqlValue
  | .text s => (number? s).getD (.text s)
  | v => v

/-- Turns a number into its text. -/
def textual : SqlValue → SqlValue
  | .integer i => .text (textOf (.integer i))
  | .real d => .text (textOf (.real d))
  | v => v

/-- The form in which a column of this type keeps a value. A zero loses its sign. -/
def store (a : Affinity) (v : SqlValue) : SqlValue :=
  match a, numeric v with
  | text, _ => textual v
  | integer, .real d => condense d
  | integer, n => n
  | real, .integer i => .real (.ofInt i)
  | real, .real d => .real (if d.isZero then .zero else d)
  | real, n => n

/-- What is made of a value without type before a column of this type is compared with it. -/
def convert (a : Affinity) (v : SqlValue) : SqlValue :=
  match a with
  | text => textual v
  | integer | real => numeric v

/-- What is made of the values of two columns before they are compared: a number outweighs a
text. -/
def convertBoth (a b : Affinity) (v w : SqlValue) : SqlValue × SqlValue :=
  if a = b then (v, w) else (numeric v, numeric w)

end Affinity

namespace Sql

/-! ## Patterns

A pattern is matched with a text and with all of its endings at once: the answer is a list with an
entry for every character of the text, for what begins there, and a last one for the empty text.
-/

/-- The endings that have one of some given endings in them. -/
def extended : List Bool → List Bool
  | [] => []
  | b :: rest =>
    let later := extended rest
    (b || later.headD false) :: later

/-- The endings that consist of a character for `p` and one of some given endings. -/
def preceded (p : Char) : List Char → List Bool → List Bool
  | c :: cs, _ :: later =>
    ((p = '_' || p = c) && later.headD false) :: preceded p cs later
  | _, _ => [false]

/-- The endings of a text that match a pattern, in which `%` stands for any text and `_` for any
character. -/
def matchingEndings (cs : List Char) : List Char → List Bool
  | [] => cs.map (fun _ => false) ++ [true]
  | p :: ps =>
    if p = '%' then extended (matchingEndings cs ps)
    else preceded p cs (matchingEndings cs ps)

/-- Whether a text matches a pattern. -/
def matchesPattern (pattern cs : List Char) : Bool := (matchingEndings cs pattern).headD false

variable {p : Char} {cs ps : List Char}

theorem matchingEndings_any : matchingEndings cs ('%' :: ps) = extended (matchingEndings cs ps) :=
  if_pos rfl

theorem matchingEndings_other (hp : p ≠ '%') :
    matchingEndings cs (p :: ps) = preceded p cs (matchingEndings cs ps) :=
  if_neg hp

theorem matchingEndings_cons (c : Char) (cs pattern : List Char) :
    ∃ b, matchingEndings (c :: cs) pattern = b :: matchingEndings cs pattern := by
  induction pattern with
  | nil => exact ⟨false, rfl⟩
  | cons p ps ih =>
    obtain ⟨b, hb⟩ := ih
    by_cases hp : p = '%'
    · subst hp
      rw [matchingEndings_any, matchingEndings_any, hb]
      exact ⟨_, rfl⟩
    · rw [matchingEndings_other hp, matchingEndings_other hp, hb]
      exact ⟨_, rfl⟩

theorem matchingEndings_nil (pattern : List Char) : ∃ b, matchingEndings [] pattern = [b] := by
  induction pattern with
  | nil => exact ⟨true, rfl⟩
  | cons p ps ih =>
    obtain ⟨b, hb⟩ := ih
    by_cases hp : p = '%'
    · subst hp
      rw [matchingEndings_any, hb]
      exact ⟨_, rfl⟩
    · rw [matchingEndings_other hp]
      exact ⟨_, rfl⟩

/-- The empty pattern matches the empty text only. -/
theorem matchesPattern_nil (cs : List Char) : matchesPattern [] cs = cs.isEmpty := by
  cases cs <;> rfl

/-- A text matches `%` in front of a pattern if it, or what follows its first character, matches. -/
theorem matchesPattern_any (ps : List Char) (c : Char) (cs : List Char) :
    matchesPattern ('%' :: ps) (c :: cs)
      = (matchesPattern ps (c :: cs) || matchesPattern ('%' :: ps) cs) := by
  obtain ⟨b, hb⟩ := matchingEndings_cons c cs ps
  show (matchingEndings (c :: cs) ('%' :: ps)).headD false =
    ((matchingEndings (c :: cs) ps).headD false || (matchingEndings cs ('%' :: ps)).headD false)
  rw [matchingEndings_any, matchingEndings_any, hb]
  rfl

theorem matchesPattern_any_nil (ps : List Char) :
    matchesPattern ('%' :: ps) [] = matchesPattern ps [] := by
  obtain ⟨b, hb⟩ := matchingEndings_nil ps
  show (matchingEndings [] ('%' :: ps)).headD false = (matchingEndings [] ps).headD false
  rw [matchingEndings_any, hb]
  exact Bool.or_false b

/-- Any other character of a pattern takes one character of the text. -/
theorem matchesPattern_cons {p : Char} (hp : p ≠ '%') (ps : List Char) (c : Char) (cs : List Char) :
    matchesPattern (p :: ps) (c :: cs) = ((p = '_' || p = c) && matchesPattern ps cs) := by
  obtain ⟨b, hb⟩ := matchingEndings_cons c cs ps
  show (matchingEndings (c :: cs) (p :: ps)).headD false =
    ((p = '_' || p = c) && (matchingEndings cs ps).headD false)
  rw [matchingEndings_other hp, hb]
  rfl

theorem matchesPattern_cons_nil {p : Char} (hp : p ≠ '%') (ps : List Char) :
    matchesPattern (p :: ps) [] = false := by
  show (matchingEndings [] (p :: ps)).headD false = false
  rw [matchingEndings_other hp]
  rfl

/-- The characters that patterns see: those before a null character. -/
def visible (s : String) : List Char := s.toList.takeWhile (· ≠ '\x00')

/-- Whether a value matches a pattern, both by their texts. -/
def like (value pattern : SqlValue) : Bool :=
  value != .null && pattern != .null
    && matchesPattern (visible pattern.textOf) (visible value.textOf)

/-- Whether a value matches a pattern, in any case of the letters A to Z. -/
def ilike (value pattern : SqlValue) : Bool :=
  value != .null && pattern != .null
    && matchesPattern ((visible pattern.textOf).map Char.toLower)
      ((visible value.textOf).map Char.toLower)

end Sql

/-- Whether a comparison holds between a column's value and another one. -/
def Comparison.holds (comparison : Comparison) (value other : SqlValue) : Bool :=
  value != .null && other != .null &&
    match comparison with
    | eq => value.compare other == .eq
    | ne => value.compare other != .eq
    | gt => value.compare other == .gt
    | gte => value.compare other != .lt
    | lt => value.compare other == .lt
    | lte => value.compare other != .gt
    | like => Sql.like value other

end ResourceApi
