import ResourceApi.Text.LetterTable

/-!
# Letters

Classes and case maps of characters. ASCII is decided by comparison, everything else by the
tables of `ResourceApi.Text.LetterTable`. A case map answers a list because some characters
have a partner of several characters.
-/

namespace ResourceApi.Text.Letter

/-- Whether `n` is one of the members of the run `first`, `first + step`, …, `last`. -/
def inRun (n first last step : Nat) : Bool :=
  first ≤ n && n ≤ last && (n - first) % step == 0

/-- Letters and numbers. -/
def isAlphanumeric (c : Char) : Bool :=
  if c.toNat < 128 then c.isAlphanum
  else LetterTable.alphanumeric.any fun (first, last) => first ≤ c.toNat && c.toNat ≤ last

/-- Upper case characters. -/
def isUpper (c : Char) : Bool :=
  if c.toNat < 128 then c.isUpper
  else LetterTable.upper.any fun (first, last, step) => inRun c.toNat first last step

/-- Lower case characters. -/
def isLower (c : Char) : Bool :=
  if c.toNat < 128 then c.isLower
  else LetterTable.lower.any fun (first, last, step) => inRun c.toNat first last step

/-- The partner of `c` that the runs and the list of long partners give, or `c` itself. -/
def mapped (runs : Array (Nat × Nat × Nat × Int)) (long : Array (Nat × List Nat)) (c : Char) :
    List Char :=
  match long.find? fun (source, _) => source == c.toNat with
  | some (_, partner) => partner.map Char.ofNat
  | none =>
    match runs.find? fun (first, last, step, _) => inRun c.toNat first last step with
    | some (_, _, _, distance) => [Char.ofNat (c.toNat + distance).toNat]
    | none => [c]

/-- The lower case form of a character. -/
def toLower (c : Char) : List Char :=
  if c.toNat < 128 then [c.toLower] else mapped LetterTable.toLower LetterTable.toLowerMany c

/-- The upper case form of a character. -/
def toUpper (c : Char) : List Char :=
  if c.toNat < 128 then [c.toUpper] else mapped LetterTable.toUpper LetterTable.toUpperMany c

end ResourceApi.Text.Letter
