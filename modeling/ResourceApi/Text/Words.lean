import ResourceApi.Text.Letter

/-!
# Words of a name

A name such as `TodoItem`, `HTTPServer` or `due-date` is a sequence of words. Words end at every
character that is neither letter nor number, between a lower and an upper case letter, and
before the last capital of a run of capitals that a lower case letter follows. Digits end no
word and leave the case in force as it was.

The four spellings of a name (`snake`, `kebab`, `lowerCamel`, `upperCamel`) differ only in how
words are cased and joined.
-/

namespace ResourceApi.Text.Words

open Letter

/-- The case of the last cased character of the word being read. -/
inductive Casing where
  | uncased
  | lower
  | upper
  deriving DecidableEq, Repr

/-- The case in force after `c`. -/
def Casing.after (casing : Casing) (c : Char) : Casing :=
  if isLower c then .lower else if isUpper c then .upper else casing

/-- Maximal runs of letters and numbers, in order; none is empty. -/
def runs : List Char → List Char → List (List Char)
  | [], current => if current.isEmpty then [] else [current.reverse]
  | c :: rest, current =>
    if isAlphanumeric c then runs rest (c :: current)
    else if current.isEmpty then runs rest []
    else current.reverse :: runs rest []

/-- The words of one run. `current` holds the word read so far, last character first. -/
def ofRun (casing : Casing) (current : List Char) : List Char → List (List Char)
  | [] => if current.isEmpty then [] else [current.reverse]
  | [c] => [(c :: current).reverse]
  | c :: next :: rest =>
    if casing.after c = .lower ∧ isUpper next then
      (c :: current).reverse :: ofRun .uncased [] (next :: rest)
    else if casing = .upper ∧ isUpper c ∧ isLower next then
      current.reverse :: ofRun .uncased [c] (next :: rest)
    else ofRun (casing.after c) (c :: current) (next :: rest)

/-- The words of a name, cased as they stand. -/
def ofName (name : String) : List (List Char) :=
  (runs name.toList []).flatMap (ofRun .uncased [])

/-- A word in lower case. A capital sigma at the end of a word becomes the final form. -/
def lowercase : List Char → List Char
  | [] => []
  | ['Σ'] => ['ς']
  | c :: rest => toLower c ++ lowercase rest

/-- A word with its first letter in upper case and the others in lower case. -/
def capitalize : List Char → List Char
  | [] => []
  | c :: rest => toUpper c ++ lowercase rest

/-- Lower case words joined by `_`. -/
def snake (name : String) : String :=
  String.ofList (['_'].intercalate ((ofName name).map lowercase))

/-- Lower case words joined by `-`. -/
def kebab (name : String) : String :=
  String.ofList (['-'].intercalate ((ofName name).map lowercase))

/-- Capitalized words, joined without a mark. -/
def upperCamel (name : String) : String :=
  String.ofList ((ofName name).flatMap capitalize)

/-- A lower case word, then capitalized words, joined without a mark. -/
def lowerCamel (name : String) : String :=
  match ofName name with
  | [] => ""
  | first :: rest => String.ofList (lowercase first ++ rest.flatMap capitalize)

end ResourceApi.Text.Words
