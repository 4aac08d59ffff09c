import ResourceApi.Settings.Toml
import ResourceApi.Timestamp

/-!
# Reading TOML text

The reader takes the text apart line by line: headers, assignments, comments. Values are texts
of four kinds, arrays, inline tables, and words; a word is checked to be a number, a boolean or
a date. Arrays and inline tables may spread over several lines and end in a comma. A text that is
not TOML has no value, and neither has one whose arrays, inline tables or keys are too deep.
-/

namespace ResourceApi.Settings.Toml

/-! ## Blanks -/

/-- Skips spaces and tabs. -/
def skipSpaces (cs : List Char) : List Char := cs.dropWhile fun c => c = ' ' || c = '\t'

/-- A control character that may not stand in the text. -/
def isControl (c : Char) : Bool := (c.toNat < 0x20 && c != '\t') || c.toNat = 0x7f

/-- Skips a comment, if there is one, up to the end of the line. -/
def skipComment (cs : List Char) : Option (List Char) :=
  match cs with
  | '#' :: rest =>
    let comment := rest.takeWhile fun c => c != '\n' && c != '\r'
    if comment.any isControl then none else some (rest.drop comment.length)
  | _ => some cs

/-- What follows the end of the line; the end of the text ends a line, too. -/
def endLine (cs : List Char) : Option (List Char) := do
  match ← skipComment (skipSpaces cs) with
  | [] => some []
  | '\n' :: rest => some rest
  | '\r' :: '\n' :: rest => some rest
  | _ => none

/-- Skips spaces, comments and line ends. -/
def skipLines : Nat → List Char → Option (List Char)
  | 0, _ => none
  | fuel + 1, cs => do
    match ← skipComment (skipSpaces cs) with
    | '\n' :: rest => skipLines fuel rest
    | '\r' :: '\n' :: rest => skipLines fuel rest
    | cs => some cs

/-! ## Texts -/

/-- The value of hexadecimal digits. -/
def hexNumber? (cs : List Char) : Option Nat :=
  cs.foldlM (fun n c =>
    if c.isDigit then some (16 * n + (c.toNat - 48))
    else if 'a' ≤ c && c ≤ 'f' then some (16 * n + (c.toNat - 87))
    else if 'A' ≤ c && c ≤ 'F' then some (16 * n + (c.toNat - 55))
    else none) 0

/-- A character given by `count` hexadecimal digits. -/
def codePoint? (count : Nat) (cs : List Char) : Option (Char × Nat) :=
  if (cs.take count).length < count then none
  else
    match hexNumber? (cs.take count) with
    | some n => if n.isValidChar then some (Char.ofNat n, count + 1) else none
    | none => none

/-- The character of an escape behind the backslash, and how many characters it took. -/
def escape? : List Char → Option (Char × Nat)
  | 'b' :: _ => some ('\x08', 1)
  | 't' :: _ => some ('\t', 1)
  | 'n' :: _ => some ('\n', 1)
  | 'f' :: _ => some ('\x0c', 1)
  | 'r' :: _ => some ('\r', 1)
  | 'e' :: _ => some ('\x1b', 1)
  | '"' :: _ => some ('"', 1)
  | '\\' :: _ => some ('\\', 1)
  | 'x' :: rest => codePoint? 2 rest
  | 'u' :: rest => codePoint? 4 rest
  | 'U' :: rest => codePoint? 8 rest
  | _ => none

/-- A text on one line behind its opening quotation mark, and what follows the closing one.
`skip` characters have been consumed already. -/
def basicText (skip : Nat) (content : List Char) : List Char → Option (String × List Char)
  | [] => none
  | c :: rest =>
    match skip with
    | skip + 1 => basicText skip content rest
    | 0 =>
      if c = '"' then some (String.ofList content.reverse, rest)
      else if c = '\\' then
        match escape? rest with
        | some (e, taken) => basicText taken (e :: content) rest
        | none => none
      else if isControl c then none
      else basicText 0 (c :: content) rest

/-- A text without escapes behind its opening apostrophe. -/
def literalText (cs : List Char) : Option (String × List Char) :=
  let content := cs.takeWhile (· != '\'')
  match cs.drop content.length with
  | _ :: rest => if content.any isControl then none else some (String.ofList content, rest)
  | [] => none

/-- Drops a line end at the start of a text of several lines. -/
def dropFirstLine : List Char → List Char
  | '\n' :: rest => rest
  | '\r' :: '\n' :: rest => rest
  | cs => cs

/-- Whether a backslash stands at the end of its line. -/
def endsLine (cs : List Char) : Bool :=
  match skipSpaces cs with
  | '\n' :: _ => true
  | '\r' :: '\n' :: _ => true
  | _ => false

/-- The number of spaces and line ends at the start of a text. -/
def blankLength : List Char → Nat
  | [] => 0
  | [c] => if c = ' ' ∨ c = '\t' ∨ c = '\n' then 1 else 0
  | c :: next :: rest =>
    if c = ' ' ∨ c = '\t' ∨ c = '\n' then blankLength (next :: rest) + 1
    else if c = '\r' ∧ next = '\n' then blankLength rest + 2
    else 0

/-- A text of several lines behind its opening marks. Up to two marks may stand before the
closing ones. -/
def longText (mark : Char) (skip : Nat) (content : List Char) :
    List Char → Option (String × List Char)
  | [] => none
  | c :: rest =>
    match skip with
    | skip + 1 => longText mark skip content rest
    | 0 =>
      if c = mark then
        let run := (c :: rest).takeWhile (· == mark)
        if run.length < 3 then longText mark 0 (c :: content) rest
        else if 5 < run.length then none
        else
          some (String.ofList (content.reverse ++ List.replicate (run.length - 3) mark),
            rest.drop (run.length - 1))
      else if c = '\\' ∧ mark = '"' then
        if endsLine rest then longText mark (blankLength rest) content rest
        else
          match escape? rest with
          | some (e, taken) => longText mark taken (e :: content) rest
          | none => none
      else if c = '\n' ∨ (c = '\r' ∧ rest.head? = some '\n') then
        longText mark 0 (c :: content) rest
      else if isControl c then none
      else longText mark 0 (c :: content) rest

/-! ## Words -/

/-- Digits with single underscores between them. -/
def isDigits (isDigit : Char → Bool) : List Char → Bool
  | [] => false
  | [c] => isDigit c
  | c :: '_' :: rest => isDigit c && isDigits isDigit rest
  | c :: rest => isDigit c && isDigits isDigit rest

/-- A decimal number without leading zeros. -/
def isWhole (cs : List Char) : Bool :=
  isDigits Char.isDigit cs && (cs.head? != some '0' || cs.length == 1)

/-- Whether a character is a digit of the given base. -/
def isBaseDigit (base : Nat) (c : Char) : Bool :=
  match hexNumber? [c] with
  | some n => n < base
  | none => false

/-- The value of digits in a base, underscores aside. -/
def digitsValue (base : Nat) (ds : List Char) : Nat :=
  (ds.filter (· != '_')).foldl (fun n c => base * n + (hexNumber? [c]).getD 0) 0

/-- The number of values of the widest type of integers: `2 ^ 128`. -/
def widestRange : Nat := 0x100000000000000000000000000000000

/-- An integer in base ten, sixteen, eight or two. The signed and the unsigned type of 128 bits hold
it or not. -/
def integer? (cs : List Char) : Option Toml :=
  let inBase (base : Nat) (ds : List Char) : Option Toml :=
    if isDigits (isBaseDigit base) ds then some (number (digitsValue base ds < widestRange))
    else none
  match cs with
  | '0' :: 'x' :: ds => inBase 16 ds
  | '0' :: 'o' :: ds => inBase 8 ds
  | '0' :: 'b' :: ds => inBase 2 ds
  | _ =>
    let (negative, ds) := Text.Numeral.takeSign cs
    if isWhole ds then
      let n := digitsValue 10 ds
      some (number (if negative then 2 * n ≤ widestRange else n < widestRange))
    else none

/-- An exponent with its mark. -/
def isExponent : List Char → Bool
  | c :: rest => (c = 'e' || c = 'E') && isDigits Char.isDigit (Text.Numeral.takeSign rest).2
  | [] => false

/-- A floating point number. One that is written with digits has to be finite. -/
def float? (cs : List Char) : Option Toml :=
  let (_, cs) := Text.Numeral.takeSign cs
  let isPart (c : Char) : Bool := c.isDigit || c = '_'
  let rest := cs.dropWhile isPart
  let isNumeral : Bool := isWhole (cs.takeWhile isPart) &&
    match rest with
    | '.' :: rest =>
      let exponent := rest.dropWhile isPart
      isDigits Char.isDigit (rest.takeWhile isPart) && (exponent.isEmpty || isExponent exponent)
    | rest => isExponent rest
  if cs = "inf".toList ∨ cs = "nan".toList then some (number true)
  else if isNumeral then
    some (number (Text.Numeral.float? (String.ofList (cs.filter (· != '_')))).isSome)
  else none

/-- A date, at the start of a word, and what follows it. -/
def date? (cs : List Char) : Option (List Char) := do
  let (year, cs) ← Timestamp.number 4 4 cs
  let cs ← Timestamp.expect '-' cs
  let (month, cs) ← Timestamp.number 2 2 cs
  let cs ← Timestamp.expect '-' cs
  let (day, cs) ← Timestamp.number 2 2 cs
  if (Date.mk year month day).isValid then some cs else none

/-- The seconds of a time of day and their fraction, and what follows them. -/
def seconds? : List Char → Option (List Char)
  | ':' :: cs => do
    let (second, cs) ← Timestamp.number 2 2 cs
    let (_, cs) ← Timestamp.fraction cs
    if second ≤ 60 then some cs else none
  | cs => some cs

/-- A time of day, and what follows it. Seconds may be left out. -/
def time? (cs : List Char) : Option (List Char) := do
  let (hour, cs) ← Timestamp.number 2 2 cs
  let cs ← Timestamp.expect ':' cs
  let (minute, cs) ← Timestamp.number 2 2 cs
  let cs ← seconds? cs
  if hour ≤ 23 && minute ≤ 59 then some cs else none

/-- A date, a time of day, or both with or without an offset. -/
def isDateTime (cs : List Char) : Bool :=
  match date? cs with
  | some [] => true
  | some (mark :: rest) =>
    (mark = 'T' || mark = 't' || mark = ' ') &&
      match time? rest with
      | some [] => true
      | some rest => ((Timestamp.offset rest).map (·.2)) == some []
      | none => false
  | none => time? cs == some []

/-- The value of a word. -/
def scalar? (cs : List Char) : Option Toml :=
  if cs = "true".toList ∨ cs = "false".toList then some boolean
  else if isDateTime cs then some moment
  else (integer? cs).or (float? cs)

/-- A character of a word. -/
def isWordChar (c : Char) : Bool :=
  c.isAlphanum || c = '_' || c = '+' || c = '-' || c = '.' || c = ':'

/-- The word at the start of a text. A date may be followed by a space and a time. -/
def takeWord (cs : List Char) : List Char × List Char :=
  let word := cs.takeWhile isWordChar
  let rest := cs.drop word.length
  match date? word, rest with
  | some [], ' ' :: c :: tail =>
    if c.isDigit then
      let time := (c :: tail).takeWhile isWordChar
      (word ++ ' ' :: time, (c :: tail).drop time.length)
    else (word, rest)
  | _, _ => (word, rest)

/-! ## Keys -/

/-- A character of a bare key. -/
def isBareChar (c : Char) : Bool := c.isAlphanum || c = '_' || c = '-'

/-- One part of a key. -/
def keyPart (cs : List Char) : Option (String × List Char) :=
  match cs with
  | '"' :: rest => basicText 0 [] rest
  | '\'' :: rest => literalText rest
  | cs =>
    let bare := cs.takeWhile isBareChar
    if bare.isEmpty then none else some (String.ofList bare, cs.drop bare.length)

/-- How many parts a key may have, and how many arrays and inline tables may lie in one another. -/
def maxDepth : Nat := 80

/-- A dotted key of at most `room` parts. -/
def key (room : Nat) (cs : List Char) : Option (List String × List Char) :=
  match room with
  | 0 => none
  | room + 1 => do
    let (part, rest) ← keyPart (skipSpaces cs)
    match skipSpaces rest with
    | '.' :: rest => do
      let (parts, rest) ← key room rest
      some (part :: parts, rest)
    | rest => some ([part], rest)

/-! ## Values -/

mutual

/-- A value at the start of a text, and what follows it. `room` more arrays or inline tables may be
opened. -/
def value : Nat → Nat → List Char → Option (Toml × List Char)
  | 0, _, _ => none
  | fuel + 1, room, cs =>
    match room, cs with
    | _, '"' :: '"' :: '"' :: rest =>
      (longText '"' 0 [] (dropFirstLine rest)).map fun (s, rest) => (text s, rest)
    | _, '\'' :: '\'' :: '\'' :: rest =>
      (longText '\'' 0 [] (dropFirstLine rest)).map fun (s, rest) => (text s, rest)
    | _, '"' :: rest => (basicText 0 [] rest).map fun (s, rest) => (text s, rest)
    | _, '\'' :: rest => (literalText rest).map fun (s, rest) => (text s, rest)
    | room + 1, '[' :: rest => elements fuel room [] rest
    | room + 1, '\x7b' :: rest => inlineMembers fuel room [] rest
    | _, cs =>
      let (word, rest) := takeWord cs
      (scalar? word).map (·, rest)

/-- The elements of an array that are left; a comma may follow the last one. -/
def elements : Nat → Nat → List Toml → List Char → Option (Toml × List Char)
  | 0, _, _, _ => none
  | fuel + 1, room, items, cs =>
    match skipLines fuel cs with
    | none => none
    | some (']' :: rest) => some (array items.reverse, rest)
    | some cs =>
      match value fuel room cs with
      | none => none
      | some (item, rest) =>
        match skipLines fuel rest with
        | some (',' :: rest) => elements fuel room (item :: items) rest
        | some (']' :: rest) => some (array (item :: items).reverse, rest)
        | _ => none

/-- The members of an inline table that are left; a comma may follow the last one. -/
def inlineMembers : Nat → Nat → List (String × Toml) → List Char → Option (Toml × List Char)
  | 0, _, _, _ => none
  | fuel + 1, room, members, cs =>
    match skipLines fuel cs with
    | none => none
    | some ('\x7d' :: rest) => some (table .inlined members, rest)
    | some cs =>
      match inlineMember fuel room members cs with
      | none => none
      | some (members, rest) =>
        match skipLines fuel rest with
        | some (',' :: rest) => inlineMembers fuel room members rest
        | some ('\x7d' :: rest) => some (table .inlined members, rest)
        | _ => none

/-- Adds the member at the start of a text to the members of an inline table. -/
def inlineMember :
    Nat → Nat → List (String × Toml) → List Char → Option (List (String × Toml) × List Char)
  | 0, _, _, _ => none
  | fuel + 1, room, members, cs => do
    let (keys, rest) ← key maxDepth cs
    match ← skipLines fuel rest with
    | '=' :: rest =>
      let (item, rest) ← value fuel room (← skipLines fuel rest)
      return (← addDotted item keys members, rest)
    | _ => none

end

/-! ## Documents -/

/-- Reads the lines of a document. `current` is the header in force. -/
def lines : Nat → List String → List (String × Toml) → List Char → Option (List (String × Toml))
  | 0, _, _, _ => none
  | fuel + 1, current, root, cs => do
    match ← skipLines (fuel + 1) cs with
    | [] => some root
    | '[' :: '[' :: rest =>
      let (keys, rest) ← key maxDepth rest
      match rest with
      | ']' :: ']' :: rest =>
        let root ← atHeader openElement keys root
        lines fuel keys root (← endLine rest)
      | _ => none
    | '[' :: rest =>
      let (keys, rest) ← key maxDepth rest
      match rest with
      | ']' :: rest =>
        let root ← atHeader openTable keys root
        lines fuel keys root (← endLine rest)
      | _ => none
    | cs =>
      let (keys, rest) ← key maxDepth cs
      match rest with
      | '=' :: rest =>
        let (item, rest) ← value fuel maxDepth (skipSpaces rest)
        let root ← if current.isEmpty then addDotted item keys root
          else atHeader (addMember keys item) current root
        lines fuel current root (← endLine rest)
      | _ => none

/-- The members of the table that a text denotes. -/
def parse? (s : String) : Option (List (String × Toml)) :=
  let cs := match s.toList with
    | '\uFEFF' :: rest => rest
    | cs => cs
  lines (cs.length + 2) [] [] cs

end ResourceApi.Settings.Toml
