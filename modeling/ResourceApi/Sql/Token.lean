/-!
# Tokens of SQL text

A database reads the text of a statement token by token. Names of members stand in the text of a
query between apostrophes as they are, so an apostrophe in a name changes where tokens end. The
text itself ends at the first null character.

`Token.ofText` cuts a text into tokens without losing a character; blanks and comments are tokens,
too, and what can be no token is an illegal one.
-/

namespace ResourceApi.Sql

/-! ## Places -/

/-- The number of bytes before the first occurrence of a text, or of all where there is none. -/
def offsetIn (part : List Char) : List Char → Nat
  | [] => 0
  | c :: rest =>
    if part.isPrefixOf (c :: rest) then 0 else c.utf8Size + offsetIn part rest

/-- The place of a text in a statement. -/
def placeOf (part sql : String) : Nat := offsetIn part.toList sql.toList

/-! ## Tokens -/

/-- A kind of tokens. -/
inductive TokenKind where
  /-- Spaces, line ends or a comment. -/
  | blank
  /-- A text between apostrophes. -/
  | text
  /-- A name between other quotation marks. -/
  | quotedName
  /-- A keyword or a name. -/
  | word
  | number
  | bytes
  /-- A mark for a value. -/
  | mark
  /-- An operator, a bracket or a separator. -/
  | symbol
  | illegal
  deriving DecidableEq, Repr

/-- A part of a text. -/
structure Token where
  kind : TokenKind
  text : String
  /-- The number of bytes before it. -/
  offset : Nat
  deriving DecidableEq, Repr

namespace Token

/-- The length of the longest start of a text whose characters have a property. -/
def spanLength (p : Char → Bool) (cs : List Char) : Nat := (cs.takeWhile p).length

/-- A character inside a name. -/
def isNameChar (c : Char) : Bool := c.isAlphanum || c = '_' || c = '$' || 128 ≤ c.toNat

/-- A blank. -/
def isBlank (c : Char) : Bool := c = ' ' || ('\t' ≤ c && c ≤ '\r')

/-- A hexadecimal digit. -/
def isHexDigit (c : Char) : Bool := c.isDigit || ('a' ≤ c && c ≤ 'f') || ('A' ≤ c && c ≤ 'F')

/-- The number of characters up to the closing mark, with it. A doubled mark closes nothing. -/
def quotedLength? (mark : Char) : List Char → Option Nat
  | [] => none
  | [c] => if c = mark then some 1 else none
  | c :: next :: rest =>
    if c = mark then
      if next = mark then (quotedLength? mark rest).map (· + 2) else some 1
    else (quotedLength? mark (next :: rest)).map (· + 1)

/-- The number of characters of a comment behind its opening marks. One that is not closed goes on
to the end. -/
def commentLength : List Char → Nat
  | '*' :: '/' :: _ => 2
  | _ :: rest => commentLength rest + 1
  | [] => 0

/-- A token between quotation marks, behind the first one. -/
def quoted (kind : TokenKind) (mark : Char) (rest : List Char) : TokenKind × Nat :=
  match quotedLength? mark rest with
  | some n => (kind, n)
  | none => (.illegal, rest.length)

/-- The number of characters of an exponent. -/
def exponentLength : List Char → Nat
  | e :: c :: rest =>
    let digits (cs : List Char) : Nat := spanLength (fun c => c.isDigit || c = '_') cs
    if e = 'e' ∨ e = 'E' then
      if c.isDigit then digits (c :: rest) + 1
      else if (c = '+' ∨ c = '-') ∧ rest.head?.any Char.isDigit then digits rest + 2
      else 0
    else 0
  | _ => 0

/-- The number of characters of a number in base sixteen, if there is one. -/
def hexLength? : List Char → Option Nat
  | '0' :: x :: h :: rest =>
    if (x = 'x' ∨ x = 'X') ∧ isHexDigit h then
      some (3 + spanLength (fun c => isHexDigit c || c = '_') rest)
    else none
  | _ => none

/-- The number of characters of a number in base ten. -/
def decimalLength (cs : List Char) : Nat :=
  let isPart (c : Char) : Bool := c.isDigit || c = '_'
  let whole := spanLength isPart cs
  let fraction := match cs.drop whole with
    | '.' :: rest => 1 + spanLength isPart rest
    | _ => 0
  whole + fraction + exponentLength (cs.drop (whole + fraction))

/-- A number, from its first character on. A name may not follow it without a blank. -/
def numeral (cs : List Char) : TokenKind × Nat :=
  let length := (hexLength? cs).getD (decimalLength cs)
  let more := spanLength isNameChar (cs.drop length)
  (if more = 0 then .number else .illegal, length + more - 1)

/-- Bytes in hexadecimal digits, behind the opening apostrophe. -/
def byteString (rest : List Char) : TokenKind × Nat :=
  let digits := spanLength isHexDigit rest
  match rest.drop digits with
  | '\'' :: _ => (if digits % 2 = 0 then .bytes else .illegal, digits + 1)
  | tail =>
    let skipped := spanLength (· ≠ '\'') tail
    (.illegal, digits + skipped + if skipped < tail.length then 1 else 0)

/-- A mark with a name, behind its first character. -/
def namedMark (rest : List Char) : TokenKind × Nat :=
  let n := spanLength isNameChar rest
  (if n = 0 then .illegal else .mark, n)

/-- The kind of the token that begins with a character, and how many characters more it has. -/
def lexeme (c : Char) (rest : List Char) : TokenKind × Nat :=
  let next := rest.head?
  let symbol (others : List Char) : TokenKind × Nat :=
    (.symbol, if next.any (others.contains ·) then 1 else 0)
  match c with
  | ' ' | '\t' | '\n' | '\x0c' | '\r' => (.blank, spanLength isBlank rest)
  | '\uFEFF' => (.blank, 0)
  | '\'' => quoted .text '\'' rest
  | '"' => quoted .quotedName '"' rest
  | '\x60' => quoted .quotedName '\x60' rest
  | '[' =>
    let n := spanLength (· ≠ ']') rest
    if n < rest.length then (.quotedName, n + 1) else (.illegal, n)
  | '-' =>
    match rest with
    | '-' :: rest => (.blank, 1 + spanLength (· ≠ '\n') rest)
    | '>' :: '>' :: _ => (.symbol, 2)
    | '>' :: _ => (.symbol, 1)
    | _ => (.symbol, 0)
  | '/' =>
    match rest with
    | '*' :: d :: rest => (.blank, 1 + commentLength (d :: rest))
    | _ => (.symbol, 0)
  | '=' => symbol ['=']
  | '<' => symbol ['=', '>', '<']
  | '>' => symbol ['=', '>']
  | '|' => symbol ['|']
  | '!' => if next = some '=' then (.symbol, 1) else (.illegal, 0)
  | '(' | ')' | ';' | '+' | '*' | '%' | ',' | '&' | '~' => (.symbol, 0)
  | '?' => (.mark, spanLength Char.isDigit rest)
  | '$' | '@' | ':' | '#' => namedMark rest
  | '.' => if next.any Char.isDigit then numeral (c :: rest) else (.symbol, 0)
  | c =>
    if c.isDigit then numeral (c :: rest)
    else if (c = 'x' ∨ c = 'X') ∧ next = some '\'' then
      let (kind, n) := byteString (rest.drop 1)
      (kind, n + 1)
    else if isNameChar c then (.word, spanLength isNameChar rest)
    else (.illegal, 0)

/-- The tokens of a text that begins at an offset. -/
def ofChars (offset : Nat) : List Char → List Token
  | [] => []
  | c :: rest =>
    let (kind, more) := lexeme c rest
    let text := String.ofList (c :: rest.take more)
    ⟨kind, text, offset⟩ :: ofChars (offset + text.utf8ByteSize) (rest.drop more)
  termination_by cs => cs.length
  decreasing_by simp only [List.length_drop, List.length_cons]; omega

/-- The tokens of a text put together are the text. -/
theorem flatMap_ofChars (offset : Nat) (cs : List Char) :
    (ofChars offset cs).flatMap (·.text.toList) = cs := by
  fun_induction ofChars offset cs with
  | case1 => rfl
  | case2 offset c rest kind more h text ih =>
    rw [List.flatMap_cons, ih, String.toList_ofList, List.cons_append, List.take_append_drop]

/-- The tokens of a text. -/
def ofText (text : String) : List Token := ofChars 0 (text.toList.takeWhile (· ≠ '\x00'))

/-- The tokens of a text that have a meaning. -/
def meaningful (text : String) : List Token := (ofText text).filter (·.kind ≠ .blank)

/-- A text with one apostrophe for two. -/
def undouble : List Char → List Char
  | [] => []
  | [c] => [c]
  | c :: next :: rest =>
    if c = '\'' ∧ next = '\'' then c :: undouble rest else c :: undouble (next :: rest)

/-- What a token stands for: the text between its quotation marks, in which a doubled apostrophe
counts as one, or all of it where it has none. -/
def name (token : Token) : String :=
  if token.kind = .text ∨ token.kind = .quotedName then
    String.ofList (undouble (token.text.toList.drop 1).dropLast)
  else token.text

/-- Whether a token is a certain symbol. -/
def isSymbol (token : Token) (symbol : String) : Bool := token.kind = .symbol && token.text = symbol

/-- Whether a token is a certain keyword, given in capitals. -/
def isKeyword (token : Token) (keyword : String) : Bool :=
  token.kind = .word && token.text.map Char.toUpper = keyword

end Token

end ResourceApi.Sql
