import ResourceApi.Sql.Compare
import ResourceApi.Sql.Violation
import ResourceApi.Sql.Token

/-!
# Reading queries

The keys of related rows stand in the text of a query between apostrophes, as they are. A database
knows only the text, so an apostrophe in a key ends the key there; a doubled one counts as one, and
what follows is read as SQL. `SelectQuery.read` is a query as a database reads its text, or the
first token that cannot stand where it stands.

Where no key holds an apostrophe or a null character, a query reads as it was written. Elsewhere
the keys and values of objects are read as expressions; around them the text has to be the one
that was written.
-/

namespace ResourceApi

/-- An expression among the keys and values of an object. -/
inductive Argument where
  | constant (value : SqlValue)
  | column (column : ColumnRef)
  | related (query : RelatedQuery)
  /-- An operation, whose result is a number. -/
  | computed
  deriving Repr

namespace Argument

/-- The result of an operator on two expressions. Only texts are put together. -/
def combine (operator : String) : Argument → Argument → Argument
  | .constant a, .constant b =>
    if operator = "||" then
      .constant (if a = .null ∨ b = .null then .null else .text (a.textOf ++ b.textOf))
    else .computed
  | _, _ => .computed

end Argument

/-- The keys and values of an object. -/
structure ObjectParts where
  fields : List (String × MemberValue) := []
  nested : List (String × RelatedQuery) := []
  fault : Option ObjectFault := none

namespace ObjectParts

/-- Puts a member in front. -/
def add (key : String) (value : Argument) (parts : ObjectParts) : ObjectParts :=
  match value with
  | .constant v => { parts with fields := (key, .constant v) :: parts.fields }
  | .column c => { parts with fields := (key, .column c) :: parts.fields }
  | .related q => { parts with nested := (key, q) :: parts.nested }
  | .computed => { parts with fields := (key, .constant .null) :: parts.fields }

/-- The object that keys and values in turn make up. -/
def ofPairs : List Argument → Except ObjectFault ObjectParts
  | [] => .ok {}
  | [_] => .error .odd
  | .constant (.text key) :: value :: rest => (ofPairs rest).map (·.add key value)
  | _ :: _ :: rest => do
    let _ ← ofPairs rest
    .error .keyNotText

/-- The object that some arguments make up. Where none can be built, the arguments still count. -/
def ofArguments (arguments : List Argument) : ObjectParts :=
  match ofPairs arguments with
  | .ok parts => parts
  | .error fault => arguments.foldr (add "") { fault := some fault }

end ObjectParts

namespace Sql

/-- Where a reader stands. -/
structure Cursor where
  tokens : List Token
  /-- The columns of the tables. -/
  columnsOf : String → List String
  /-- The aliases around it, the innermost first, with the columns of their tables. -/
  scope : List (Nat × List String) := []
  /-- The queries for related rows that may still come among the arguments around it. -/
  nested : List RelatedQuery := []
  /-- Names that stand for nothing, with their places. -/
  unknown : List (String × Nat) := []

/-- A reader of tokens. It fails at a token, or at the end. -/
abbrev Reader := StateT Cursor (Except (Option Token))

namespace Reader

/-- Refuses the next token. -/
def refuse {α : Type} : Reader α := do throw (← get).tokens.head?

/-- Takes the next token. -/
def next : Reader Token := do
  let cursor ← get
  match cursor.tokens with
  | [] => refuse
  | token :: rest =>
    set { cursor with tokens := rest }
    return token

/-- Whether the next token has a property. -/
def sees (p : Token → Bool) : Reader Bool := return (← get).tokens.head?.any p

/-- Takes the next token if it has a property, and tells whether it does. -/
def accepts (p : Token → Bool) : Reader Bool := do
  if ← sees p then
    let _ ← next
    return true
  else return false

/-- Takes the next token, which has to have a property. -/
def demand (p : Token → Bool) : Reader Token := do
  if ← sees p then next else refuse

/-- Takes the tokens of a text. -/
def demandText (text : String) : Reader Unit :=
  (Token.meaningful text).forM fun expected => do
    let _ ← demand fun token => token.kind = expected.kind && token.text = expected.text

/-! ## Words -/

/-- The keywords that are no names. -/
def reserved : List String :=
  ["ADD", "ALL", "ALTER", "AND", "AS", "AUTOINCREMENT", "BETWEEN", "CASE", "CHECK", "COLLATE",
   "COMMIT", "CONSTRAINT", "CREATE", "DEFAULT", "DEFERRABLE", "DELETE", "DISTINCT", "DROP", "ELSE",
   "ESCAPE", "EXISTS", "FOREIGN", "FROM", "GROUP", "HAVING", "IN", "INDEX", "INSERT", "INTO", "IS",
   "ISNULL", "JOIN", "LIMIT", "NOT", "NOTHING", "NOTNULL", "NULL", "ON", "OR", "ORDER", "PRIMARY",
   "REFERENCES", "RETURNING", "SELECT", "SET", "TABLE", "THEN", "TO", "TRANSACTION", "UNIQUE",
   "UPDATE", "USING", "VALUES", "WHEN", "WHERE"]

/-- Whether a token is a name. -/
def isName (token : Token) : Bool :=
  token.kind = .quotedName
    || (token.kind = .word && !reserved.contains (token.text.map Char.toUpper))

/-- The operators between two expressions that are symbols. -/
def binarySymbols : List String :=
  ["||", "*", "/", "%", "+", "-", "<<", ">>", "&", "|", "<", "<=", ">", ">=", "=", "==", "<>", "!=",
   "->", "->>"]

/-- The operators between two expressions that are words. -/
def binaryWords : List String := ["AND", "OR", "LIKE", "GLOB", "REGEXP", "MATCH", "ESCAPE"]

/-- Whether a token is an operator between two expressions. -/
def isBinary (token : Token) : Bool :=
  (token.kind = .symbol && binarySymbols.contains token.text)
    || binaryWords.any (token.isKeyword ·)

/-- The number of an alias. -/
def aliasNumber? (name : String) : Option Nat :=
  match name.toList with
  | 't' :: digits => Text.Numeral.natural? digits
  | _ => none

/-- The value of a number as it is written. -/
def numberValue (text : String) : SqlValue :=
  match Text.Numeral.int? text, Text.Numeral.decimal? text with
  | some i, _ => .integer i
  | none, some d => .real (.ofNumeral d.negative d.whole d.fraction d.exponent)
  | none, none => .null

/-! ## Expressions -/

/-- Notes a name that stands for nothing. -/
def unknown (name : String) (place : Nat) : Reader Argument := do
  modify fun cursor => { cursor with unknown := cursor.unknown ++ [(name, place)] }
  return .computed

/-- A column behind the name of a table. -/
def columnBehind (table : Token) : Reader Argument := do
  let column ← demand fun t => isName t || t.kind = .text
  match aliasNumber? table.name with
  | some aliasId => return .column ⟨aliasId, column.name⟩
  | none => unknown (table.name ++ "." ++ column.name) table.offset

/-- The column of a name, whatever its case, and the alias of its table. -/
def columnNamed? (name : String) (scope : List (Nat × List String)) : Option ColumnRef :=
  let lower (s : String) : String := s.map Char.toLower
  scope.findSome? fun (aliasId, columns) =>
    (columns.find? fun column => lower column = lower name).map (⟨aliasId, ·⟩)

/-- A name without a table: a column of the tables around it, from the inside out. Double quotation
marks around a name that is none make it a text. -/
def plainName (name : Token) : Reader Argument := do
  match columnNamed? name.name (← get).scope with
  | some c => return .column c
  | none =>
    if name.isKeyword "TRUE" then return .constant (.integer 1)
    else if name.isKeyword "FALSE" then return .constant (.integer 0)
    else if name.text.toList.head? = some '"' then return .constant (.text name.name)
    else unknown name.name name.offset

mutual

/-- An expression without operators around it. -/
def operand : Nat → Reader Argument
  | 0 => refuse
  | fuel + 1 => do
    if ← sees (·.kind = .text) then
      let token ← next
      if ← accepts (·.isSymbol ".") then columnBehind token
      else return .constant (.text token.name)
    else if ← sees (·.kind = .number) then return .constant (numberValue (← next).text)
    else if ← accepts fun t => t.kind = .bytes || t.kind = .mark then return .computed
    else if ← accepts (·.isKeyword "NULL") then return .constant .null
    else if ← accepts (·.isSymbol "(") then
      let a ← expression fuel
      let _ ← demand (·.isSymbol ")")
      return a
    else if ← accepts fun t => t.isKeyword "NOT" || ["+", "-", "~"].any (t.isSymbol ·) then
      let _ ← operand fuel
      return .computed
    else
      let name ← demand isName
      if ← accepts (·.isSymbol ".") then columnBehind name
      else if name.kind = .word ∧ (← accepts (·.isSymbol "(")) then call fuel name.text
      else plainName name

/-- A call of a function behind its opening bracket. -/
def call : Nat → String → Reader Argument
  | 0, _ => refuse
  | fuel + 1, function => do
    let cursor ← get
    match function, cursor.nested, cursor.tokens.take 2 with
    | "json", query :: others, [opening, select] =>
      if opening.isSymbol "(" ∧ select.isKeyword "SELECT" then
        let query ← related fuel query
        set { (← get) with nested := others }
        let _ ← demand (·.isSymbol ")")
        return .related query
      else
        let _ ← arguments fuel
        return .computed
    | _, _, _ =>
      let _ ← arguments fuel
      return .computed

/-- Arguments up to the closing bracket, which is taken. -/
def arguments : Nat → Reader (List Argument)
  | 0 => refuse
  | fuel + 1 => do
    if ← accepts (·.isSymbol ")") then return []
    else
      let arguments ← expressions fuel
      let _ ← demand (·.isSymbol ")")
      return arguments

/-- Expressions with commas between them. -/
def expressions : Nat → Reader (List Argument)
  | 0 => refuse
  | fuel + 1 => do
    let a ← expression fuel
    if ← accepts (·.isSymbol ",") then return a :: (← expressions fuel)
    else return [a]

/-- An expression with operators. -/
def expression : Nat → Reader Argument
  | 0 => refuse
  | fuel + 1 => do operations fuel (← operand fuel)

/-- The operators behind an expression, with their further operands. -/
def operations : Nat → Argument → Reader Argument
  | 0, _ => refuse
  | fuel + 1, a => do
    if ← sees isBinary then
      let operator ← next
      operations fuel (a.combine operator.text (← operand fuel))
    else if ← accepts (·.isKeyword "IS") then
      let _ ← accepts (·.isKeyword "NOT")
      if ← accepts (·.isKeyword "DISTINCT") then
        let _ ← demand (·.isKeyword "FROM")
      let _ ← operand fuel
      operations fuel .computed
    else if ← accepts fun t => t.isKeyword "ISNULL" || t.isKeyword "NOTNULL" then
      operations fuel .computed
    else if ← accepts (·.isKeyword "COLLATE") then
      let _ ← demand fun t => isName t || t.kind = .text
      operations fuel a
    else
      let negated ← accepts (·.isKeyword "NOT")
      if ← accepts (·.isKeyword "IN") then
        let _ ← demand (·.isSymbol "(")
        let _ ← arguments fuel
        operations fuel .computed
      else if ← accepts (·.isKeyword "BETWEEN") then
        let _ ← operand fuel
        let _ ← demand (·.isKeyword "AND")
        let _ ← operand fuel
        operations fuel .computed
      else if negated then
        if !(← accepts (·.isKeyword "NULL")) then
          let _ ← demand fun t => ["LIKE", "GLOB", "REGEXP", "MATCH"].any (t.isKeyword ·)
          let _ ← operand fuel
        operations fuel .computed
      else return a

/-- A query for related rows: everything but the arguments of its objects is as it was written. -/
def related : Nat → RelatedQuery → Reader RelatedQuery
  | 0, _ => refuse
  | fuel + 1, .mk many _ nested _ table aliasId join => do
    demandText (RelatedQuery.opening many)
    let outside ← get
    let scope := (aliasId, outside.columnsOf table) :: outside.scope
    set { outside with scope, nested := nested.map Prod.snd }
    let parts := ObjectParts.ofArguments (← arguments fuel)
    modify fun inside => { inside with scope := outside.scope, nested := outside.nested }
    demandText (RelatedQuery.closing many table aliasId join)
    return .mk many parts.fields parts.nested parts.fault table aliasId join

end

end Reader

end Sql

namespace RelatedQuery

/-- Whether a key reads as it is written. -/
def isPlainKey (key : String) : Bool := key.toList.all fun c => c != '\'' && c != '\x00'

mutual

/-- Whether all keys of a query for related rows read as they are written. -/
def isPlain : RelatedQuery → Bool
  | mk _ fields nested _ _ _ _ => fields.all (isPlainKey ·.1) && arePlain nested

/-- Whether all keys of some members read as they are written. -/
def arePlain : List (String × RelatedQuery) → Bool
  | [] => true
  | (key, query) :: rest => isPlainKey key && isPlain query && arePlain rest

end

end RelatedQuery

namespace SelectQuery

/-- A query as its tokens are read. -/
def reader (q : SelectQuery) (fuel : Nat) : Sql.Reader SelectQuery := do
  Sql.Reader.demandText q.selection
  let related ← q.related.mapM fun query => do
    let _ ← Sql.Reader.demand (·.isSymbol ",")
    Sql.Reader.related fuel query
  Sql.Reader.demandText q.source
  return { q with related }

/-- The violation of a text that cannot go on with a token. -/
def violationAt (sql : String) : Option Sql.Token → Violation
  | none => .incomplete
  | some token =>
    if token.kind = .illegal then .unrecognized token.text sql token.offset
    else .unexpected token.text sql token.offset

/-- A query as a database reads its text, given the columns of its tables. A query for no column is
refused at what follows. -/
def read (q : SelectQuery) (columnsOf : String → List String) : Except Violation SelectQuery :=
  if q.columns.isEmpty then
    let token := if q.related.isEmpty then "FROM" else ","
    .error (.unexpected token q.sql (Sql.placeOf token q.sql))
  else if q.related.all (·.isPlain) then .ok q
  else
    let tokens := Sql.Token.meaningful q.sql
    let scope := [(q.aliasId, columnsOf q.table)]
    match (q.reader (4 * tokens.length + 4)).run { tokens, columnsOf, scope } with
    | .ok (query, cursor) =>
      match cursor.unknown with
      | [] => .ok query
      | (name, place) :: _ => .error (.unresolved name q.sql place)
    | .error token => .error (violationAt q.sql token)

/-- A query whose keys are plain reads as it was written. -/
theorem read_of_isPlain {q : SelectQuery} (hc : q.columns ≠ [])
    (hq : q.related.all (·.isPlain) = true) (columnsOf : String → List String) :
    q.read columnsOf = .ok q := by
  simp [read, hc, hq]

end SelectQuery

end ResourceApi
