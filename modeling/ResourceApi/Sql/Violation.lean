import ResourceApi.Store.StoreError

/-!
# Violations

Why a database does not do what a statement asks for: the statement cannot be read, or it names
what is not there, or it breaks a rule that the database holds its rows to. Only violated keys and
references are conflicts between a request and the rows; all else is a failure of the database.
-/

namespace ResourceApi

/-- A list in a statement that has a bound. -/
inductive TermList where
  /-- The columns of a result. -/
  | result
  /-- The columns that are set. -/
  | assigned
  /-- The values to sort by. -/
  | order
  deriving DecidableEq, Repr

/-- What a list holds, in words. -/
def TermList.name : TermList → String
  | result => "columns in result set"
  | assigned => "columns in set list"
  | order => "terms in ORDER BY clause"

/-- Why a statement is refused or undone. -/
inductive Violation where
  | unique (table : String) (columns : List String)
  | foreignKey
  /-- A reference leads to a column that does not identify rows. -/
  | mismatch (table target : String)
  | notNull (table column : String)
  | oneOf (column : String)
  /-- The value for an assigned primary key is no integer. -/
  | keyType
  /-- The largest primary key has been assigned. -/
  | keysExhausted
  | noTable (name : String)
  /-- A row is inserted with a column that the table does not have. -/
  | noColumn (table column : String)
  /-- A column is set that the table does not have. -/
  | unknownColumn (column : String)
  /-- A name in the text of a statement stands for nothing. -/
  | unresolved (name sql : String) (offset : Nat)
  /-- A token of a statement cannot stand where it stands. -/
  | unexpected (token sql : String) (offset : Nat)
  /-- A part of a statement is no token. -/
  | unrecognized (token sql : String) (offset : Nat)
  /-- The text of a statement ends too early. -/
  | incomplete
  /-- A statement has more values than there are places for. -/
  | tooManyValues (sql : String) (offset : Nat)
  /-- A function has more arguments than it may have. -/
  | tooManyArguments (function sql : String) (offset : Nat)
  /-- A list in a statement has too many members. -/
  | tooManyTerms (terms : TermList)
  /-- The expressions of a statement are nested too deeply. -/
  | tooDeep
  /-- An object is built from a key without a value. -/
  | oddObject
  /-- A key of an object is no text. -/
  | keyNotText
  /-- A table has a name that the database keeps for itself. -/
  | reservedName (name : String)
  | duplicateColumn (name : String)
  | tooManyColumns (table : String)
  deriving DecidableEq, Repr

namespace Violation

/-- The violation in words. -/
def message : Violation → String
  | unique table columns =>
    "UNIQUE constraint failed: " ++ ", ".intercalate (columns.map fun c => s!"{table}.{c}")
  | foreignKey => "FOREIGN KEY constraint failed"
  | mismatch table target => s!"foreign key mismatch - \"{table}\" referencing \"{target}\""
  | notNull table column => s!"NOT NULL constraint failed: {table}.{column}"
  | oneOf column => s!"CHECK constraint failed: {column}"
  | keyType => "datatype mismatch"
  | keysExhausted => "database or disk is full"
  | noTable name => s!"no such table: {name}"
  | noColumn table column => s!"table {table} has no column named {column}"
  | unknownColumn column => s!"no such column: {column}"
  | unresolved name sql offset => s!"no such column: {name} in {sql} at offset {offset}"
  | unexpected token sql offset => s!"near \"{token}\": syntax error in {sql} at offset {offset}"
  | unrecognized token sql offset => s!"unrecognized token: \"{token}\" in {sql} at offset {offset}"
  | incomplete => "incomplete input"
  | tooManyValues sql offset => s!"too many SQL variables in {sql} at offset {offset}"
  | tooManyArguments function sql offset =>
    s!"too many arguments on function {function} in {sql} at offset {offset}"
  | tooManyTerms terms => s!"too many {terms.name}"
  | tooDeep => "Expression tree is too large (maximum depth 1000)"
  | oddObject => "json_object() requires an even number of arguments"
  | keyNotText => "json_object() labels must be TEXT"
  | reservedName name => s!"object name reserved for internal use: {name}"
  | duplicateColumn name => s!"duplicate column name: {name}"
  | tooManyColumns table => s!"too many columns on {table}"

/-- The violation as a failure of the store. -/
def toStoreError (v : Violation) : StoreError :=
  match v with
  | unique .. => .uniqueViolation v.message
  | foreignKey => .foreignKeyViolation v.message
  | _ => .database v.message

end Violation

end ResourceApi
