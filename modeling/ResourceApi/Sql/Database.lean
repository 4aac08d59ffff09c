import ResourceApi.Sql.Compare
import ResourceApi.Sql.Token
import ResourceApi.Sql.Violation

/-!
# Databases

A database is a list of tables with their rows. A row holds a value for every column of its
table. The rows of a table whose primary key is assigned by the store stand in the order of that
key, all others in the order in which they were inserted.
-/

namespace ResourceApi

/-- A row of a table: the values of its columns, by name. -/
abbrev Tuple := List (String × SqlValue)

namespace Tuple

/-- The value of a column. -/
def get (t : Tuple) (column : String) : SqlValue :=
  match t.find? (·.1 = column) with
  | some (_, v) => v
  | none => .null

/-- Sets the value of a column that the row has. -/
def set (t : Tuple) (column : String) (v : SqlValue) : Tuple :=
  t.map fun (c, old) => (c, if c = column then v else old)

theorem columns_set (t : Tuple) (column : String) (v : SqlValue) :
    (t.set column v).map (·.1) = t.map (·.1) := by
  simp [set, Function.comp_def]

theorem get_set_self {t : Tuple} {column : String} (h : column ∈ t.map (·.1)) (v : SqlValue) :
    (t.set column v).get column = v := by
  induction t with
  | nil => simp at h
  | cons m rest ih =>
    obtain ⟨c, old⟩ := m
    by_cases hc : c = column
    · simp [set, get, hc]
    · have hr : column ∈ rest.map (·.1) := by simpa [Ne.symm hc] using h
      simpa [set, get, hc] using ih hr

theorem get_set_of_ne {column other : String} (h : column ≠ other) (t : Tuple) (v : SqlValue) :
    (t.set column v).get other = t.get other := by
  induction t with
  | nil => rfl
  | cons m rest ih =>
    obtain ⟨c, old⟩ := m
    by_cases hc : c = other
    · have : ¬ c = column := fun e => h (e ▸ hc)
      simp [set, get, hc, Ne.symm h]
    · simpa [set, get, hc] using ih

end Tuple

/-- A table with its rows. -/
structure Table where
  definition : TableDefinition
  rows : List Tuple := []
  /-- The largest primary key that the store has ever kept, where it assigns the key. -/
  lastKey : Int := 0
  deriving DecidableEq, Repr

namespace Table

/-- The name of the table. -/
def name (t : Table) : String := t.definition.name

/-- The definition of a column. -/
def column? (t : Table) (name : String) : Option ColumnDefinition :=
  t.definition.columns.find? (·.name = name)

/-- The storage type of a column. -/
def affinity (t : Table) (column : String) : Affinity :=
  match t.column? column with
  | some c => c.affinity
  | none => .text

/-- The column whose values the store assigns. -/
def assignedKey? (t : Table) : Option String :=
  (t.definition.columns.find? (.assignedKey ∈ ·.constraints)).map (·.name)

end Table

/-! ## Creating tables -/

namespace TableDefinition

/-- How the names begin that a database keeps for itself. -/
def reservedStart : String := "sqlite_"

/-- The largest number of columns. -/
def maxColumns : Nat := 2000

/-- Whether a column enumerates a text that ends the text of the statement. -/
def endsStatement (c : ColumnDefinition) : Bool :=
  c.constraints.any fun
    | .oneOf values => values.any (·.contains '\x00')
    | _ => false

/-- The token in which the text of the definition ends. -/
def brokenToken (t : TableDefinition) : Violation :=
  match (Sql.Token.ofText t.sql).find? (·.kind = .illegal) with
  | some token => .unrecognized token.text t.sql token.offset
  | none => .incomplete

/-- Why columns cannot follow others in a table. The names of columns matter only where the table is
new. -/
def columnsFault? (t : TableDefinition) (isNew : Bool) (seen : List String) :
    List ColumnDefinition → Option Violation
  | [] => none
  | c :: rest =>
    if isNew && maxColumns ≤ seen.length then some (.tooManyColumns t.name)
    else if isNew && seen.contains c.name then some (.duplicateColumn c.name)
    else if endsStatement c then some t.brokenToken
    else t.columnsFault? isNew (c.name :: seen) rest

/-- Why a table cannot be created. -/
def fault? (t : TableDefinition) (isNew : Bool) : Option Violation :=
  if reservedStart.isPrefixOf t.name then some (.reservedName t.name)
  else t.columnsFault? isNew [] t.columns

end TableDefinition

/-- A database. -/
structure Database where
  tables : List Table
  deriving DecidableEq, Repr

namespace Database

/-- A database without tables. -/
def empty : Database := ⟨[]⟩

/-- The table of a name. -/
def table? (db : Database) (name : String) : Option Table := db.tables.find? (·.name = name)

/-- The rows of a table. -/
def rows (db : Database) (table : String) : List Tuple :=
  match db.table? table with
  | some t => t.rows
  | none => []

/-- The storage type of a column of a table. -/
def affinity (db : Database) (table column : String) : Affinity :=
  match db.table? table with
  | some t => t.affinity column
  | none => .text

/-- The names of the columns of a table. -/
def columnsOf (db : Database) (table : String) : List String :=
  ((db.table? table).map (·.definition.columns.map (·.name))).getD []

/-- Changes the table of a name. -/
def modify (db : Database) (table : String) (f : Table → Table) : Database :=
  ⟨db.tables.map fun t => if t.name = table then f t else t⟩

/-- Adds a table, unless there is one of its name. -/
def create (db : Database) (definition : TableDefinition) : Except Violation Database :=
  let isNew := (db.table? definition.name).isNone
  match definition.fault? isNew with
  | some v => .error v
  | none => .ok (if isNew then ⟨db.tables ++ [{ definition }]⟩ else db)

/-- Adds tables one after the other. -/
def createAll (db : Database) (definitions : List TableDefinition) : Except Violation Database :=
  definitions.foldlM create db

end Database

end ResourceApi
