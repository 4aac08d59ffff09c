import ResourceApi.Schema.Registry

/-!
# Table definitions

A registry is stored in one table per schema and one per join table. A `TableDefinition` lists
columns with their constraints in the order in which they are written; `sql` is its text.

References follow deletions: a key in a row becomes null when the row it refers to is deleted,
and a row of a join table is deleted along with either end.
-/

namespace ResourceApi

/-- The storage type of a column. -/
inductive Affinity where
  | text
  | integer
  | real
  deriving DecidableEq, Repr

namespace Affinity

/-- The name of a storage type. -/
def sql : Affinity → String
  | text => "TEXT"
  | integer => "INTEGER"
  | real => "REAL"

/-- The storage type of a primary key. -/
def ofKey : KeyType → Affinity
  | .uuid => text
  | .integer => integer

/-- The storage type of an attribute. -/
def ofAttribute : AttributeType → Affinity
  | .integer | .boolean => integer
  | .float => real
  | .string | .text | .datetime | .uuid | .enum _ => text

end Affinity

/-- What happens to a row when the row it refers to is deleted. -/
inductive OnDelete where
  | setNull
  | cascade
  deriving DecidableEq, Repr

/-- The name of an action. -/
def OnDelete.sql : OnDelete → String
  | setNull => "SET NULL"
  | cascade => "CASCADE"

/-- A constraint on a column. -/
inductive Constraint where
  | primaryKey
  /-- The primary key is an integer that the store assigns and never assigns again. -/
  | assignedKey
  | notNull
  | unique
  | oneOf (values : List String)
  | references (table column : String) (onDelete : OnDelete)
  deriving DecidableEq, Repr

/-- A column of a table. -/
structure ColumnDefinition where
  name : String
  affinity : Affinity
  constraints : List Constraint
  deriving DecidableEq, Repr

/-- A table. -/
structure TableDefinition where
  name : String
  columns : List ColumnDefinition
  /-- The columns of a primary key that spans several; empty otherwise. -/
  compositeKey : List String := []
  deriving DecidableEq, Repr

namespace Sql

/-- A name in double quotes. -/
def name (s : String) : String := "\"" ++ s ++ "\""

/-- A text literal: in single quotes, with every quote in it doubled. -/
def literal (s : String) : String :=
  "'" ++ String.ofList (s.toList.flatMap fun c => if c = '\'' then ['\'', '\''] else [c]) ++ "'"

end Sql

namespace Constraint

/-- The text of a constraint on a column. -/
def sql (column : String) : Constraint → String
  | primaryKey => "PRIMARY KEY"
  | assignedKey => "PRIMARY KEY AUTOINCREMENT"
  | notNull => "NOT NULL"
  | unique => "UNIQUE"
  | oneOf values =>
    "CHECK (" ++ Sql.name column ++ " IN (" ++ ", ".intercalate (values.map Sql.literal) ++ "))"
  | references table target onDelete =>
    "REFERENCES " ++ Sql.name table ++ " (" ++ Sql.name target ++ ") ON DELETE " ++ onDelete.sql

end Constraint

namespace ColumnDefinition

/-- The text of a column. -/
def sql (c : ColumnDefinition) : String :=
  " ".intercalate (Sql.name c.name :: c.affinity.sql :: c.constraints.map (·.sql c.name))

end ColumnDefinition

namespace TableDefinition

/-- The statement that creates a table. -/
def sql (t : TableDefinition) : String :=
  let key := if t.compositeKey.isEmpty then []
    else ["PRIMARY KEY (" ++ ", ".intercalate (t.compositeKey.map Sql.name) ++ ")"]
  "CREATE TABLE IF NOT EXISTS " ++ Sql.name t.name ++ " ("
    ++ ", ".intercalate (t.columns.map (·.sql) ++ key) ++ ")"

end TableDefinition

namespace Attribute

/-- The constraints that a declared attribute puts on its column. -/
def constraints (a : Attribute) : List Constraint :=
  (if a.nullable then [] else [.notNull]) ++ (if a.unique then [.unique] else [])
    ++ match a.type with
      | .enum values => [.oneOf values]
      | _ => []

end Attribute

namespace Schema

/-- The column of the primary key. -/
def keyDefinition (s : Schema) : ColumnDefinition :=
  ⟨s.idColumn, .ofKey s.idType,
    match s.idType with
    | .uuid => [.primaryKey, .notNull]
    | .integer => [.assignedKey]⟩

end Schema

namespace Registry

/-- The column of a key that an association needs. -/
def foreignKeyDefinition (k : ForeignKey) : ColumnDefinition :=
  ⟨columnName k.field, .ofKey k.references.idType,
    [.references k.references.tableName k.references.idColumn .setNull]⟩

/-- The table of a schema. -/
def tableOf (r : Registry) (schema : Schema) : TableDefinition :=
  { name := schema.tableName
    columns := schema.keyDefinition
      :: schema.attributes.map (fun a => ⟨columnName a.name, .ofAttribute a.type, a.constraints⟩)
      ++ (r.foreignKeysOf schema).map foreignKeyDefinition }

/-- A column of a join table. -/
def joinColumn (key : String) (schema : Schema) : ColumnDefinition :=
  ⟨columnName key, .ofKey schema.idType,
    [.notNull, .references schema.tableName schema.idColumn .cascade]⟩

/-- The join table of an association. -/
def joinTableOf (a : Association) (join : JoinTable) : TableDefinition :=
  { name := join.table
    columns := [joinColumn join.sourceKey a.source, joinColumn join.targetKey a.target]
    compositeKey := [columnName join.sourceKey, columnName join.targetKey] }

/-- Every table: one for each schema, then one for each join table. -/
def tables (r : Registry) : List TableDefinition :=
  r.schemas.map r.tableOf ++ r.joinAssociations.map fun (a, join) => joinTableOf a join

end Registry

end ResourceApi
