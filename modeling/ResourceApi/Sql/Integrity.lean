import ResourceApi.Sql.Database

/-!
# Integrity

What a database requires of its rows. Constraints on one row are checked as it is written, in a
fixed order: columns that cannot be null, enumerations, then keys that cannot occur twice. The
assigned primary key comes first among these, then the others from the last declared to the
first. References are checked once a statement is done.
-/

namespace ResourceApi

namespace ColumnDefinition

/-- Whether a column accepts a value, as far as null is concerned. -/
def acceptsNull (c : ColumnDefinition) (v : SqlValue) : Bool :=
  v != .null || !c.constraints.contains .notNull

/-- Whether a value is one that a constraint enumerates. An enumeration of nothing refuses even
null. -/
def enumerated (c : ColumnDefinition) (v : SqlValue) : Constraint → Bool
  | .oneOf [] => false
  | .oneOf values => v == .null || values.any fun s => v.equals (c.affinity.convert (.text s))
  | _ => true

/-- Whether a value is one that the column enumerates. -/
def acceptsValue (c : ColumnDefinition) (v : SqlValue) : Bool := c.constraints.all (c.enumerated v)

/-- Whether a constraint makes the column a key. -/
def isKey (c : ColumnDefinition) : Bool :=
  c.constraints.any fun k => k matches .primaryKey | .unique

end ColumnDefinition

namespace Table

/-- The keys that cannot occur twice, in the order in which they are checked. -/
def uniqueKeys (t : Table) : List (List String) :=
  let declared := (t.definition.columns.filter (·.isKey)).map fun c => [c.name]
  let composite := if t.definition.compositeKey.isEmpty then [] else [t.definition.compositeKey]
  t.assignedKey?.toList.map (fun key => [key]) ++ (declared ++ composite).reverse

/-- Whether two rows have the same key. Null is never the same. -/
def sameKey (key : List String) (a b : Tuple) : Bool := key.all fun c => (a.get c).equals (b.get c)

/-- Checks a row that is written beside others. -/
def check (t : Table) (others : List Tuple) (row : Tuple) : Except Violation Unit :=
  match t.definition.columns.find? fun c => !c.acceptsNull (row.get c.name) with
  | some c => .error (.notNull t.name c.name)
  | none =>
    match t.definition.columns.find? fun c => !c.acceptsValue (row.get c.name) with
    | some c => .error (.oneOf c.name)
    | none =>
      match t.uniqueKeys.find? fun key => others.any (sameKey key row) with
      | some key => .error (.unique t.name key)
      | none => .ok ()

end Table

namespace Database

variable (db : Database)

/-- Whether a value refers to a row. -/
def refers (v : SqlValue) (table column : String) (target : Tuple) : Bool :=
  (target.get column).equals ((db.affinity table column).convert v)

/-- Whether a value satisfies a constraint, as far as it is a reference. -/
def referenceHolds (v : SqlValue) : Constraint → Bool
  | .references table column _ => v == .null || (db.rows table).any (db.refers v table column)
  | _ => true

/-- Whether every reference of a row leads to a row. -/
def rowReferencesHold (t : Table) (row : Tuple) : Bool :=
  t.definition.columns.all fun c => c.constraints.all (db.referenceHolds (row.get c.name))

/-- Whether every reference leads to a row. -/
def referencesHold : Bool := db.tables.all fun t => t.rows.all (db.rowReferencesHold t)

/-- Accepts a database whose references hold. -/
def checkReferences : Except Violation Database :=
  if db.referencesHold then .ok db else .error .foreignKey

end Database

end ResourceApi
