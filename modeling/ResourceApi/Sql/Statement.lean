import ResourceApi.Double.Stored
import ResourceApi.Query.Plan
import ResourceApi.Sql.Definition
import ResourceApi.Sql.Value

/-!
# Statements

The part of SQL that the store uses, as data. Every table that a statement reads has a numbered
alias, written `t0`, `t1`, …; a column is named together with the alias of its table. `text` of
a statement is its SQL, with a question mark for every value, and `params` lists the values in
the order of their marks.
-/

namespace ResourceApi

/-- A column of an aliased table. -/
structure ColumnRef where
  table : Nat
  column : String
  deriving DecidableEq, Repr

/-- A comparison of a column with a value. -/
inductive Comparison where
  | eq
  | ne
  | gt
  | gte
  | lt
  | lte
  | like
  deriving DecidableEq, Repr

/-- What ties the rows of an association together. -/
inductive JoinCondition where
  /-- A key equals a primary key. -/
  | equal (left right : ColumnRef)
  /-- A primary key is the target key of a join row that has the parent's key as source key. -/
  | through (member : ColumnRef) (table : String) (aliasId : Nat) (targetKey sourceKey : String)
    (parent : ColumnRef)
  deriving DecidableEq, Repr

/-- A condition on rows. -/
inductive RowCondition where
  | always
  | never
  /-- A conjunction of at least one condition. -/
  | all (children : List RowCondition)
  /-- A disjunction of at least one condition. -/
  | any (children : List RowCondition)
  | isNull (column : ColumnRef)
  | isNotNull (column : ColumnRef)
  | compare (column : ColumnRef) (comparison : Comparison) (value : SqlValue)
  | among (column : ColumnRef) (values : List SqlValue)
  | notAmong (column : ColumnRef) (values : List SqlValue)
  /-- A pattern matches, in any case. -/
  | ilike (column : ColumnRef) (value : SqlValue)
  /-- A row of another table is tied to this one and meets a condition. -/
  | hasRelated (table : String) (aliasId : Nat) (join : JoinCondition) (condition : RowCondition)
  deriving Repr, Inhabited

/-- A value to sort by: a column of the row, or of the first row tied to it. -/
inductive SortValue where
  | column (column : ColumnRef)
  | related (value : SortValue) (table : String) (aliasId : Nat) (join : JoinCondition)
  deriving Repr

/-- What a member of a JSON object holds. -/
inductive MemberValue where
  | column (column : ColumnRef)
  | constant (value : SqlValue)
  deriving DecidableEq, Repr

/-- Why an object cannot be built from its keys and values. -/
inductive ObjectFault where
  /-- The last key has no value. -/
  | odd
  /-- A key is no text. -/
  | keyNotText
  deriving DecidableEq, Repr

/-- A query for related rows as JSON: one object, or an array of them. -/
inductive RelatedQuery where
  | mk (many : Bool) (fields : List (String × MemberValue)) (nested : List (String × RelatedQuery))
    (fault : Option ObjectFault) (table : String) (aliasId : Nat) (join : JoinCondition)
  deriving Repr

/-- A query for rows. -/
structure SelectQuery where
  table : String
  aliasId : Nat
  columns : List ColumnRef
  related : List RelatedQuery
  condition : Option RowCondition
  order : List (SortValue × Direction)
  limit : Option Nat
  offset : Option Nat
  deriving Repr

/-- A query for the primary keys of the rows that meet a condition. -/
structure KeyQuery where
  table : String
  aliasId : Nat
  column : String
  condition : Option RowCondition
  deriving Repr

/-- A condition on the rows of the table that a statement changes. -/
inductive Guard where
  | equals (column : String) (value : SqlValue)
  | among (column : String) (values : List SqlValue)
  | notAmong (column : String) (values : List SqlValue)
  deriving DecidableEq, Repr

/-- A statement. -/
inductive Statement where
  | select (query : SelectQuery)
  | count (query : KeyQuery)
  /-- Inserts a row and answers it as stored. -/
  | insert (table : String) (values : List (String × SqlValue))
  /-- Sets columns in the rows whose keys a query gives. -/
  | update (rows : KeyQuery) (values : List (String × SqlValue))
  | delete (rows : KeyQuery)
  /-- Answers those of some keys that are present. -/
  | present (table column : String) (keys : List SqlValue)
  /-- Sets a key in every row that meets all guards; without a value, to null. -/
  | setKey (table column : String) (value : Option SqlValue) (guards : List Guard)
  | deleteLinks (table sourceKey : String) (parent : SqlValue)
  /-- Inserts the links of a parent that are not there yet. -/
  | insertLinks (table sourceKey targetKey : String) (parent : SqlValue) (targets : List SqlValue)
  deriving Repr

/-! ## Texts -/

namespace Sql

/-- The name of a numbered alias. -/
def aliasId (n : Nat) : String := name ("t" ++ toString n)

/-- A table with its alias. -/
def aliased (table : String) (n : Nat) : String := name table ++ " AS " ++ aliasId n

/-- A mark for a value. -/
def mark : String := "?"

/-- Marks for several values, in parentheses. -/
def marks {α : Type} (values : List α) : String :=
  "(" ++ ", ".intercalate (values.map fun _ => mark) ++ ")"

end Sql

open Sql (name mark marks aliased)

/-- The text of a column. -/
def ColumnRef.sql (c : ColumnRef) : String := Sql.aliasId c.table ++ "." ++ name c.column

/-- The text of a value. -/
def SqlValue.sql : SqlValue → String
  | null => "NULL"
  | integer i => toString i
  | real d => d.storedText
  | text s => Sql.literal s
  | blob bytes =>
    "x'" ++ String.ofList (bytes.flatMap fun b =>
      [Json.hexDigit (b.toNat / 16), Json.hexDigit b.toNat]) ++ "'"

/-- The text of what a member holds. -/
def MemberValue.sql : MemberValue → String
  | column c => c.sql
  | constant v => v.sql

/-- The symbol of a comparison. -/
def Comparison.sql : Comparison → String
  | eq => "="
  | ne => "<>"
  | gt => ">"
  | gte => ">="
  | lt => "<"
  | lte => "<="
  | like => "LIKE"

/-- The text of a join condition. -/
def JoinCondition.sql : JoinCondition → String
  | equal left right => left.sql ++ " = " ++ right.sql
  | through member table aliasId targetKey sourceKey parent =>
    member.sql ++ " IN (SELECT " ++ (ColumnRef.mk aliasId targetKey).sql ++ " FROM "
      ++ aliased table aliasId ++ " WHERE " ++ (ColumnRef.mk aliasId sourceKey).sql ++ " = "
      ++ parent.sql ++ ")"

namespace RowCondition

mutual

/-- The text of a condition. -/
def sql : RowCondition → String
  | always => "1 = 1"
  | never => "1 = 0"
  | all children => "(" ++ " AND ".intercalate (sqls children) ++ ")"
  | any children => "(" ++ " OR ".intercalate (sqls children) ++ ")"
  | isNull column => column.sql ++ " IS NULL"
  | isNotNull column => column.sql ++ " IS NOT NULL"
  | compare column comparison _ => column.sql ++ " " ++ comparison.sql ++ " " ++ mark
  | among column values => column.sql ++ " IN " ++ marks values
  | notAmong column values => column.sql ++ " NOT IN " ++ marks values
  | ilike column _ => "LOWER(" ++ column.sql ++ ") LIKE LOWER(" ++ mark ++ ")"
  | hasRelated table aliasId join condition =>
    "EXISTS (SELECT 1 FROM " ++ aliased table aliasId ++ " WHERE " ++ join.sql ++ " AND "
      ++ sql condition ++ ")"

/-- The texts of several conditions. -/
def sqls : List RowCondition → List String
  | [] => []
  | c :: rest => sql c :: sqls rest

end

mutual

/-- The values of a condition, in the order of their marks. -/
def params : RowCondition → List SqlValue
  | always | never | isNull _ | isNotNull _ => []
  | all children | any children => paramsOf children
  | compare _ _ value | ilike _ value => [value]
  | among _ values | notAmong _ values => values
  | hasRelated _ _ _ condition => params condition

/-- The values of several conditions. -/
def paramsOf : List RowCondition → List SqlValue
  | [] => []
  | c :: rest => params c ++ paramsOf rest

end

/-- The text of an optional condition behind a table. -/
def clause : Option RowCondition → String
  | none => ""
  | some c => " WHERE " ++ c.sql

end RowCondition

/-- The text of a value to sort by. -/
def SortValue.sql : SortValue → String
  | column c => c.sql
  | related value table aliasId join =>
    "(SELECT " ++ value.sql ++ " FROM " ++ aliased table aliasId ++ " WHERE " ++ join.sql
      ++ " LIMIT 1)"

namespace RelatedQuery

/-- The text of a query for related rows up to the members of their objects. -/
def opening (many : Bool) : String :=
  "(SELECT " ++ (if many then "json_group_array(" else "") ++ "json_object("

/-- The text of a query for related rows behind the bracket that closes their objects. -/
def closing (many : Bool) (table : String) (aliasId : Nat) (join : JoinCondition) : String :=
  (if many then ")" else "") ++ " FROM " ++ aliased table aliasId ++ " WHERE " ++ join.sql
    ++ (if many then ")" else " LIMIT 1)")

mutual

/-- The text of a query for related rows. -/
def sql : RelatedQuery → String
  | mk many fields nested _ table aliasId join =>
    opening many
      ++ ", ".intercalate (fields.map (fun (key, v) => "'" ++ key ++ "', " ++ v.sql) ++ sqls nested)
      ++ ")" ++ closing many table aliasId join

/-- The texts of the members that hold related rows. -/
def sqls : List (String × RelatedQuery) → List String
  | [] => []
  | (key, query) :: rest => ("'" ++ key ++ "', json(" ++ sql query ++ ")") :: sqls rest

end

end RelatedQuery

namespace SelectQuery

/-- The largest number that is read as an integer. -/
def maxBound : Nat := 0x7fffffffffffffff

/-- The text of the window. -/
def window (limit offset : Option Nat) : String :=
  let bound (n : Nat) : String := toString (min n maxBound)
  match limit, offset with
  | some limit, some offset => " LIMIT " ++ bound limit ++ " OFFSET " ++ bound offset
  | some limit, none => " LIMIT " ++ bound limit
  | none, some offset => " LIMIT -1 OFFSET " ++ bound offset
  | none, none => ""

/-- The text of the columns of a query. -/
def selection (q : SelectQuery) : String := "SELECT " ++ ", ".intercalate (q.columns.map (·.sql))

/-- The text of a query behind what it asks for. -/
def source (q : SelectQuery) : String :=
  let order := q.order.map fun (value, direction) =>
    value.sql ++ match direction with
      | .asc => " ASC"
      | .desc => " DESC"
  " FROM " ++ aliased q.table q.aliasId ++ RowCondition.clause q.condition
    ++ (if order.isEmpty then "" else " ORDER BY " ++ ", ".intercalate order)
    ++ window q.limit q.offset

/-- The text of a query. -/
def sql (q : SelectQuery) : String :=
  q.selection ++ String.join (q.related.map (", " ++ ·.sql)) ++ q.source

end SelectQuery

/-- The text of a query for keys. -/
def KeyQuery.sql (q : KeyQuery) : String :=
  "SELECT " ++ (ColumnRef.mk q.aliasId q.column).sql ++ " FROM " ++ aliased q.table q.aliasId
    ++ RowCondition.clause q.condition

namespace Guard

/-- The text of a guard. -/
def sql : Guard → String
  | equals column _ => name column ++ " = " ++ mark
  | among column values => name column ++ " IN " ++ marks values
  | notAmong column values => name column ++ " NOT IN " ++ marks values

/-- The values of a guard. -/
def params : Guard → List SqlValue
  | equals _ value => [value]
  | among _ values | notAmong _ values => values

end Guard

namespace Statement

/-- The SQL of a statement. -/
def sql : Statement → String
  | select query => query.sql
  | count query => "SELECT COUNT(*) FROM (" ++ query.sql ++ ")"
  | insert table values =>
    "INSERT INTO " ++ name table
      ++ (if values.isEmpty then " DEFAULT VALUES"
        else " (" ++ ", ".intercalate (values.map (name ·.1)) ++ ") VALUES " ++ marks values)
      ++ " RETURNING *"
  | update rows values =>
    "UPDATE " ++ name rows.table ++ " SET "
      ++ ", ".intercalate (values.map fun (column, _) => name column ++ " = " ++ mark)
      ++ " WHERE " ++ name rows.column ++ " IN (" ++ rows.sql ++ ")"
  | delete rows =>
    "DELETE FROM " ++ name rows.table ++ " WHERE " ++ name rows.column ++ " IN (" ++ rows.sql ++ ")"
  | present table column keys =>
    "SELECT " ++ name column ++ " FROM " ++ name table ++ " WHERE " ++ name column ++ " IN "
      ++ marks keys
  | setKey table column value guards =>
    "UPDATE " ++ name table ++ " SET " ++ name column ++ " = "
      ++ (if value.isSome then mark else "NULL") ++ " WHERE "
      ++ " AND ".intercalate (guards.map (·.sql))
  | deleteLinks table sourceKey _ =>
    "DELETE FROM " ++ name table ++ " WHERE " ++ name sourceKey ++ " = " ++ mark
  | insertLinks table sourceKey targetKey _ targets =>
    "INSERT OR IGNORE INTO " ++ name table ++ " (" ++ name sourceKey ++ ", " ++ name targetKey
      ++ ") VALUES " ++ ", ".intercalate (targets.map fun _ => "(" ++ mark ++ ", " ++ mark ++ ")")

/-- The values of a statement, in the order of their marks. -/
def params : Statement → List SqlValue
  | select query => (query.condition.map (·.params)).getD []
  | count query => (query.condition.map (·.params)).getD []
  | insert _ values => values.map (·.2)
  | update rows values => values.map (·.2) ++ (rows.condition.map (·.params)).getD []
  | delete rows => (rows.condition.map (·.params)).getD []
  | present _ _ keys => keys
  | setKey _ _ value guards => value.toList ++ guards.flatMap (·.params)
  | deleteLinks _ _ parent => [parent]
  | insertLinks _ _ _ parent targets => targets.flatMap fun target => [parent, target]

end Statement

end ResourceApi
