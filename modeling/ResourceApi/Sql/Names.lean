import ResourceApi.Sql.Integrity

/-!
# Names in statements

Before a statement runs, the names in it are looked up. A statement that names a column which the
table behind an alias does not have is refused, at the first such name: the columns of a query
come before its condition and the condition before its order, and a subquery for membership
comes before the column that is compared with it.

Every alias of a statement is introduced once, so the tables behind aliases are a plain list.
-/

namespace ResourceApi

/-- What a part of a statement names: the tables that its aliases stand for, and the columns in
the order in which they are looked up. -/
structure Names where
  tables : List (Nat × String)
  columns : List ColumnRef
  deriving DecidableEq, Repr

namespace Names

/-- Nothing is named. -/
def none : Names := ⟨[], []⟩

/-- The names of one part, then those of another. -/
def append (a b : Names) : Names := ⟨a.tables ++ b.tables, a.columns ++ b.columns⟩

instance : Append Names := ⟨append⟩

/-- Some columns. -/
def ofColumns (columns : List ColumnRef) : Names := ⟨[], columns⟩

/-- A table under its alias. -/
def ofTable (aliasId : Nat) (table : String) : Names := ⟨[(aliasId, table)], []⟩

end Names

/-- What a join condition names. -/
def JoinCondition.names : JoinCondition → Names
  | equal left right => .ofColumns [left, right]
  | through member table aliasId targetKey sourceKey parent =>
    .ofTable aliasId table
      ++ .ofColumns [⟨aliasId, targetKey⟩, ⟨aliasId, sourceKey⟩, parent, member]

namespace RowCondition

mutual

/-- What a condition names. -/
def names : RowCondition → Names
  | always | never => .none
  | all children | any children => namesOf children
  | isNull c | isNotNull c | compare c _ _ | among c _ | notAmong c _ | ilike c _ => .ofColumns [c]
  | hasRelated table aliasId join condition => .ofTable aliasId table ++ join.names ++ names condition

/-- What several conditions name. -/
def namesOf : List RowCondition → Names
  | [] => .none
  | c :: rest => names c ++ namesOf rest

end

end RowCondition

/-- What a value to sort by names. -/
def SortValue.names : SortValue → Names
  | column c => .ofColumns [c]
  | related value table aliasId join => .ofTable aliasId table ++ value.names ++ join.names

/-- The column of a member, if it holds one. -/
def MemberValue.column? : MemberValue → Option ColumnRef
  | column c => some c
  | constant _ => none

namespace RelatedQuery

mutual

/-- What a query for related rows names. -/
def names : RelatedQuery → Names
  | mk _ fields nested _ table aliasId join =>
    .ofTable aliasId table ++ .ofColumns (fields.filterMap (·.2.column?)) ++ namesOf nested
      ++ join.names

/-- What the members that hold related rows name. -/
def namesOf : List (String × RelatedQuery) → Names
  | [] => .none
  | (_, query) :: rest => names query ++ namesOf rest

end

end RelatedQuery

/-- What a query names. -/
def SelectQuery.names (q : SelectQuery) : Names :=
  .ofTable q.aliasId q.table ++ .ofColumns q.columns
    ++ (q.related.map (·.names)).foldl (· ++ ·) .none
    ++ (q.condition.map (·.names)).getD .none
    ++ (q.order.map (·.1.names)).foldl (· ++ ·) .none

/-- What a query for keys names. -/
def KeyQuery.names (q : KeyQuery) : Names :=
  .ofTable q.aliasId q.table ++ .ofColumns [⟨q.aliasId, q.column⟩]
    ++ (q.condition.map (·.names)).getD .none

namespace Database

variable (db : Database)

/-- Whether a table has a column. -/
def hasColumn (table column : String) : Bool :=
  ((db.table? table).bind (·.column? column)).isSome

/-- Whether a column is one of the table behind its alias. -/
def resolves (names : Names) (c : ColumnRef) : Bool :=
  names.tables.any fun (aliasId, table) => aliasId = c.table && db.hasColumn table c.column

/-- Looks up what a statement names behind aliases. -/
def checkNames (names : Names) (sql : String) : Except Violation Unit :=
  match names.columns.find? (!db.resolves names ·) with
  | none => .ok ()
  | some c => .error (.unresolved s!"t{c.table}.{c.column}" sql (Sql.placeOf c.sql sql))

/-- Looks up columns that are set in rows of a table. -/
def checkAssigned (table : String) (columns : List String) : Except Violation Unit :=
  match columns.find? (!db.hasColumn table ·) with
  | none => .ok ()
  | some column => .error (.unknownColumn column)

/-- Looks up columns that rows are inserted with. -/
def checkInserted (table : String) (columns : List String) : Except Violation Unit :=
  match columns.find? (!db.hasColumn table ·) with
  | none => .ok ()
  | some column => .error (.noColumn table column)

/-- Refuses a statement with the given text that names what is not there. -/
def check (statement : Statement) (sql : String) : Except Violation Unit := do
  match statement with
  | .select q => db.checkNames q.names sql
  | .count q | .delete q => db.checkNames q.names sql
  | .insert table values => db.checkInserted table (values.map (·.1))
  | .update q values =>
    db.checkAssigned q.table (values.map (·.1))
    db.checkNames q.names sql
  | .setKey table column _ _ => db.checkAssigned table [column]
  | .insertLinks table sourceKey targetKey _ _ => db.checkInserted table [sourceKey, targetKey]
  | .present .. | .deleteLinks .. => return

end Database

end ResourceApi
