import Mathlib.Data.List.Forall2
import ResourceApi.Proofs.Sql.Items

/-!
# Trees of statements

What a statement means is its tree of items, which is told here without its text, for queries
(`SelectQuery.items`, `KeyQuery.items`) and for the statements that count, change and delete the
rows of a query.

A tree is *plain* (`Sql.Item.Plain`) if the names of tables and columns in it hold no quotation
marks and the keys of objects no apostrophe: keys are written without doubling any.
-/

namespace ResourceApi

open Sql (Item Unquoted aliasName)

/-! ## Trees -/

namespace Sql.Item

/-- Parts with commas between them. -/
def listed (parts : List (List Item)) : List Item := [symbol ","].intercalate parts

/-- Marks for several values. -/
def marks {α : Type} (values : List α) : Item := group (listed (values.map fun _ => [mark]))

end Sql.Item

/-- A column with the alias of its table. -/
def ColumnRef.item (c : ColumnRef) : Item := .reference (aliasName c.table) c.column

/-- The tree of a join condition. -/
def JoinCondition.items : JoinCondition → List Item
  | equal left right => [left.item, .symbol "=", right.item]
  | through member table aliasId targetKey sourceKey parent =>
    [member.item, .word "IN", .group [.word "SELECT", (ColumnRef.mk aliasId targetKey).item,
      .source table (aliasName aliasId), .word "WHERE", (ColumnRef.mk aliasId sourceKey).item,
      .symbol "=", parent.item]]

/-- The operator of a comparison. -/
def Comparison.item : Comparison → Item
  | like => .word "LIKE"
  | comparison => .symbol comparison.sql

namespace RowCondition

mutual

/-- The tree of a condition. -/
def items : RowCondition → List Item
  | always => [.number "1", .symbol "=", .number "1"]
  | never => [.number "1", .symbol "=", .number "0"]
  | all children => [.group ([.word "AND"].intercalate (itemsOf children))]
  | any children => [.group ([.word "OR"].intercalate (itemsOf children))]
  | isNull column => [column.item, .word "IS", .word "NULL"]
  | isNotNull column => [column.item, .word "IS", .word "NOT", .word "NULL"]
  | compare column comparison _ => [column.item, comparison.item, .mark]
  | among column values => [column.item, .word "IN", .marks values]
  | notAmong column values => [column.item, .word "NOT", .word "IN", .marks values]
  | ilike column _ =>
    [.word "LOWER", .group [column.item], .word "LIKE", .word "LOWER", .group [.mark]]
  | hasRelated table aliasId join condition =>
    [.word "EXISTS", .group ([.word "SELECT", .number "1", .source table (aliasName aliasId),
      .word "WHERE"] ++ join.items ++ [.word "AND"] ++ items condition)]

/-- The trees of several conditions. -/
def itemsOf : List RowCondition → List (List Item)
  | [] => []
  | c :: rest => items c :: itemsOf rest

end

/-- The tree of an optional condition behind a table. -/
def clauseItems : Option RowCondition → List Item
  | none => []
  | some c => .word "WHERE" :: c.items

end RowCondition

/-- The tree of a value to sort by. -/
def SortValue.items : SortValue → List Item
  | column c => [c.item]
  | related value table aliasId join =>
    [.group ([.word "SELECT"] ++ value.items ++ [.source table (aliasName aliasId), .word "WHERE"]
      ++ join.items ++ [.word "LIMIT", .number "1"])]

/-- The tree of what a member holds. Constants are read from texts and never written, so they count
as illegal. -/
def MemberValue.item : MemberValue → Item
  | column c => c.item
  | constant v => .token ⟨.illegal, v.sql⟩

namespace RelatedQuery

/-- The tree of a member that holds a column. -/
def fieldItems (member : String × MemberValue) : List Item :=
  [.text member.1, .symbol ",", member.2.item]

mutual

/-- The tree of a query for related rows. -/
def items : RelatedQuery → List Item
  | mk many fields nested _ table aliasId join =>
    let members := fields.map fieldItems ++ itemsOf nested
    let object := [.word "json_object", .group (Item.listed members)]
    [.group ([.word "SELECT"]
      ++ (if many then [.word "json_group_array", .group object] else object)
      ++ [.source table (aliasName aliasId), .word "WHERE"] ++ join.items
      ++ if many then [] else [.word "LIMIT", .number "1"])]

/-- The trees of the members that hold related rows. -/
def itemsOf : List (String × RelatedQuery) → List (List Item)
  | [] => []
  | (key, query) :: rest =>
    [.text key, .symbol ",", .word "json", .group (items query)] :: itemsOf rest

end

end RelatedQuery

namespace SelectQuery

/-- The tree of the window. -/
def windowItems (limit offset : Option Nat) : List Item :=
  let bound (n : Nat) : Item := .number (toString (min n maxBound))
  match limit, offset with
  | some limit, some offset => [.word "LIMIT", bound limit, .word "OFFSET", bound offset]
  | some limit, none => [.word "LIMIT", bound limit]
  | none, some offset =>
    [.word "LIMIT", .symbol "-", .number "1", .word "OFFSET", bound offset]
  | none, none => []

/-- The tree of a value to sort by with its direction. -/
def keyItems (key : SortValue × Direction) : List Item :=
  key.1.items ++ match key.2 with
    | .asc => [.word "ASC"]
    | .desc => [.word "DESC"]

/-- The tree of an order. -/
def orderItems (order : List (SortValue × Direction)) : List Item :=
  if order.isEmpty then [] else [.word "ORDER", .word "BY"] ++ Item.listed (order.map keyItems)

/-- The tree of a query. -/
def items (q : SelectQuery) : List Item :=
  [.word "SELECT"] ++ Item.listed (q.columns.map fun c => [c.item])
    ++ q.related.flatMap (fun related => .symbol "," :: related.items)
    ++ [.source q.table (aliasName q.aliasId)] ++ RowCondition.clauseItems q.condition
    ++ orderItems q.order ++ windowItems q.limit q.offset

end SelectQuery

/-- The tree of a query for keys. -/
def KeyQuery.items (q : KeyQuery) : List Item :=
  [.word "SELECT", (ColumnRef.mk q.aliasId q.column).item, .source q.table (aliasName q.aliasId)]
    ++ RowCondition.clauseItems q.condition

/-! ## Statements -/

namespace KeyQuery

/-- The tree of the statement that counts the rows of a query. -/
def countItems (q : KeyQuery) : List Item :=
  [.word "SELECT", .word "COUNT", .group [.symbol "*"], .word "FROM", .group q.items]

/-- The tree of the statement that sets columns in the rows of a query. -/
def updateItems (q : KeyQuery) (values : List (String × SqlValue)) : List Item :=
  [.word "UPDATE", .name q.table, .word "SET"]
    ++ Item.listed (values.map fun value => [.name value.1, .symbol "=", .mark])
    ++ [.word "WHERE", .name q.column, .word "IN", .group q.items]

/-- The tree of the statement that deletes the rows of a query. -/
def deleteItems (q : KeyQuery) : List Item :=
  [.word "DELETE", .word "FROM", .name q.table, .word "WHERE", .name q.column, .word "IN",
    .group q.items]

end KeyQuery

/-! ## Plain trees -/

namespace Sql.Item

/-- An item that is written so that it can be read. -/
@[simp]
def IsPlain : Item → Prop
  | token ⟨kind, s⟩ => kind ≠ .illegal ∧ (kind = .text → '\'' ∉ s.toList)
  | reference _ column => Unquoted column
  | source table _ => Unquoted table
  | group _ => True

/-- All items are written so that they can be read. -/
abbrev Plain (items : List Item) : Prop := Each IsPlain items

section

variable {p : Item → Prop} (hcomma : Each p [symbol ","])
include hcomma

theorem each_listed {parts : List (List Item)} :
    Each p (listed parts) ↔ ∀ part ∈ parts, Each p part :=
  each_intercalate hcomma

@[simp] theorem each_listed_map {α : Type} {xs : List α} {f : α → List Item} :
    Each p (listed (xs.map f)) ↔ ∀ x ∈ xs, Each p (f x) :=
  (each_listed hcomma).trans List.forall_mem_map

@[simp] theorem each_marks {α : Type} {values : List α} {rest : List Item} (hmark : Each p [mark]) :
    Each p (marks values :: rest) ↔ Each p rest := by
  rw [marks, each_group, each_listed_map hcomma]
  simp [hmark]

end

@[simp] theorem plain_column {c : ColumnRef} {rest : List Item} :
    Plain (c.item :: rest) ↔ Unquoted c.column ∧ Plain rest := by
  simp [ColumnRef.item]

@[simp] theorem plain_comparison {c : Comparison} {rest : List Item} :
    Plain (c.item :: rest) ↔ Plain rest := by
  cases c <;> simp [Comparison.item]

end Sql.Item

end ResourceApi
