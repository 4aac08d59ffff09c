import Mathlib.Data.List.Basic
import ResourceApi.Sql.Statement

/-!
# Marks

A statement has a question mark for every value, and lists its values apart from the text. What
the text with its values at their places is, is told without the marks (`Statement.spelled`), for
any way to write a value.

A text is *filled* when its marks are replaced by values from left to right (`Sql.fill`). A
statement is *placed* when its values, filled in, make its spelled text: its values are as many as
its marks, and in their order. The lemmas here put placed texts together from parts without marks
(`Sql.Unmarked`) and parts that are placed.
-/

namespace ResourceApi

namespace Sql

/-! ## Filling marks -/

/-- A text with its question marks replaced by values from left to right, if there are as many. -/
def fill : List Char → List String → Option (List Char)
  | [], values => if values.isEmpty then some [] else none
  | '?' :: _, [] => none
  | '?' :: rest, v :: vs => (fill rest vs).map (v.toList ++ ·)
  | c :: rest, values => (fill rest values).map (c :: ·)

theorem fill_cons {c : Char} (h : c ≠ '?') (rest : List Char) (values : List String) :
    fill (c :: rest) values = (fill rest values).map (c :: ·) := by
  rw [fill]
  · exact fun _ hc => h hc
  · exact fun _ _ _ hc => h hc

/-- A text is filled only with as many values as it has marks. -/
theorem count_of_fill {cs ds : List Char} {values : List String} (h : fill cs values = some ds) :
    cs.count '?' = values.length := by
  fun_induction fill cs values generalizing ds with
  | case1 values hempty => rw [List.isEmpty_iff.1 hempty]; rfl
  | case2 => cases h
  | case3 => cases h
  | case4 rest v vs ih =>
    obtain ⟨filled, hfilled, -⟩ := Option.map_eq_some_iff.1 h
    rw [List.count_cons_self, ih hfilled, List.length_cons]
  | case5 c rest values hnone hsome ih =>
    obtain ⟨filled, hfilled, -⟩ := Option.map_eq_some_iff.1 h
    have hc : c ≠ '?' := by
      rintro rfl
      cases values with
      | nil => exact hnone rfl rfl
      | cons v vs => exact hsome _ _ rfl rfl
    rw [List.count_cons_of_ne hc, ih hfilled]

/-- A text without marks. -/
def Unmarked (text : String) : Prop := '?' ∉ text.toList

instance (text : String) : Decidable (Unmarked text) := inferInstanceAs (Decidable (_ ∉ _))

/-- Wherever it stands, a text is filled with some values to another one. -/
def Fills (text : String) (values : List String) (filled : String) : Prop :=
  ∀ rest others, fill (text.toList ++ rest) (values ++ others) =
    (fill rest others).map (filled.toList ++ ·)

theorem Unmarked.fills {text : String} (h : Unmarked text) : Fills text [] text := by
  intro rest others
  unfold Unmarked at h
  rw [List.nil_append]
  generalize text.toList = cs at h
  induction cs with
  | nil => simp
  | cons c cs ih =>
    rw [List.mem_cons, not_or] at h
    rw [List.cons_append, fill_cons (Ne.symm h.1), ih h.2, Option.map_map]
    rfl

theorem fills_mark (v : String) : Fills mark [v] v := fun _ _ => rfl

theorem Fills.append {a b a' b' : String} {u v : List String} (ha : Fills a u a')
    (hb : Fills b v b') : Fills (a ++ b) (u ++ v) (a' ++ b') := by
  intro rest others
  rw [String.toList_append, List.append_assoc, List.append_assoc, ha, hb, Option.map_map,
    String.toList_append]
  congr 1
  funext ds
  exact (List.append_assoc _ _ _).symm

/-- Text without marks can stand before a text. -/
theorem Fills.after {a b b' : String} {v : List String} (hb : Fills b v b') (ha : Unmarked a) :
    Fills (a ++ b) v (a ++ b') := ha.fills.append hb

/-- Text without marks can stand behind a text. -/
theorem Fills.before {a a' b : String} {v : List String} (ha : Fills a v a') (hb : Unmarked b) :
    Fills (a ++ b) v (a' ++ b) := by
  have h := ha.append hb.fills
  rwa [List.append_nil] at h

theorem fills_empty : Fills "" [] "" := Unmarked.fills (by decide)

/-- Parts with a separator between them are filled one after the other. -/
theorem fills_intercalate {α : Type} (separator : String) (hs : Unmarked separator)
    {f g : α → String} {v : α → List String} {xs : List α}
    (h : ∀ x ∈ xs, Fills (f x) (v x) (g x)) :
    Fills (separator.intercalate (xs.map f)) (xs.flatMap v) (separator.intercalate (xs.map g)) := by
  induction xs with
  | nil => exact fills_empty
  | cons x xs ih =>
    obtain ⟨hx, hxs⟩ := List.forall_mem_cons.1 h
    cases xs with
    | nil => simpa using hx
    | cons y ys =>
      rw [List.map_cons, List.map_cons, List.map_cons, List.map_cons, List.flatMap_cons,
        String.intercalate_cons_cons, String.intercalate_cons_cons]
      exact (hx.before hs).append (ih hxs)

/-- What is placed is filled as a whole. -/
theorem Fills.fill_eq {text filled : String} {values : List String} (h : Fills text values filled) :
    fill text.toList values = some filled.toList := by
  have hfill := h [] []
  have hnil : fill [] [] = some [] := rfl
  rwa [List.append_nil, List.append_nil, hnil, Option.map_some, List.append_nil] at hfill

/-! ## Texts without marks -/

theorem unmarked_append {a b : String} : Unmarked (a ++ b) ↔ Unmarked a ∧ Unmarked b := by
  rw [Unmarked, String.toList_append, List.mem_append, not_or]
  rfl

theorem unmarked_intercalate {separator : String} (hs : Unmarked separator) {texts : List String}
    (h : ∀ t ∈ texts, Unmarked t) : Unmarked (separator.intercalate texts) := by
  induction texts with
  | nil =>
    rw [String.intercalate_nil]
    decide
  | cons t texts ih =>
    obtain ⟨ht, htexts⟩ := List.forall_mem_cons.1 h
    cases texts with
    | nil => simpa using ht
    | cons u texts =>
      rw [String.intercalate_cons_cons, unmarked_append, unmarked_append]
      exact ⟨⟨ht, hs⟩, ih htexts⟩

theorem unmarked_join {texts : List String} (h : ∀ t ∈ texts, Unmarked t) :
    Unmarked (String.join texts) := by
  rw [Unmarked, String.toList_join, List.mem_flatMap]
  rintro ⟨t, ht, hmark⟩
  exact h t ht hmark

theorem unmarked_toString (n : Nat) : Unmarked (toString n) := by
  intro h
  rw [show (toString n).toList = Nat.toDigits 10 n from Nat.toList_repr] at h
  exact absurd (Nat.isDigit_of_mem_toDigits (by decide) (by decide) h) (by decide)

theorem unmarked_name {s : String} (h : Unmarked s) : Unmarked (name s) := by
  rw [name, unmarked_append, unmarked_append]
  exact ⟨⟨by decide, h⟩, by decide⟩

theorem unmarked_aliasId (n : Nat) : Unmarked (aliasId n) :=
  unmarked_name (unmarked_append.2 ⟨by decide, unmarked_toString n⟩)

theorem unmarked_aliased {table : String} (h : Unmarked table) (n : Nat) :
    Unmarked (aliased table n) := by
  rw [aliased, unmarked_append, unmarked_append]
  exact ⟨⟨unmarked_name h, by decide⟩, unmarked_aliasId n⟩

/-- Values in parentheses. -/
def listing (texts : List String) : String := "(" ++ ", ".intercalate texts ++ ")"

theorem fills_marks {α : Type} (write : α → String) (values : List α) :
    Fills (marks values) (values.map write) (listing (values.map write)) := by
  have h := fills_intercalate ", " (by decide) (f := fun _ => mark) (g := write)
    (v := fun x => [write x]) fun x (_ : x ∈ values) => fills_mark (write x)
  rw [← List.map_eq_flatMap] at h
  exact (h.after (by decide)).before (by decide)

end Sql

open Sql (name mark marks aliased listing Unmarked Fills)

section

variable (write : SqlValue → String)

/-! ## Texts with values -/

namespace RowCondition

mutual

/-- The text of a condition with its values at their places. -/
def spelled : RowCondition → String
  | always => "1 = 1"
  | never => "1 = 0"
  | all children => "(" ++ " AND ".intercalate (spelledAll children) ++ ")"
  | any children => "(" ++ " OR ".intercalate (spelledAll children) ++ ")"
  | isNull column => column.sql ++ " IS NULL"
  | isNotNull column => column.sql ++ " IS NOT NULL"
  | compare column comparison value =>
    column.sql ++ " " ++ comparison.sql ++ " " ++ write value
  | among column values => column.sql ++ " IN " ++ listing (values.map write)
  | notAmong column values => column.sql ++ " NOT IN " ++ listing (values.map write)
  | ilike column value => "LOWER(" ++ column.sql ++ ") LIKE LOWER(" ++ write value ++ ")"
  | hasRelated table aliasId join condition =>
    "EXISTS (SELECT 1 FROM " ++ aliased table aliasId ++ " WHERE " ++ join.sql ++ " AND "
      ++ spelled condition ++ ")"

/-- The texts of several conditions with their values at their places. -/
def spelledAll : List RowCondition → List String
  | [] => []
  | c :: rest => spelled c :: spelledAll rest

end

/-- The text of an optional condition behind a table. -/
def spelledClause : Option RowCondition → String
  | none => ""
  | some c => " WHERE " ++ c.spelled write

end RowCondition

/-- The text of a query with its values at their places. -/
def SelectQuery.spelled (q : SelectQuery) : String :=
  let order := q.order.map fun (value, direction) =>
    value.sql ++ match direction with
      | .asc => " ASC"
      | .desc => " DESC"
  q.selection ++ String.join (q.related.map (", " ++ ·.sql))
    ++ (" FROM " ++ aliased q.table q.aliasId ++ RowCondition.spelledClause write q.condition
      ++ (if order.isEmpty then "" else " ORDER BY " ++ ", ".intercalate order)
      ++ window q.limit q.offset)

/-- The text of a query for keys with its values at their places. -/
def KeyQuery.spelled (q : KeyQuery) : String :=
  "SELECT " ++ (ColumnRef.mk q.aliasId q.column).sql ++ " FROM " ++ aliased q.table q.aliasId
    ++ RowCondition.spelledClause write q.condition

/-- The text of a guard with its values at their places. -/
def Guard.spelled : Guard → String
  | equals column value => name column ++ " = " ++ write value
  | among column values => name column ++ " IN " ++ listing (values.map write)
  | notAmong column values => name column ++ " NOT IN " ++ listing (values.map write)

/-- The SQL of a statement with its values at their places. -/
def Statement.spelled : Statement → String
  | select query => query.spelled write
  | count query => "SELECT COUNT(*) FROM (" ++ query.spelled write ++ ")"
  | insert table values =>
    "INSERT INTO " ++ name table
      ++ (if values.isEmpty then " DEFAULT VALUES"
        else " (" ++ ", ".intercalate (values.map (name ·.1)) ++ ") VALUES "
          ++ listing (values.map (write ·.2)))
      ++ " RETURNING *"
  | update rows values =>
    "UPDATE " ++ name rows.table ++ " SET "
      ++ ", ".intercalate (values.map fun (column, value) => name column ++ " = " ++ write value)
      ++ " WHERE " ++ name rows.column ++ " IN (" ++ rows.spelled write ++ ")"
  | delete rows =>
    "DELETE FROM " ++ name rows.table ++ " WHERE " ++ name rows.column ++ " IN ("
      ++ rows.spelled write ++ ")"
  | present table column keys =>
    "SELECT " ++ name column ++ " FROM " ++ name table ++ " WHERE " ++ name column ++ " IN "
      ++ listing (keys.map write)
  | setKey table column value guards =>
    "UPDATE " ++ name table ++ " SET " ++ name column ++ " = "
      ++ (match value with
        | some value => write value
        | none => "NULL")
      ++ " WHERE " ++ " AND ".intercalate (guards.map (·.spelled write))
  | deleteLinks table sourceKey parent =>
    "DELETE FROM " ++ name table ++ " WHERE " ++ name sourceKey ++ " = " ++ write parent
  | insertLinks table sourceKey targetKey parent targets =>
    "INSERT OR IGNORE INTO " ++ name table ++ " (" ++ name sourceKey ++ ", " ++ name targetKey
      ++ ") VALUES "
      ++ ", ".intercalate (targets.map fun target =>
        "(" ++ write parent ++ ", " ++ write target ++ ")")

end

/-! ## Placed texts -/

theorem ColumnRef.unmarked_sql {c : ColumnRef} (h : Unmarked c.column) : Unmarked c.sql := by
  rw [sql, Sql.unmarked_append, Sql.unmarked_append]
  exact ⟨⟨Sql.unmarked_aliasId _, by decide⟩, Sql.unmarked_name h⟩

theorem Comparison.unmarked_sql (c : Comparison) : Unmarked c.sql := by cases c <;> decide

namespace RowCondition

/-- The values of a condition, filled in, make its spelled text. -/
def Placed (c : RowCondition) : Prop :=
  ∀ write : SqlValue → String, Fills c.sql (c.params.map write) (c.spelled write)

theorem sqls_eq_map (cs : List RowCondition) : sqls cs = cs.map sql := by
  induction cs with
  | nil => rfl
  | cons c cs ih => rw [sqls, ih, List.map_cons]

theorem paramsOf_eq_flatMap (cs : List RowCondition) : paramsOf cs = cs.flatMap params := by
  induction cs with
  | nil => rfl
  | cons c cs ih => rw [paramsOf, ih, List.flatMap_cons]

theorem spelledAll_eq_map (write : SqlValue → String) (cs : List RowCondition) :
    spelledAll write cs = cs.map (spelled write) := by
  induction cs with
  | nil => rfl
  | cons c cs ih => rw [spelledAll, ih, List.map_cons]

/-- Placed conditions with a word between them are placed. -/
theorem fills_sqls {word : String} (hw : Unmarked word) {cs : List RowCondition}
    (h : ∀ c ∈ cs, c.Placed) (write : SqlValue → String) :
    Fills ("(" ++ word.intercalate (sqls cs) ++ ")") ((paramsOf cs).map write)
      ("(" ++ word.intercalate (spelledAll write cs) ++ ")") := by
  rw [sqls_eq_map, paramsOf_eq_flatMap, spelledAll_eq_map, List.map_flatMap]
  have hfills := Sql.fills_intercalate word hw fun c hc => h c hc write
  exact (hfills.after (a := "(") (by decide)).before (b := ")") (by decide)

theorem placed_all {cs : List RowCondition} (h : ∀ c ∈ cs, c.Placed) : (all cs).Placed := by
  intro write
  show Fills ("(" ++ " AND ".intercalate (sqls cs) ++ ")") ((paramsOf cs).map write)
    ("(" ++ " AND ".intercalate (spelledAll write cs) ++ ")")
  exact fills_sqls (by decide) h write

theorem placed_any {cs : List RowCondition} (h : ∀ c ∈ cs, c.Placed) : (any cs).Placed := by
  intro write
  show Fills ("(" ++ " OR ".intercalate (sqls cs) ++ ")") ((paramsOf cs).map write)
    ("(" ++ " OR ".intercalate (spelledAll write cs) ++ ")")
  exact fills_sqls (by decide) h write

theorem placed_always : always.Placed := fun _ => Unmarked.fills (by decide)

theorem placed_never : never.Placed := fun _ => Unmarked.fills (by decide)

section

variable {column : ColumnRef} (hc : Unmarked column.column)
include hc

theorem placed_isNull : (isNull column).Placed :=
  fun _ => Unmarked.fills (Sql.unmarked_append.2 ⟨ColumnRef.unmarked_sql hc, by decide⟩)

theorem placed_isNotNull : (isNotNull column).Placed :=
  fun _ => Unmarked.fills (Sql.unmarked_append.2 ⟨ColumnRef.unmarked_sql hc, by decide⟩)

theorem placed_compare (comparison : Comparison) (value : SqlValue) :
    (compare column comparison value).Placed := by
  intro write
  have hbefore : Unmarked (column.sql ++ " " ++ comparison.sql ++ " ") := by
    simp only [Sql.unmarked_append, ColumnRef.unmarked_sql hc, Comparison.unmarked_sql, true_and]
    decide
  exact (Sql.fills_mark (write value)).after hbefore

theorem placed_ilike (value : SqlValue) : (ilike column value).Placed := by
  intro write
  have hbefore : Unmarked ("LOWER(" ++ column.sql ++ ") LIKE LOWER(") := by
    simp only [Sql.unmarked_append, ColumnRef.unmarked_sql hc]
    decide
  exact ((Sql.fills_mark (write value)).after hbefore).before (by decide)

theorem placed_among (values : List SqlValue) : (among column values).Placed := by
  intro write
  have hbefore : Unmarked (column.sql ++ " IN ") :=
    Sql.unmarked_append.2 ⟨ColumnRef.unmarked_sql hc, by decide⟩
  exact (Sql.fills_marks write values).after hbefore

theorem placed_notAmong (values : List SqlValue) : (notAmong column values).Placed := by
  intro write
  have hbefore : Unmarked (column.sql ++ " NOT IN ") :=
    Sql.unmarked_append.2 ⟨ColumnRef.unmarked_sql hc, by decide⟩
  exact (Sql.fills_marks write values).after hbefore

end

theorem placed_hasRelated {table : String} {aliasId : Nat} {join : JoinCondition}
    {condition : RowCondition} (ht : Unmarked table) (hj : Unmarked join.sql)
    (h : condition.Placed) : (hasRelated table aliasId join condition).Placed := by
  intro write
  have hbefore : Unmarked ("EXISTS (SELECT 1 FROM " ++ aliased table aliasId ++ " WHERE "
      ++ join.sql ++ " AND ") := by
    simp only [Sql.unmarked_append, Sql.unmarked_aliased ht, hj]
    decide
  exact ((h write).after hbefore).before (by decide)

/-- A placed condition is placed behind a table. -/
theorem fills_clause {condition : Option RowCondition} (h : ∀ c ∈ condition, c.Placed)
    (write : SqlValue → String) :
    Fills (clause condition) (((condition.map params).getD []).map write)
      (spelledClause write condition) := by
  cases condition with
  | none => exact Sql.fills_empty
  | some c => exact (h c rfl write).after (by decide)

end RowCondition

/-! ## Placed statements -/

theorem SelectQuery.unmarked_window (limit offset : Option Nat) :
    Unmarked (SelectQuery.window limit offset) := by
  unfold window
  split <;> simp only [Sql.unmarked_append, Sql.unmarked_toString] <;> decide

/-- A query whose other parts have no marks is placed if its condition is. -/
theorem SelectQuery.fills_sql {q : SelectQuery} (ht : Unmarked q.table)
    (hcolumns : ∀ c ∈ q.columns, Unmarked c.column) (hrelated : ∀ x ∈ q.related, Unmarked x.sql)
    (hcondition : ∀ c ∈ q.condition, c.Placed) (horder : ∀ o ∈ q.order, Unmarked o.1.sql)
    (write : SqlValue → String) :
    Fills q.sql (((q.condition.map (·.params)).getD []).map write) (q.spelled write) := by
  have hselection : Unmarked (q.selection ++ String.join (q.related.map (", " ++ ·.sql))) := by
    refine Sql.unmarked_append.2 ⟨Sql.unmarked_append.2 ⟨by decide, ?_⟩, ?_⟩
    · refine Sql.unmarked_intercalate (by decide) (List.forall_mem_map.2 fun c hc => ?_)
      exact ColumnRef.unmarked_sql (hcolumns c hc)
    · refine Sql.unmarked_join (List.forall_mem_map.2 fun x hx => ?_)
      exact Sql.unmarked_append.2 ⟨by decide, hrelated x hx⟩
  have htable : Unmarked (" FROM " ++ aliased q.table q.aliasId) :=
    Sql.unmarked_append.2 ⟨by decide, Sql.unmarked_aliased ht _⟩
  have hsorted : ∀ text ∈ q.order.map fun (value, direction) =>
      value.sql ++ match direction with
        | .asc => " ASC"
        | .desc => " DESC", Unmarked text := by
    refine List.forall_mem_map.2 fun ⟨value, direction⟩ ho => ?_
    refine Sql.unmarked_append.2 ⟨horder _ ho, ?_⟩
    cases direction <;> decide
  -- only the condition holds values: everything around it is without marks
  have hclause := (RowCondition.fills_clause hcondition write).after htable
  unfold sql source spelled
  dsimp only
  refine Fills.after (Fills.before (Fills.before hclause ?_) (unmarked_window _ _)) hselection
  split
  · decide
  · exact Sql.unmarked_append.2 ⟨by decide, Sql.unmarked_intercalate (by decide) hsorted⟩

theorem KeyQuery.fills_sql {q : KeyQuery} (ht : Unmarked q.table) (hc : Unmarked q.column)
    (hcondition : ∀ c ∈ q.condition, c.Placed) (write : SqlValue → String) :
    Fills q.sql (((q.condition.map (·.params)).getD []).map write) (q.spelled write) := by
  refine Fills.after (RowCondition.fills_clause hcondition write) ?_
  simp only [Sql.unmarked_append, Sql.unmarked_aliased ht,
    ColumnRef.unmarked_sql (c := ⟨q.aliasId, q.column⟩) hc]
  decide

namespace Guard

/-- The column of a guard. -/
def column : Guard → String
  | equals column _ | among column _ | notAmong column _ => column

theorem fills_sql {g : Guard} (h : Unmarked g.column) (write : SqlValue → String) :
    Fills g.sql (g.params.map write) (g.spelled write) := by
  cases g with
  | equals column value =>
    have hbefore : Unmarked (name column ++ " = ") :=
      Sql.unmarked_append.2 ⟨Sql.unmarked_name h, by decide⟩
    exact (Sql.fills_mark (write value)).after hbefore
  | among column values =>
    have hbefore : Unmarked (name column ++ " IN ") :=
      Sql.unmarked_append.2 ⟨Sql.unmarked_name h, by decide⟩
    exact (Sql.fills_marks write values).after hbefore
  | notAmong column values =>
    have hbefore : Unmarked (name column ++ " NOT IN ") :=
      Sql.unmarked_append.2 ⟨Sql.unmarked_name h, by decide⟩
    exact (Sql.fills_marks write values).after hbefore

end Guard

namespace Statement

/-- The values of a statement, filled in, make its spelled text. -/
def Placed (s : Statement) : Prop :=
  ∀ write : SqlValue → String, Fills s.sql (s.params.map write) (s.spelled write)

theorem placed_select {q : SelectQuery} (ht : Unmarked q.table)
    (hcolumns : ∀ c ∈ q.columns, Unmarked c.column) (hrelated : ∀ x ∈ q.related, Unmarked x.sql)
    (hcondition : ∀ c ∈ q.condition, c.Placed) (horder : ∀ o ∈ q.order, Unmarked o.1.sql) :
    (select q).Placed :=
  fun write => SelectQuery.fills_sql ht hcolumns hrelated hcondition horder write

/-- Columns and values in the order of an assignment list. -/
theorem fills_assignments {values : List (String × SqlValue)} (h : ∀ v ∈ values, Unmarked v.1)
    (write : SqlValue → String) :
    Fills (", ".intercalate (values.map fun (column, _) => name column ++ " = " ++ mark))
      ((values.map (·.2)).map write)
      (", ".intercalate
        (values.map fun (column, value) => name column ++ " = " ++ write value)) := by
  have hassigned (v : String × SqlValue) (hv : v ∈ values) :
      Fills (name v.1 ++ " = " ++ mark) [write v.2] (name v.1 ++ " = " ++ write v.2) :=
    (Sql.fills_mark (write v.2)).after
      (Sql.unmarked_append.2 ⟨Sql.unmarked_name (h v hv), by decide⟩)
  have hall := Sql.fills_intercalate ", " (by decide) hassigned
  rw [← List.map_eq_flatMap] at hall
  rw [List.map_map]
  exact hall

theorem placed_insert {table : String} {values : List (String × SqlValue)} (ht : Unmarked table)
    (hv : ∀ v ∈ values, Unmarked v.1) : (insert table values).Placed := by
  intro write
  have hbefore : Unmarked ("INSERT INTO " ++ name table) :=
    Sql.unmarked_append.2 ⟨by decide, Sql.unmarked_name ht⟩
  have hcolumns : Unmarked (" (" ++ ", ".intercalate (values.map (name ·.1)) ++ ") VALUES ") := by
    refine Sql.unmarked_append.2 ⟨Sql.unmarked_append.2 ⟨by decide, ?_⟩, by decide⟩
    refine Sql.unmarked_intercalate (by decide) (List.forall_mem_map.2 fun v hm => ?_)
    exact Sql.unmarked_name (hv v hm)
  have hvalues := (Sql.fills_marks (fun v : String × SqlValue => write v.2) values).after hcolumns
  have hrow : Fills
      (if values.isEmpty then " DEFAULT VALUES"
        else " (" ++ ", ".intercalate (values.map (name ·.1)) ++ ") VALUES " ++ marks values)
      ((values.map (·.2)).map write)
      (if values.isEmpty then " DEFAULT VALUES"
        else " (" ++ ", ".intercalate (values.map (name ·.1)) ++ ") VALUES "
          ++ listing (values.map (write ·.2))) := by
    rw [List.map_map]
    split
    · rename_i hempty
      rw [List.isEmpty_iff.1 hempty]
      exact Unmarked.fills (by decide)
    · exact hvalues
  exact (hrow.after hbefore).before (by decide)

section

variable {rows : KeyQuery} (ht : Unmarked rows.table) (hc : Unmarked rows.column)
  (hcondition : ∀ c ∈ rows.condition, c.Placed)
include ht hc hcondition

theorem placed_count : (count rows).Placed := by
  intro write
  exact ((KeyQuery.fills_sql ht hc hcondition write).after (a := "SELECT COUNT(*) FROM (")
    (by decide)).before (b := ")") (by decide)

theorem placed_update {values : List (String × SqlValue)} (hv : ∀ v ∈ values, Unmarked v.1) :
    (update rows values).Placed := by
  intro write
  have hbefore : Unmarked ("UPDATE " ++ name rows.table ++ " SET ") := by
    simp only [Sql.unmarked_append, Sql.unmarked_name ht]
    decide
  have hset := (fills_assignments hv write).after hbefore
  have hwhere := ((hset.before (b := " WHERE ") (by decide)).before (Sql.unmarked_name hc)).before
    (b := " IN (") (by decide)
  have hrows := KeyQuery.fills_sql ht hc hcondition write
  have h := (hwhere.append hrows).before (b := ")") (by decide)
  rw [← List.map_append] at h
  exact h

theorem placed_delete : (delete rows).Placed := by
  intro write
  have hbefore : Unmarked
      ("DELETE FROM " ++ name rows.table ++ " WHERE " ++ name rows.column ++ " IN (") := by
    simp only [Sql.unmarked_append, Sql.unmarked_name ht, Sql.unmarked_name hc]
    decide
  exact ((KeyQuery.fills_sql ht hc hcondition write).after hbefore).before (by decide)

end

section

variable {table column : String} (ht : Unmarked table) (hc : Unmarked column)
include ht hc

theorem placed_present (keys : List SqlValue) : (present table column keys).Placed := by
  intro write
  have hbefore : Unmarked ("SELECT " ++ name column ++ " FROM " ++ name table ++ " WHERE "
      ++ name column ++ " IN ") := by
    simp only [Sql.unmarked_append, Sql.unmarked_name ht, Sql.unmarked_name hc]
    decide
  exact (Sql.fills_marks write keys).after hbefore

theorem placed_deleteLinks (parent : SqlValue) : (deleteLinks table column parent).Placed := by
  intro write
  have hbefore : Unmarked ("DELETE FROM " ++ name table ++ " WHERE " ++ name column ++ " = ") := by
    simp only [Sql.unmarked_append, Sql.unmarked_name ht, Sql.unmarked_name hc]
    decide
  exact (Sql.fills_mark (write parent)).after hbefore

theorem placed_setKey (value : Option SqlValue) {guards : List Guard}
    (hg : ∀ g ∈ guards, Unmarked g.column) : (setKey table column value guards).Placed := by
  intro write
  have hbefore : Unmarked ("UPDATE " ++ name table ++ " SET " ++ name column ++ " = ") := by
    simp only [Sql.unmarked_append, Sql.unmarked_name ht, Sql.unmarked_name hc]
    decide
  have hvalue : Fills (if value.isSome then mark else "NULL") (value.toList.map write)
      (match value with
        | some value => write value
        | none => "NULL") := by
    cases value with
    | none => exact Unmarked.fills (by decide)
    | some value => exact Sql.fills_mark (write value)
  have hguards := Sql.fills_intercalate " AND " (by decide) fun g hm =>
    Guard.fills_sql (hg g hm) write
  have h := ((hvalue.after hbefore).before (b := " WHERE ") (by decide)).append hguards
  rw [← List.map_flatMap, ← List.map_append] at h
  exact h

end

theorem placed_insertLinks {table sourceKey targetKey : String} (ht : Unmarked table)
    (hs : Unmarked sourceKey) (hk : Unmarked targetKey) (parent : SqlValue)
    (targets : List SqlValue) :
    (insertLinks table sourceKey targetKey parent targets).Placed := by
  intro write
  have hbefore : Unmarked ("INSERT OR IGNORE INTO " ++ name table ++ " (" ++ name sourceKey ++ ", "
      ++ name targetKey ++ ") VALUES ") := by
    simp only [Sql.unmarked_append, Sql.unmarked_name ht, Sql.unmarked_name hs,
      Sql.unmarked_name hk]
    decide
  have hpair (target : SqlValue) : Fills ("(" ++ mark ++ ", " ++ mark ++ ")")
      ([parent, target].map write) ("(" ++ write parent ++ ", " ++ write target ++ ")") :=
    ((((Sql.fills_mark (write parent)).after (a := "(") (by decide)).before (b := ", ")
      (by decide)).append (Sql.fills_mark (write target))).before (by decide)
  have h := (Sql.fills_intercalate ", " (by decide) fun target (_ : target ∈ targets) =>
    hpair target).after hbefore
  rw [← List.map_flatMap] at h
  exact h

end Statement

end ResourceApi
