import ResourceApi.Sql.Integrity

/-!
# References between tables

A reference leads from a column of one table to a column of another, and that column has to
identify the rows of its table. Nothing enforces this when tables are created; a statement is
refused when it would have to follow a reference that leads to an ordinary column.

Which references a statement follows depends on its kind. An insertion follows those of its own
table, and one of several rows those that lead to the table as well. A change of columns follows
references only if it touches one. A deletion follows all references from and to the table, and then
those that its effect on other tables follows. One level is enough for that: rows that are deleted
along with others belong to join tables, which nothing refers to.
-/

namespace ResourceApi

/-- A reference from one column to another. -/
structure Reference where
  table : String
  column : String
  target : String
  targetColumn : String
  onDelete : OnDelete
  deriving DecidableEq, Repr

/-- The violation of a statement that follows a reference to an ordinary column. -/
def Reference.violation (r : Reference) : Violation := .mismatch r.table r.target

/-- Whether no two rows have the same value in a column. -/
def ColumnDefinition.isIdentifying (c : ColumnDefinition) : Bool :=
  c.isKey || c.constraints.contains .assignedKey

/-- The references of a table, the last declared first. -/
def Table.references (t : Table) : List Reference :=
  t.definition.columns.reverse.flatMap fun c => c.constraints.filterMap fun
    | .references target column onDelete => some ⟨t.name, c.name, target, column, onDelete⟩
    | _ => none

namespace Database

variable (db : Database)

/-- The references of all tables, the last created first. -/
def references : List Reference := db.tables.reverse.flatMap (·.references)

/-- The references of one table. -/
def referencesFrom (table : String) : List Reference := db.references.filter (·.table = table)

/-- The references that lead to one table. -/
def referencesTo (table : String) : List Reference := db.references.filter (·.target = table)

/-- Whether a reference leads to a column that does not identify rows. -/
def isAstray (r : Reference) : Bool :=
  !((db.table? r.target).bind (·.column? r.targetColumn)).any (·.isIdentifying)

/-- The reference that keeps rows from being inserted. -/
def astrayOnInsert? (table : String) (several : Bool) : Option Reference :=
  (db.referencesFrom table ++ if several then db.referencesTo table else []).find? db.isAstray

/-- The reference that keeps columns from being set. Once any reference is touched, those of the
table to itself and those that lead to the table are followed, too. -/
def astrayOnUpdate? (table : String) (columns : List String) : Option Reference :=
  let leaves (r : Reference) : Bool := columns.contains r.column
  let arrives (r : Reference) : Bool := columns.contains r.targetColumn
  let fromTable := db.referencesFrom table
  let toTable := db.referencesTo table
  if fromTable.any leaves || toTable.any arrives then
    (fromTable.filter (fun r => leaves r || r.target = table) ++ toTable.filter arrives
      ++ toTable.reverse).find? db.isAstray
  else none

/-- The reference from or to a table that keeps its rows from being deleted. -/
def astrayBeside? (table : String) : Option Reference :=
  ((db.referencesTo table).reverse ++ db.referencesFrom table).find? db.isAstray

/-- The reference that keeps rows from being deleted. -/
def astrayOnDelete? (table : String) : Option Reference :=
  (db.astrayBeside? table).or ((db.referencesTo table).findSome? fun r =>
    match r.onDelete with
    | .cascade => db.astrayBeside? r.table
    | .setNull => db.astrayOnUpdate? r.table [r.column])

/-- The reference that keeps a statement from running. -/
def astray? : Statement → Option Reference
  | .select _ | .count _ | .present .. => none
  | .insert table _ => db.astrayOnInsert? table true
  | .insertLinks table _ _ _ targets => db.astrayOnInsert? table (1 < targets.length)
  | .update rows values => db.astrayOnUpdate? rows.table (values.map (·.1))
  | .setKey table column _ _ => db.astrayOnUpdate? table [column]
  | .delete rows => db.astrayOnDelete? rows.table
  | .deleteLinks table _ _ => db.astrayOnDelete? table

/-- Refuses a statement that would follow a reference to an ordinary column. -/
def checkTargets (statement : Statement) : Except Violation Unit :=
  match db.astray? statement with
  | none => .ok ()
  | some r => .error r.violation

theorem not_isAstray_of_column {r : Reference} {t : Table} {c : ColumnDefinition}
    (ht : db.table? r.target = some t) (hc : t.column? r.targetColumn = some c)
    (hi : c.isIdentifying = true) : db.isAstray r = false := by
  simp [isAstray, ht, hc, hi]

theorem find?_isAstray_eq_none {rs : List Reference}
    (h : ∀ r ∈ db.references, db.isAstray r = false)
    (hs : ∀ r ∈ rs, r ∈ db.references) : rs.find? db.isAstray = none := by
  rw [List.find?_eq_none]
  intro r hr
  simp [h r (hs r hr)]

/-- Where no reference goes astray, no statement is refused. -/
theorem checkTargets_eq_ok (h : ∀ r ∈ db.references, db.isAstray r = false)
    (statement : Statement) : db.checkTargets statement = .ok () := by
  have leaving (table : String) : ∀ r ∈ db.referencesFrom table, r ∈ db.references :=
    fun r hr => (List.mem_filter.1 hr).1
  have arriving (table : String) : ∀ r ∈ db.referencesTo table, r ∈ db.references :=
    fun r hr => (List.mem_filter.1 hr).1
  have insert (table : String) (several : Bool) : db.astrayOnInsert? table several = none := by
    refine db.find?_isAstray_eq_none h fun r hr => ?_
    cases several <;> simp at hr <;> grind
  have update (table : String) (columns : List String) :
      db.astrayOnUpdate? table columns = none := by
    simp only [astrayOnUpdate?]
    split
    · refine db.find?_isAstray_eq_none h fun r hr => ?_
      simp at hr
      grind
    · rfl
  have beside (table : String) : db.astrayBeside? table = none := by
    refine db.find?_isAstray_eq_none h fun r hr => ?_
    simp at hr
    grind
  have delete (table : String) : db.astrayOnDelete? table = none := by
    simp only [astrayOnDelete?, beside, Option.none_or, List.findSome?_eq_none_iff]
    intro r _
    cases r.onDelete <;> simp [update]
  cases statement <;> simp [checkTargets, astray?, insert, update, delete]

end Database

end ResourceApi
