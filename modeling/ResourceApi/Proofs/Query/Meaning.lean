import ResourceApi.Proofs.Schema.Assembly
import ResourceApi.Query.Plan
import ResourceApi.Sql.Query

/-!
# What a plan asks for

The meaning of plans on the rows of a database, told without queries and aliases. Rows are *tied* to
each other by associations (`Association.Ties`), a chain of relationships *reaches* the rows at its
end (`Registry.Reaches`), and a filter on a dotted path holds for a row from which some row is
reached whose field the operator accepts (`Condition.Holds`).

An operator compares with a stored value that is not null. An operator on a list asks for one
comparison or for all of them, so nothing is among no values, and everything, even null, is outside
of them (`Operator.accepts_null`).

`Condition.test` and `Predicate.test` decide these meanings by walking the tables.
-/

namespace ResourceApi

/-! ## Ties between rows -/

/-- A value in a row of a table. -/
structure Cell where
  table : String
  row : Tuple
  column : String

/-- Whether two cells are equal, as the columns of tables are compared. -/
def Database.equalCells (db : Database) (a b : Cell) : Bool :=
  let (v, w) := Affinity.convertBoth (db.affinity a.table a.column) (db.affinity b.table b.column)
    (a.row.get a.column) (b.row.get b.column)
  v.equals w

namespace Association

variable (db : Database) (a : Association)

/-- The primary key of a row of the source. -/
def sourceId (row : Tuple) : Cell := ⟨a.source.tableName, row, a.source.idColumn⟩

/-- The primary key of a row of the target. -/
def targetId (row : Tuple) : Cell := ⟨a.target.tableName, row, a.target.idColumn⟩

/-- Whether an association ties a row of the target to a row of the source: by a key in either of
them, or by a row of the join table. -/
def ties (row target : Tuple) : Bool :=
  match a.kind with
  | .belongsTo key =>
    db.equalCells (a.targetId target) ⟨a.source.tableName, row, columnName key⟩
  | .hasOne key | .hasMany key =>
    db.equalCells ⟨a.target.tableName, target, columnName key⟩ (a.sourceId row)
  | .hasManyThrough join =>
    (db.rows join.table).any fun link =>
      db.equalCells ⟨join.table, link, columnName join.sourceKey⟩ (a.sourceId row)
        && db.equalCells (a.targetId target) ⟨join.table, link, columnName join.targetKey⟩

/-- The rows that an association ties to a row, in the order of their table. -/
def relatedRows (row : Tuple) : List Tuple := (db.rows a.target.tableName).filter (a.ties db row)

end Association

/-- A chain of relationships leads from a row of one schema to a row of another. -/
inductive Registry.Reaches (r : Registry) (db : Database) :
    Schema → Tuple → List String → Schema → Tuple → Prop
  | here (schema : Schema) (row : Tuple) : Reaches r db schema row [] schema row
  | along {schema owner : Schema} {row next last : Tuple} {name : String} {rest : List String}
      {a : Association} : r.association? schema name = some a → next ∈ a.relatedRows db row →
      Reaches r db a.target next rest owner last →
      Reaches r db schema row (name :: rest) owner last

/-! ## Comparisons -/

namespace Operator

/-- Whether a comparison admits an order of the stored value and the given one. -/
def admits : Operator → Ordering → Bool
  | eq, o => o == .eq
  | ne, o => o != .eq
  | gt, o => o == .gt
  | gte, o => o != .lt
  | lt, o => o == .lt
  | lte, o => o != .gt
  | _, _ => false

/-- Whether a stored value compares with a given one, neither of them null. -/
def compares (o : Operator) (affinity : Affinity) (stored : SqlValue) (value : Json) : Bool :=
  let other := affinity.convert (.ofJson value)
  stored != .null && other != .null && o.admits (stored.compare other)

/-- Whether a stored value satisfies an operator with its value or values. -/
def accepts (o : Operator) (affinity : Affinity) (value : Json) (stored : SqlValue) : Bool :=
  match o, value with
  | among, .arr values => values.any (eq.compares affinity stored)
  | notAmong, .arr values => values.all (ne.compares affinity stored)
  | like, value => Sql.like stored (.ofJson value)
  | ilike, value => Sql.ilike stored (.ofJson value)
  | o, value => o.compares affinity stored value

/-- A stored null satisfies only that it is not among no values. -/
theorem accepts_null (o : Operator) (affinity : Affinity) (value : Json) :
    o.accepts affinity value .null = true ↔ o = notAmong ∧ value = .arr [] := by
  cases o <;> cases value <;>
    simp [accepts, compares, Sql.like, Sql.ilike, List.all_eq_true, List.eq_nil_iff_forall_not_mem]

end Operator

/-! ## Conditions -/

variable (r : Registry) (db : Database)

/-- The stored value of a field satisfies the condition. -/
def Condition.Accepts (c : Condition) (schema : Schema) (row : Tuple) : Prop :=
  c.operator.accepts (db.affinity schema.tableName (columnName c.path.field)) c.value
    (row.get (columnName c.path.field)) = true

/-- The condition holds for a row: some row is reached along its path that it accepts. -/
def Condition.Holds (c : Condition) (schema : Schema) (row : Tuple) : Prop :=
  ∃ owner last, r.Reaches db schema row c.path.relationships owner last ∧ c.Accepts db owner last

mutual

/-- The predicate holds for a row. -/
def Predicate.Holds (schema : Schema) (row : Tuple) : Predicate → Prop
  | .condition c => c.Holds r db schema row
  | .all children => Predicate.AllHold schema row children
  | .any children => Predicate.AnyHolds schema row children

/-- Every one of several predicates holds for a row. -/
def Predicate.AllHold (schema : Schema) (row : Tuple) : List Predicate → Prop
  | [] => True
  | child :: rest => Predicate.Holds schema row child ∧ Predicate.AllHold schema row rest

/-- One of several predicates holds for a row. -/
def Predicate.AnyHolds (schema : Schema) (row : Tuple) : List Predicate → Prop
  | [] => False
  | child :: rest => Predicate.Holds schema row child ∨ Predicate.AnyHolds schema row rest

end

/-! ## Deciding conditions -/

variable {r : Registry} {db : Database}

/-- Whether a chain of relationships leads to a row that meets a condition. -/
def Registry.reachesAny (r : Registry) (db : Database) (f : Schema → Tuple → Bool) :
    Schema → List String → Tuple → Bool
  | schema, [], row => f schema row
  | schema, name :: rest, row =>
    match r.association? schema name with
    | none => false
    | some a => (a.relatedRows db row).any (r.reachesAny db f a.target rest)

theorem Registry.reachesAny_iff {f : Schema → Tuple → Bool} {schema : Schema} {names : List String}
    {row : Tuple} : r.reachesAny db f schema names row = true ↔
      ∃ owner last, r.Reaches db schema row names owner last ∧ f owner last = true := by
  induction names generalizing schema row with
  | nil =>
    constructor
    · intro h
      exact ⟨schema, row, .here schema row, h⟩
    · rintro ⟨_, _, ⟨⟩, h⟩
      exact h
  | cons name rest ih =>
    unfold reachesAny
    cases ha : r.association? schema name with
    | none =>
      constructor
      · nofun
      · rintro ⟨_, _, hreach, -⟩
        cases hreach with
        | along ha' _ _ =>
          rw [ha] at ha'
          cases ha'
    | some a =>
      simp only [List.any_eq_true, ih]
      constructor
      · rintro ⟨next, hm, owner, last, hreach, h⟩
        exact ⟨owner, last, .along ha hm hreach, h⟩
      · rintro ⟨owner, last, hreach, h⟩
        cases hreach with
        | along ha' hm hreach =>
          obtain rfl := Option.some.inj (ha'.symm.trans ha)
          exact ⟨_, hm, owner, last, hreach, h⟩

/-- Whether a condition holds for a row that lies at the start of a chain of relationships. -/
def Condition.testAlong (r : Registry) (db : Database) (c : Condition) :
    Schema → List String → Tuple → Bool
  | schema, [], row =>
    c.operator.accepts (db.affinity schema.tableName (columnName c.path.field)) c.value
      (row.get (columnName c.path.field))
  | schema, name :: rest, row =>
    match r.association? schema name with
    | none => false
    | some a => (a.relatedRows db row).any (c.testAlong r db a.target rest)

theorem Condition.testAlong_eq {c : Condition} {schema : Schema} {names : List String}
    {row : Tuple} : c.testAlong r db schema names row = r.reachesAny db (fun owner last =>
      c.operator.accepts (db.affinity owner.tableName (columnName c.path.field)) c.value
        (last.get (columnName c.path.field))) schema names row := by
  induction names generalizing schema row with
  | nil => rfl
  | cons name rest ih =>
    unfold testAlong Registry.reachesAny
    cases r.association? schema name with
    | none => rfl
    | some a => exact congrArg (a.relatedRows db row).any (funext fun _ => ih)

theorem Condition.testAlong_iff {c : Condition} {schema : Schema} {names : List String}
    {row : Tuple} : c.testAlong r db schema names row = true ↔
      ∃ owner last, r.Reaches db schema row names owner last ∧ c.Accepts db owner last := by
  rw [testAlong_eq]
  exact Registry.reachesAny_iff

mutual

/-- Whether a predicate holds for a row. -/
def Predicate.test (r : Registry) (db : Database) (schema : Schema) (row : Tuple) :
    Predicate → Bool
  | .condition c => c.testAlong r db schema c.path.relationships row
  | .all children => Predicate.testAll r db schema row children
  | .any children => Predicate.testAny r db schema row children

/-- Whether every one of several predicates holds for a row. -/
def Predicate.testAll (r : Registry) (db : Database) (schema : Schema) (row : Tuple) :
    List Predicate → Bool
  | [] => true
  | child :: rest => Predicate.test r db schema row child && Predicate.testAll r db schema row rest

/-- Whether one of several predicates holds for a row. -/
def Predicate.testAny (r : Registry) (db : Database) (schema : Schema) (row : Tuple) :
    List Predicate → Bool
  | [] => false
  | child :: rest => Predicate.test r db schema row child || Predicate.testAny r db schema row rest

end

mutual

theorem Predicate.test_iff {schema : Schema} {row : Tuple} : ∀ {p : Predicate},
    p.test r db schema row = true ↔ p.Holds r db schema row
  | .condition c => by
    unfold test Holds
    exact Condition.testAlong_iff
  | .all children => by
    unfold test Holds
    exact testAll_iff
  | .any children => by
    unfold test Holds
    exact testAny_iff

theorem Predicate.testAll_iff {schema : Schema} {row : Tuple} : ∀ {children : List Predicate},
    testAll r db schema row children = true ↔ AllHold r db schema row children
  | [] => by simp [testAll, AllHold]
  | child :: rest => by
    rw [testAll, AllHold, Bool.and_eq_true, test_iff, testAll_iff]

theorem Predicate.testAny_iff {schema : Schema} {row : Tuple} : ∀ {children : List Predicate},
    testAny r db schema row children = true ↔ AnyHolds r db schema row children
  | [] => by simp [testAny, AnyHolds]
  | child :: rest => by
    rw [testAny, AnyHolds, Bool.or_eq_true, test_iff, testAny_iff]

end

instance (p : Predicate) (schema : Schema) (row : Tuple) : Decidable (p.Holds r db schema row) :=
  decidable_of_iff _ Predicate.test_iff

/-! ## Sorting -/

/-- Whether every association of a chain leads to at most one row. -/
def Registry.ToOne (r : Registry) : Schema → List String → Prop
  | _, [] => True
  | schema, name :: rest =>
    ∀ a, r.association? schema name = some a → a.cardinality = .one ∧ Registry.ToOne r a.target rest

/-- The value of a field in the row that a chain of relationships leads to, null where there is no
such row. -/
def Registry.valueAlong (r : Registry) (db : Database) (field : String) :
    Schema → List String → Tuple → SqlValue
  | _, [], row => row.get (columnName field)
  | schema, name :: rest, row =>
    match r.association? schema name with
    | none => .null
    | some a =>
      match a.relatedRows db row with
      | [] => .null
      | next :: _ => valueAlong r db field a.target rest next

namespace Plan

variable (r : Registry) (db : Database) (schema : Schema) (plan : Plan)

/-- The values by which a row is sorted. -/
def sortValues (row : Tuple) : List SqlValue :=
  plan.sort.map fun key => r.valueAlong db key.path.field schema key.path.relationships row

/-- The sort keys allow a row to stand before another one. -/
def Before (row next : Tuple) : Prop :=
  sortsBefore (plan.sort.map (·.direction)) (plan.sortValues r db schema row)
    (plan.sortValues r db schema next) = true

/-- The rows of the schema's table that satisfy every filter. -/
def satisfying : List Tuple :=
  (db.rows schema.tableName).filter fun row => plan.filter.Holds r db schema row

/-! ## Answers -/

/-- The object shows a row: the selected fields with their values, and otherwise only related
rows. -/
structure Shows (row : Tuple) (object : Object) : Prop where
  fields : ∀ field ∈ plan.attributes.names schema, object.get? field =
    some ((row.get (columnName field)).toJson ((r.column? schema field).elim .text (·.type)))
  others : ∀ key ∈ object.keys,
    key ∈ plan.attributes.names schema ∨ key ∈ plan.includes.map (·.relationship)

/-- The objects are the satisfying rows, sorted and cut to the window, and the count is the number
of satisfying rows. -/
structure AnsweredBy (objects : List Object) (count : Nat) : Prop where
  rows : ∃ ordered : List Tuple, ordered.Perm (plan.satisfying r db schema) ∧
    ordered.Pairwise (plan.Before r db schema) ∧
    List.Forall₂ (plan.Shows r schema) (window plan.limit plan.offset ordered) objects
  count : count = (plan.satisfying r db schema).length

end Plan

end ResourceApi
