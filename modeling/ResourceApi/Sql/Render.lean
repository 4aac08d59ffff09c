import ResourceApi.Sql.Statement

/-!
# From plans to statements

A plan becomes one `SelectQuery`: related rows are read by subqueries that answer JSON, dotted
filter paths by `EXISTS`, dotted sort keys by subqueries for one value. Aliases are drawn from a
counter in the order in which the tables come up.

Names are looked up on the way; the first one that is missing is the error of the whole.
-/

namespace ResourceApi

/-- Why a plan has no statement. -/
inductive RenderError where
  | unknownRelationship (schema name : String)
  | unknownColumn (schema field : String)
  | notAnArray (operator : Operator)
  deriving DecidableEq, Repr

/-- The error in words. -/
def RenderError.message : RenderError → String
  | unknownRelationship schema name => s!"'{schema}' has no relationship '{name}'"
  | unknownColumn schema field => s!"'{schema}' has no column '{field}'"
  | notAnArray operator => s!"'{operator.name}' requires an array value"

/-- Rendering draws aliases from a counter and may fail. -/
abbrev Rendering := StateT Nat (Except RenderError)

namespace Rendering

/-- The next alias. -/
def aliasId : Rendering Nat := modifyGet fun n => (n, n + 1)

/-- Runs a rendering from the first alias on. -/
def start {α : Type} (x : Rendering α) : Except RenderError α := x.run' 0

variable (r : Registry)

/-! ## Names -/

/-- The association of a relationship. -/
def association (schema : Schema) (name : String) : Except RenderError Association :=
  match r.association? schema name with
  | some a => .ok a
  | none => .error (.unknownRelationship schema.name name)

/-- The column of a field. -/
def column (schema : Schema) (field : String) : Except RenderError Column :=
  match r.column? schema field with
  | some c => .ok c
  | none => .error (.unknownColumn schema.name field)

/-- The condition that ties the target's table to the source's table. -/
def join (a : Association) (target source : Nat) : Rendering JoinCondition :=
  match a.kind with
  | .belongsTo key =>
    return .equal ⟨target, a.target.idColumn⟩ ⟨source, columnName key⟩
  | .hasOne key | .hasMany key =>
    return .equal ⟨target, columnName key⟩ ⟨source, a.source.idColumn⟩
  | .hasManyThrough join => do
    let link ← aliasId
    return .through ⟨target, a.target.idColumn⟩ join.table link (columnName join.targetKey)
      (columnName join.sourceKey) ⟨source, a.source.idColumn⟩

/-! ## Conditions -/

/-- The comparison that an operator stands for on a single value other than a pattern in any
case. -/
def comparison : Operator → Comparison
  | .eq => .eq
  | .ne => .ne
  | .gt => .gt
  | .gte => .gte
  | .lt => .lt
  | .lte => .lte
  | _ => .like

/-- The condition of an operator on a column. -/
def compare (c : ColumnRef) (operator : Operator) (value : Json) :
    Except RenderError RowCondition :=
  match operator, value with
  | .eq, .null => .ok (.isNull c)
  | .ne, .null => .ok (.isNotNull c)
  | .among, .arr [] => .ok .never
  | .among, .arr values => .ok (.among c (values.map .ofJson))
  | .notAmong, .arr [] => .ok .always
  | .notAmong, .arr values => .ok (.notAmong c (values.map .ofJson))
  | .among, _ | .notAmong, _ => .error (.notAnArray operator)
  | .ilike, value => .ok (.ilike c (.ofJson value))
  | operator, value => .ok (.compare c (comparison operator) (.ofJson value))

/-- The condition on a field that a chain of relationships leads to. -/
def pathCondition (field : String) (operator : Operator) (value : Json) :
    Schema → Nat → List String → Rendering RowCondition
  | schema, table, [] => do
    let c ← column r schema field
    compare ⟨table, c.column⟩ operator value
  | schema, table, relationship :: rest => do
    let a ← association r schema relationship
    let inner ← aliasId
    let join ← join a inner table
    let condition ← pathCondition field operator value a.target inner rest
    return .hasRelated a.target.tableName inner join condition

mutual

/-- The condition of a predicate on an aliased table. -/
def condition (schema : Schema) (table : Nat) : Predicate → Rendering RowCondition
  | .condition c => pathCondition r c.path.field c.operator c.value schema table c.path.relationships
  | .all [] => return .always
  | .any [] => return .never
  | .all (child :: rest) => return .all (← conditions schema table (child :: rest))
  | .any (child :: rest) => return .any (← conditions schema table (child :: rest))

/-- The conditions of several predicates. -/
def conditions (schema : Schema) (table : Nat) : List Predicate → Rendering (List RowCondition)
  | [] => return []
  | child :: rest => return (← condition schema table child) :: (← conditions schema table rest)

end

/-- The condition of a filter. An empty one is no condition. -/
def filter (schema : Schema) (table : Nat) (p : Predicate) : Rendering (Option RowCondition) :=
  if p.isEmpty then return none else return some (← condition r schema table p)

/-! ## Related rows and sort values -/

mutual

/-- The query for the rows that an include node asks for. -/
def related (schema : Schema) (table : Nat) : IncludeNode → Rendering RelatedQuery
  | .mk relationship _ selection nested => do
    let a ← association r schema relationship
    let inner ← aliasId
    let fields ← (selection.names a.target).mapM fun field => do
      let c ← column r a.target field
      return (field, MemberValue.column ⟨inner, c.column⟩)
    let members ← relatedMembers a.target inner nested
    let join ← join a inner table
    return .mk (a.cardinality = .many) fields members none a.target.tableName inner join

/-- The members that several include nodes ask for. -/
def relatedMembers (schema : Schema) (table : Nat) :
    List IncludeNode → Rendering (List (String × RelatedQuery))
  | [] => return []
  | node :: rest => do
    let query ← related schema table node
    return (node.relationship, query) :: (← relatedMembers schema table rest)

end

/-- The value of a sort key. -/
def sortValue (field : String) : Schema → Nat → List String → Rendering SortValue
  | schema, table, [] => do
    let c ← column r schema field
    return .column ⟨table, c.column⟩
  | schema, table, relationship :: rest => do
    let a ← association r schema relationship
    let inner ← aliasId
    let value ← sortValue field a.target inner rest
    return .related value a.target.tableName inner (← join a inner table)

/-- The query for the keys of the rows that a filter selects. -/
def keys (schema : Schema) (p : Predicate) : Rendering KeyQuery := do
  let table ← aliasId
  return ⟨schema.tableName, table, schema.idColumn, ← filter r schema table p⟩

end Rendering

/-- What one column of a query's result stands for. -/
inductive Output where
  | field (name : String) (type : ColumnType)
  | related (node : IncludeNode) (cardinality : Cardinality)
  deriving Repr

namespace Statement

variable (r : Registry)

/-- The query for a plan, and what its columns stand for. -/
def ofPlan (schema : Schema) (plan : Plan) : Except RenderError (SelectQuery × List Output) :=
  Rendering.start do
    let table ← Rendering.aliasId
    let columns ← (plan.attributes.names schema).mapM fun field =>
      (Rendering.column r schema field : Except RenderError Column)
    let related ← plan.includes.mapM fun node => do
      let a ← Rendering.association r schema node.relationship
      let query ← Rendering.related r schema table node
      return (query, Output.related node a.cardinality)
    let condition ← Rendering.filter r schema table plan.filter
    let order ← plan.sort.mapM fun key => do
      let value ← Rendering.sortValue r key.path.field schema table key.path.relationships
      return (value, key.direction)
    let query : SelectQuery :=
      { table := schema.tableName, aliasId := table,
        columns := columns.map (⟨table, ·.column⟩), related := related.map (·.1),
        condition, order, limit := plan.limit, offset := plan.offset }
    return (query, columns.map (fun c => .field c.field c.type) ++ related.map (·.2))

/-- The statement that counts the rows that a filter selects. -/
def ofCount (schema : Schema) (p : Predicate) : Except RenderError Statement := do
  return .count (← Rendering.start (Rendering.keys r schema p))

/-- The columns and values of a row. -/
def assignments (schema : Schema) (row : Object) :
    Except RenderError (List (String × SqlValue)) :=
  row.mapM fun (field, value) => do
    let c ← Rendering.column r schema field
    return (c.column, SqlValue.ofJson value)

/-- The statement that inserts a row. -/
def ofInsert (schema : Schema) (row : Object) : Except RenderError Statement := do
  return .insert schema.tableName (← assignments r schema row)

/-- The statement that changes the rows that a filter selects. -/
def ofUpdate (schema : Schema) (row : Object) (p : Predicate) : Except RenderError Statement := do
  let values ← assignments r schema row
  return .update (← Rendering.start (Rendering.keys r schema p)) values

/-- The statement that deletes the rows that a filter selects. -/
def ofDelete (schema : Schema) (p : Predicate) : Except RenderError Statement := do
  return .delete (← Rendering.start (Rendering.keys r schema p))

/-- The statement that looks for primary keys. -/
def ofIds (schema : Schema) (ids : List Json) : Statement :=
  .present schema.tableName schema.idColumn (ids.map .ofJson)

/-- The statements that link rows to a parent. When links are replaced, the ones that are not
asked for are removed first. -/
def ofLinks (a : Association) (parent : Json) (ids : List Json) (replace : Bool) :
    List Statement :=
  let parent := SqlValue.ofJson parent
  let ids := ids.map SqlValue.ofJson
  match a.kind with
  | .belongsTo key =>
    if ids.isEmpty && !replace then []
    else
      [.setKey a.source.tableName (columnName key) (some (ids.head?.getD .null))
        [.equals a.source.idColumn parent]]
  | .hasOne key | .hasMany key =>
    let table := a.target.tableName
    let key := columnName key
    let id := a.target.idColumn
    (if replace then
      [.setKey table key none
        (.equals key parent :: if ids.isEmpty then [] else [.notAmong id ids])]
    else [])
      ++ if ids.isEmpty then [] else [.setKey table key (some parent) [.among id ids]]
  | .hasManyThrough join =>
    let sourceKey := columnName join.sourceKey
    (if replace then [.deleteLinks join.table sourceKey parent] else [])
      ++ if ids.isEmpty then []
        else [.insertLinks join.table sourceKey (columnName join.targetKey) parent ids]

end Statement

end ResourceApi
