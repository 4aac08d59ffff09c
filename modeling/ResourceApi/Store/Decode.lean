import ResourceApi.Sql.JsonText
import ResourceApi.Sql.Render

/-!
# Reading rows back

Answers of queries become rows again: columns by their types, related rows as nested objects.
Related rows come through JSON text, which knows no booleans and has nothing to say of an empty
relationship; `restore` puts both back in place.
-/

namespace ResourceApi

namespace Registry

variable (r : Registry)

/-- Restores the types of fields in an object that came through JSON text. -/
def restoreFields (schema : Schema) (names : List String) (members : Object) : Object :=
  names.foldl (fun members name =>
    match r.column? schema name, members.get? name with
    | some c, some value => members.insert name (SqlValue.retype c.type value)
    | _, _ => members) members

mutual

/-- Restores what JSON text loses of the rows under an include node. -/
def restore (cardinality : Cardinality) (value : Json) : IncludeNode → Json
  | .mk _ target selection nested =>
    let value := if value.isNull && cardinality = .many then .arr [] else value
    match r.schema? target with
    | none => value
    | some schema =>
      let object (members : Object) : Json :=
        .obj (restoreNested schema
          (r.restoreFields schema (selection.names schema) members) nested)
      match value with
      | .arr items => .arr (items.map fun
        | .obj members => object members
        | item => item)
      | .obj members => object members
      | value => value

/-- Restores what JSON text loses of the rows under several include nodes. -/
def restoreNested (schema : Schema) (members : Object) : List IncludeNode → Object
  | [] => members
  | node :: rest =>
    let cardinality := (r.association? schema node.relationship).elim .one (·.cardinality)
    let value := (members.get? node.relationship).getD .null
    restoreNested schema (members.insert node.relationship (restore cardinality value node)) rest

end

/-- The member of a row that holds the rows under an include node. -/
def decodeRelated (node : IncludeNode) (cardinality : Cardinality) (value : Json) :
    Except OutOfRange (String × Json) := do
  return (node.relationship, r.restore cardinality (← value.throughText) node)

/-- The row that an answer to a query for a plan holds: its columns, then the related rows. -/
def decode (outputs : List Output) (answer : List SqlValue × List Json) :
    Except OutOfRange Object := do
  let fields := outputs.filterMap fun
    | .field name type => some (name, type)
    | .related .. => none
  let nodes := outputs.filterMap fun
    | .field .. => none
    | .related node cardinality => some (node, cardinality)
  let related ← (nodes.zip answer.2).mapM fun ((node, cardinality), value) =>
    r.decodeRelated node cardinality value
  return Object.ofList
    ((fields.zip answer.1).map (fun ((name, type), v) => (name, v.toJson type)) ++ related)

/-- A stored row of a schema's table. -/
def decodeStored (schema : Schema) (row : List (String × SqlValue)) : Object :=
  Object.ofList (row.filterMap fun (column, v) =>
    (r.columnNamed? schema column).map fun c => (c.field, v.toJson c.type))

end Registry

end ResourceApi
