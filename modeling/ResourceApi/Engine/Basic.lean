import ResourceApi.Engine.Action
import ResourceApi.Engine.Parts

/-!
# The persistence engine

Reads and writes of a resource as actions over a store. A write without linkage is a single
operation on the store. A write with linkage needs several, which run in one transaction:
identifiers of existing rows are looked up before they are used, and rows of the linkage are
created before they are linked.

Each write also has a form that runs in a transaction of the caller, who ends it.
-/

namespace ResourceApi

/-- A written row. -/
structure Record where
  id : Json
  /-- The row as stored, with its keys. -/
  attributes : Object
  /-- The identifiers that each relationship of the payload leads to now. -/
  relationships : Object
  deriving DecidableEq, Repr

namespace Engine

/-! ## Errors -/

/-- A row is not there. -/
def notFound (schema : Schema) (id : Json) : ApiError :=
  .of .notFound s!"Unable to find '{schema.name}' with id '{displayId id}'." .unknown

/-- A row to link is not there. -/
def targetNotFound (a : Association) (id : Json) : ApiError :=
  .of .notFound
    (s!"Unable to find '{a.target.name}' with id '{displayId id}' for relationship "
      ++ s!"'{a.name}'.")
    (.pointer s!"/data/relationships/{a.name}/data")

/-- The payload is for another row. -/
def wrongId (schema : Schema) (id : Json) : ApiError :=
  .of .unexpectedValue
    s!"Payload must have 'id' as '{displayId id}' to update that '{schema.name}'."
    (.pointer "/data/id")

/-- The store answered a row without its primary key. -/
def missingId (schema : Schema) : ApiError :=
  .ofInternal s!"Store returned a '{schema.name}' row without an id."

/-! ## Reads -/

/-- The rows that a plan selects, and the number of rows that meet its filter. -/
def findAll (scope : Scope) (schema : Schema) (plan : Plan) : Action (List Object × Nat) := do
  let rows ← Action.perform scope (.find schema plan)
  let count ← Action.perform scope (.count schema plan.filter)
  return (rows, count)

/-- The row of an identifier, read by a plan that selects it. -/
def findOne (scope : Scope) (schema : Schema) (id : Json) (plan : Plan) : Action Object := do
  match ← Action.perform scope (.find schema plan) with
  | row :: _ => return row
  | [] => throw (notFound schema id)

/-- The plan that reads a row in the form in which a created row is answered. -/
def reloadPlan (r : Registry) (schema : Schema) (id : Json) : Plan :=
  { Plan.forId schema id with
    attributes := .only (schema.allFields ++ (r.foreignKeysOf schema).map (·.field)) }

/-- The record of a row as it is stored. -/
def reload (r : Registry) (scope : Scope) (schema : Schema) (id : Json) (relationships : Object) :
    Action Record := do
  return ⟨id, ← findOne scope schema id (reloadPlan r schema id), relationships⟩

/-! ## Identifiers -/

/-- Gives a row a fresh identifier where it needs one and has none. -/
def fillId (schema : Schema) (row : Object) : Action Object :=
  if schema.idType = .uuid && !row.has schema.idField then do
    return row.insert schema.idField (.str (← Action.drawn))
  else return row

/-- Gives a row the identifier of its payload, or a fresh one. -/
def assignId (schema : Schema) (given : Option Json) (row : Object) : Action Object :=
  fillId schema (given.elim row (row.insert schema.idField))

/-- The primary key of an answered row. -/
def primaryKey (schema : Schema) (row : Object) : Except ApiError Json :=
  match row.get? schema.idField with
  | some id => .ok id
  | none => .error (missingId schema)

/-- Fails with the first identifier that is not in the target's table. -/
def requireExisting (scope : Scope) (a : Association) (ids : List Json) : Action Unit := do
  if ids.isEmpty then return
  let found ← Action.perform scope (.existingIds a.target ids)
  match ids.find? fun id => !found.any id.agrees with
  | some missing => throw (targetNotFound a missing)
  | none => return

/-- Refuses a payload that gives another identifier than the one addressed. -/
def checkPayloadId (schema : Schema) (id : Json) (payload : Payload) : Except ApiError Unit :=
  match payload.id with
  | some given => if given.agrees id then .ok () else .error (wrongId schema id)
  | none => .ok ()

/-! ## Linkage -/

/-- Puts keys into a row, each after its row was found, and notes them as related. -/
def inlineKeys (scope : Scope) : List OwnKey → Object → Object → Action (Object × Object)
  | [], row, related => return (row, related)
  | key :: rest, row, related => do
    if let some id := key.id then requireExisting scope key.association [id]
    let value := key.id.getD .null
    inlineKeys scope rest (row.insert key.field value)
      (related.insert key.association.name value)

/-- The identifiers to link: those of existing rows, then those of the rows created for it. -/
def resolveTargets (scope : Scope) (a : Association) (link : Link) : Action (List Json) := do
  let ids := link.targets.filterMap fun
    | .byId id => some id
    | .create _ => none
  let rows ← (link.targets.filterMap fun
    | .byId _ => none
    | .create row => some row).mapM (fillId a.target)
  requireExisting scope a ids
  if rows.isEmpty then return ids
  let created ← Action.perform scope (.bulkCreate a.target rows)
  return ids ++ (← created.mapM fun row => (primaryKey a.target row : Except ApiError Json))

/-- What a relationship leads to, as a record shows it. -/
def linkedIds (a : Association) (ids : List Json) : Json :=
  match a.cardinality with
  | .one => ids.head?.getD .null
  | .many => .arr ids

/-- Writes links to a parent, and notes them as related. -/
def writeLinks (scope : Scope) (write : Association → List Json → Operation) :
    List (Association × Link) → Object → Action Object
  | [], related => return related
  | (a, link) :: rest, related => do
    let ids ← resolveTargets scope a link
    let _ ← Action.perform scope (write a ids)
    writeLinks scope write rest (related.insert a.name (linkedIds a ids))

/-! ## Writes -/

/-- Creates a row with its linkage. -/
def createWith (scope : Scope) (schema : Schema) (given : Option Json) (parts : Parts) :
    Action Record := do
  let (row, related) ← inlineKeys scope parts.keys parts.attributes []
  let created ← Action.perform scope (.create schema (← assignId schema given row))
  let id ← primaryKey schema created
  let related ← writeLinks scope (fun a ids => .addLinks a id ids) parts.links related
  return ⟨id, created, related⟩

/-- Changes a row and its linkage. -/
def updateWith (r : Registry) (scope : Scope) (schema : Schema) (id : Json) (parts : Parts) :
    Action Record := do
  if (← Action.perform scope (.existingIds schema [id])).isEmpty then throw (notFound schema id)
  let (row, related) ← inlineKeys scope parts.keys parts.attributes []
  if !row.isEmpty then
    let _ ← Action.perform scope (.update schema row (.idIs schema id))
  let related ← writeLinks scope (fun a ids => .setLinks a id ids) parts.links related
  reload r scope schema id related

/-- The parts of a payload. -/
def parts (r : Registry) (schema : Schema) (payload : Payload) : Except ApiError Parts :=
  (Parts.ofPayload r schema payload).mapError PartsError.toApiError

/-- Creates a row. -/
def create (r : Registry) (schema : Schema) (payload : Payload) : Action Record := do
  let parts ← parts r schema payload
  if parts.hasRelationships then
    Action.inTransaction (createWith .transaction schema payload.id parts)
  else
    let row ← assignId schema payload.id parts.attributes
    let created ← Action.perform .store (.create schema row)
    return ⟨← primaryKey schema created, created, []⟩

/-- Creates a row in the open transaction. -/
def createIn (r : Registry) (schema : Schema) (payload : Payload) : Action Record := do
  createWith .transaction schema payload.id (← parts r schema payload)

/-- Changes the row of an identifier. -/
def update (r : Registry) (schema : Schema) (id : Json) (payload : Payload) : Action Record := do
  checkPayloadId schema id payload
  let parts ← parts r schema payload
  if parts.hasRelationships then
    Action.inTransaction (updateWith r .transaction schema id parts)
  else
    let changed ← Action.perform .store (.update schema parts.attributes (.idIs schema id))
    if changed = 0 then throw (notFound schema id)
    reload r .store schema id []

/-- Changes the row of an identifier in the open transaction. -/
def updateIn (r : Registry) (schema : Schema) (id : Json) (payload : Payload) : Action Record := do
  checkPayloadId schema id payload
  updateWith r .transaction schema id (← parts r schema payload)

/-- Deletes the row of an identifier. -/
def destroy (scope : Scope) (schema : Schema) (id : Json) : Action Unit := do
  if (← Action.perform scope (.destroy schema (.idIs schema id))) = 0 then
    throw (notFound schema id)

end Engine

end ResourceApi
