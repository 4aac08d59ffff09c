import ResourceApi.Schema.Registry
import ResourceApi.Write.Payload

/-!
# Parts of a payload

A payload is divided by where its parts are stored. The attributes and the keys of `belongsTo`
relationships go into the row itself; all other links are written once the row exists.
-/

namespace ResourceApi

/-- Why a payload cannot be divided. -/
inductive PartsError where
  | unknownRelationship (schema relationship : String)
  | unexpectedArray (relationship kind : String)
  | expectedArray (relationship kind : String)
  /-- The row of a `belongsTo` relationship must exist before. -/
  | cannotCreate (relationship target : String)
  deriving DecidableEq, Repr

namespace PartsError

/-- The kind under which the error is reported. -/
def kind : PartsError → ErrorKind
  | unknownRelationship .. => .relationshipPath
  | _ => .unexpectedValue

/-- The error in words. -/
def detail : PartsError → String
  | unknownRelationship schema relationship => s!"'{schema}' has no relationship '{relationship}'."
  | unexpectedArray relationship kind =>
    s!"Relationship '{relationship}' is {kind} and must not have 'data' as an array."
  | expectedArray relationship kind =>
    s!"Relationship '{relationship}' is {kind} and must have 'data' as an array."
  | cannotCreate _ target =>
    s!"A belongsTo relationship must reference an existing '{target}' by 'id'."

/-- The member of the document that the error is about. -/
def pointer : PartsError → String
  | unknownRelationship _ relationship => s!"/data/relationships/{relationship}"
  | unexpectedArray relationship _ | expectedArray relationship _ | cannotCreate relationship _ =>
    s!"/data/relationships/{relationship}/data"

/-- The error as it is reported. -/
def toApiError (e : PartsError) : ApiError := .of e.kind e.detail (.pointer e.pointer)

end PartsError

/-- A key that goes into the written row. -/
structure OwnKey where
  association : Association
  /-- The field that holds the key. -/
  field : String
  /-- The related row; nothing clears the key. -/
  id : Option Json
  deriving DecidableEq, Repr

/-- A payload, divided by where its parts are stored. -/
structure Parts where
  /-- The attributes of the row itself. -/
  attributes : Object
  /-- The keys that go into the row. -/
  keys : List OwnKey
  /-- The links that are written after the row. -/
  links : List (Association × Link)
  deriving DecidableEq, Repr

namespace Parts

/-- Whether the payload has linkage. -/
def hasRelationships (p : Parts) : Bool := !p.keys.isEmpty || !p.links.isEmpty

/-- Files the link of an association. -/
def addLink (p : Parts) (a : Association) (link : Link) : Except PartsError Parts :=
  match a.cardinality, link with
  | .one, .many _ => .error (.unexpectedArray a.name a.kind.name)
  | .many, .one _ => .error (.expectedArray a.name a.kind.name)
  | _, _ =>
    match a.kind, link with
    | .belongsTo field, .one none => .ok { p with keys := p.keys ++ [⟨a, field, none⟩] }
    | .belongsTo field, .one (some (.byId id)) =>
      .ok { p with keys := p.keys ++ [⟨a, field, some id⟩] }
    | .belongsTo _, .one (some (.create _)) => .error (.cannotCreate a.name a.target.name)
    | _, link => .ok { p with links := p.links ++ [(a, link)] }

/-- Divides a payload. The first link that does not fit its relationship is the error. -/
def ofPayload (r : Registry) (schema : Schema) (payload : Payload) : Except PartsError Parts :=
  payload.relationships.foldlM (fun p (name, link) =>
    match r.association? schema name with
    | none => .error (.unknownRelationship schema.name name)
    | some a => p.addLink a link) ⟨payload.attributes, [], []⟩

end Parts

end ResourceApi
