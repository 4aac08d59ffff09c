import ResourceApi.Coercion
import ResourceApi.Rejection
import ResourceApi.Schema.Registry

/-!
# Structure of write documents

A write document has a `data` member with the type of the resource, its attributes and,
optionally, linkage for its relationships. A `Fault` is a cause together with the path of the
member it is about; the path is reported as a JSON pointer.

The container members are checked in turn and the first fault among them is the only one
reported. Relationships are then checked one by one, in the order of their names, and all their
faults are reported.
-/

namespace ResourceApi

/-- What is wrong with a member of a write document. -/
inductive FaultCause where
  | dataMissing
  | dataNotObject
  | typeMissing
  | wrongType (schema : String)
  | attributesMissing
  | attributesNotObject
  | relationshipsNotObject
  | unknownRelationship (name schema : String) (known : List String)
  | linkageMissing (name : String)
  | wrongCardinality (name : String) (kind : AssociationKind)
  | badValue (cause : CoercionError)
  | unknownAttribute (known : List String)
  | nullAttribute (name : String)
  | attributeMissing (name : String)
  | linkageNotObject
  | wrongLinkageType (schema : String)
  | linkageEmpty
  /-- Linkage of a `belongsTo` relationship describes a new row. -/
  | cannotCreate (schema : String)
  deriving DecidableEq, Repr

namespace FaultCause

/-- The kind under which the fault is reported. -/
def kind : FaultCause → ErrorKind
  | dataMissing | typeMissing | attributesMissing | linkageMissing _ | nullAttribute _
  | attributeMissing _ | linkageEmpty => .valueRequired
  | unknownRelationship .. => .relationshipPath
  | _ => .unexpectedValue

/-- What the `data` member of a relationship must be. -/
def expected : Cardinality → String
  | .one => "an object"
  | .many => "an array"

/-- The fault in words. -/
def detail : FaultCause → String
  | dataMissing => "Payload must include 'data'."
  | dataNotObject => "Payload must have 'data' as an object."
  | typeMissing => "Payload must include 'type'."
  | wrongType schema => s!"Payload must have 'type' as '{schema}'."
  | attributesMissing => "Payload must include 'attributes'."
  | attributesNotObject => "Payload must have 'attributes' as an object."
  | relationshipsNotObject => "Payload must have 'relationships' as an object."
  | unknownRelationship name schema known =>
    if known.isEmpty then s!"'{schema}' has no relationships; '{name}' is unknown."
    else s!"Payload must have 'relationships' as one or more of {quotedList known}."
  | linkageMissing name => s!"Payload must include 'data' for relationship '{name}'."
  | wrongCardinality name kind =>
    s!"Relationship '{name}' is {kind.name} and must have 'data' as {expected kind.cardinality}."
  | badValue cause => cause.message
  | unknownAttribute known =>
    s!"Payload must have 'attributes' containing one or more of {quotedList known}."
  | nullAttribute name => s!"Payload must include a non-null value for '{name}'."
  | attributeMissing name => s!"Payload must include a value for '{name}'."
  | linkageNotObject =>
    "Relationship linkage must be an object with 'type' and 'id' or 'attributes'."
  | wrongLinkageType schema => s!"Relationship linkage must have 'type' as '{schema}'."
  | linkageEmpty => "Relationship linkage must include 'id' or 'attributes'."
  | cannotCreate schema =>
    s!"A belongsTo relationship must reference an existing '{schema}' by 'id'."

end FaultCause

/-- A fault of a write document, with the names that lead to the member it is about. -/
structure Fault where
  cause : FaultCause
  path : List String
  deriving DecidableEq, Repr

/-- The text of a path: every name behind a slash. -/
def pointerText (path : List String) : String := String.join (path.map fun name => "/" ++ name)

/-- The fault as it is reported. -/
def Fault.toApiError (f : Fault) : ApiError :=
  .of f.cause.kind f.cause.detail (.pointer (pointerText f.path))

namespace Document

variable (r : Registry) (schema : Schema)

/-- Whether linkage has the shape that the cardinality asks for. -/
def hasShape : Cardinality → Json → Bool
  | .one, .obj _ | .one, .null | .many, .arr _ => true
  | _, _ => false

/-- The fault of one relationship member, if it has one. -/
def relationshipFault? (member : String × Json) : Option Fault :=
  let (name, value) := member
  let path := ["data", "relationships", name]
  match r.association? schema name with
  | none => some ⟨.unknownRelationship name schema.name schema.relationshipNames, path⟩
  | some a =>
    match value.get? "data" with
    | none => some ⟨.linkageMissing name, path ++ ["data"]⟩
    | some linkage =>
      if hasShape a.cardinality linkage then none
      else some ⟨.wrongCardinality name a.kind, path ++ ["data"]⟩

/-- The fault of the `type` member, if it has one. -/
def typeFault? (data : Object) : Option Fault :=
  let path := ["data", "type"]
  match (data.get? "type").getD .null with
  | .null => some ⟨.typeMissing, path⟩
  | .str type =>
    if type = schema.name ∨ type = schema.fullName then none
    else some ⟨.wrongType schema.name, path⟩
  | _ => some ⟨.wrongType schema.name, path⟩

/-- The fault of the `attributes` member, if it has one. -/
def attributesFault? (data : Object) : Option Fault :=
  let path := ["data", "attributes"]
  match (data.get? "attributes").getD .null with
  | .null => some ⟨.attributesMissing, path⟩
  | .obj _ => none
  | _ => some ⟨.attributesNotObject, path⟩

/-- The faults of the structure of a document. -/
def structureFaults (body : Json) : List Fault :=
  match body.getD "data" with
  | .null => [⟨.dataMissing, ["data"]⟩]
  | .obj data =>
    match (typeFault? schema data).or (attributesFault? data) with
    | some fault => [fault]
    | none =>
      match (Object.get? "relationships" data).getD .null with
      | .null => []
      | .obj relationships => relationships.filterMap (relationshipFault? r schema)
      | _ => [⟨.relationshipsNotObject, ["data", "relationships"]⟩]
  | _ => [⟨.dataNotObject, ["data"]⟩]

/-- Refuses a document whose structure is at fault. -/
def checkStructure (body : Json) : Except Rejection Unit :=
  match structureFaults r schema body with
  | [] => .ok ()
  | faults => .error ⟨.document, faults.map (·.toApiError)⟩

end Document

end ResourceApi
