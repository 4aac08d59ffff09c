import ResourceApi.Write.Structure

/-!
# Write payloads

A payload is a document of sound structure with its attributes brought to their types and its
linkage read: each element refers to an existing row by its identifier or describes a row to be
created. All faults of a document are collected: those of the identifier, of the attributes in
the order of their names, of absent attributes in the order of their declaration, and of each
relationship in the order of their names.
-/

namespace ResourceApi

/-- Whether a document creates a row or changes one. -/
inductive WriteMode where
  /-- Defaults apply, and attributes that cannot be null are required. -/
  | create
  /-- Only the given attributes change. -/
  | update
  deriving DecidableEq, Repr

/-- One element of linkage. -/
inductive LinkTarget where
  /-- An existing row. -/
  | byId (id : Json)
  /-- A row to create. -/
  | create (row : Object)
  deriving DecidableEq, Repr

/-- The linkage of a relationship. -/
inductive Link where
  /-- To one row or, cleared, to none. -/
  | one (target : Option LinkTarget)
  | many (targets : List LinkTarget)
  deriving DecidableEq, Repr

/-- The elements of linkage. -/
def Link.targets : Link → List LinkTarget
  | one target => target.toList
  | many targets => targets

/-- A write to one resource. -/
structure Payload where
  /-- The full name of the schema. -/
  resourceType : String
  /-- The identifier that the document gives. -/
  id : Option Json := none
  attributes : Object
  /-- Linkage by relationship name, in the order of the document. -/
  relationships : List (String × Link) := []
  deriving DecidableEq, Repr

namespace Document

variable (r : Registry)

/-- The value of a given attribute. -/
def coerceMember (schema : Schema) (path : List String) (member : String × Json) :
    Except Fault (String × Json) :=
  let (name, value) := member
  let fault (cause : FaultCause) : Except Fault (String × Json) :=
    .error ⟨cause, path ++ [name]⟩
  match schema.attribute? name with
  | none => fault (.unknownAttribute schema.attributeNames)
  | some a =>
    if value.isNull then if a.nullable then .ok (name, .null) else fault (.nullAttribute name)
    else
      match a.coerce value with
      | .ok coerced => .ok (name, coerced)
      | .error cause => fault (.badValue cause)

/-- The value of an attribute that is not given: its default, nothing, or a fault. -/
def absentMember (path : List String) (a : Attribute) : Except Fault (Option (String × Json)) :=
  match a.default with
  | some value => .ok (some (a.name, value))
  | none =>
    if a.nullable then .ok none else .error ⟨.attributeMissing a.name, path ++ [a.name]⟩

/-- The row of given attributes, and the faults met. -/
def coerceAttributes (schema : Schema) (mode : WriteMode) (path : List String) (given : Object) :
    Object × List Fault :=
  let (faults, values) := sortOut (given.map (coerceMember schema path))
  let absent : List Attribute := match mode with
    | .create => schema.attributes.filter fun a => !given.has a.name
    | .update => []
  let (missing, defaults) := sortOut (absent.map (absentMember path))
  (Object.ofList (values ++ defaults.filterMap id), faults ++ missing)

/-- Reads one element of linkage. A `belongsTo` relationship refers to existing rows only. -/
def readTarget (target : Schema) (belongsTo : Bool) (path : List String) (element : Json) :
    Option LinkTarget × List Fault :=
  match element with
  | .obj members =>
    let wrongType := match Object.get? "type" members with
      | some (.str type) => type != target.name && type != target.fullName
      | _ => false
    if wrongType then (none, [⟨.wrongLinkageType target.name, path ++ ["type"]⟩])
    else
      match (Object.get? "id" members).getD .null with
      | .null =>
        match Object.get? "attributes" members with
        | some (.obj given) =>
          if belongsTo then (none, [⟨.cannotCreate target.name, path⟩])
          else
            let (row, faults) := coerceAttributes target .create (path ++ ["attributes"]) given
            (some (.create row), faults)
        | _ => (none, [⟨.linkageEmpty, path⟩])
      | id =>
        match target.coerceId id with
        | .ok id => (some (.byId id), [])
        | .error cause => (none, [⟨.badValue cause, path ++ ["id"]⟩])
  | _ => (none, [⟨.linkageNotObject, path⟩])

/-- Whether the association stores its key in the source row. -/
def isBelongsTo (a : Association) : Bool := a.kind matches .belongsTo _

/-- Reads the linkage of a relationship. -/
def readLink (a : Association) (linkage : Json) : Option Link × List Fault :=
  let path := ["data", "relationships", a.name, "data"]
  match linkage with
  | .null => (some (.one none), [])
  | .arr elements =>
    let read := elements.zipIdx.map fun (element, i) =>
      readTarget a.target false (path ++ [toString i]) element
    (some (.many (read.filterMap (·.1))), read.flatMap (·.2))
  | element =>
    let (target, faults) := readTarget a.target (isBelongsTo a) path element
    (target.map fun t => .one (some t), faults)

/-- Reads a relationship member. -/
def readRelationship (schema : Schema) (member : String × Json) :
    Option (String × Link) × List Fault :=
  match r.association? schema member.1 with
  | none => (none, [])
  | some a =>
    let (link, faults) := readLink a (member.2.getD "data")
    (link.map (member.1, ·), faults)

/-- The identifier of a document, and its fault. -/
def readId (schema : Schema) (data : Json) : Option Json × List Fault :=
  match data.getD "id" with
  | .null => (none, [])
  | raw =>
    match schema.coerceId raw with
    | .ok id => (some id, [])
    | .error cause => (none, [⟨.badValue cause, ["data", "id"]⟩])

/-- The payload of a document of sound structure, and all its faults. -/
def readPayload (schema : Schema) (mode : WriteMode) (body : Json) : Payload × List Fault :=
  let data := body.getD "data"
  let (id, idFaults) := readId schema data
  let given := (data.getD "attributes").asObject?.getD []
  let (attributes, attributeFaults) := coerceAttributes schema mode ["data", "attributes"] given
  let read :=
    ((data.getD "relationships").asObject?.getD []).map (readRelationship r schema)
  (⟨schema.fullName, id, attributes, read.filterMap (·.1)⟩,
    idFaults ++ attributeFaults ++ read.flatMap (·.2))

end Document

namespace Payload

/-- A payload without linkage. -/
def ofAttributes (schema : Schema) (attributes : Object) : Payload :=
  ⟨schema.fullName, none, attributes, []⟩

/-- Whether the payload has linkage. -/
def hasRelationships (p : Payload) : Bool := !p.relationships.isEmpty

/-- Checks a document and reads it. -/
def ofDocument (r : Registry) (schema : Schema) (mode : WriteMode) (body : Json) :
    Except Rejection Payload := do
  Document.checkStructure r schema body
  match Document.readPayload r schema mode body with
  | (payload, []) => return payload
  | (_, faults) => throw ⟨.payload, faults.map (·.toApiError)⟩

end Payload

end ResourceApi
