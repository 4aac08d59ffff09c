import ResourceApi.Json.Basic

/-!
# Errors reported to clients

An `ApiError` has a kind, which fixes its status, code and title, a detail for people, and the
place in the request it is about. Internal errors have no place. `document` writes a list of
errors the way JSON:API answers them.
-/

namespace ResourceApi

/-- Where in a request an error originated. -/
inductive Location where
  /-- A query string parameter. -/
  | parameter (name : String)
  /-- A JSON pointer into the request document. -/
  | pointer (path : String)
  | unknown
  deriving DecidableEq, Repr

/-- What went wrong, apart from its details. -/
inductive ErrorKind where
  /-- A mandatory member or parameter is absent. -/
  | valueRequired
  /-- A value fails a check of type, shape, range or cardinality. -/
  | unexpectedValue
  /-- A relationship name cannot be resolved. -/
  | relationshipPath
  /-- A row does not exist. -/
  | notFound
  /-- A uniqueness or reference constraint is violated. -/
  | conflict
  /-- Anything else. -/
  | internal
  deriving DecidableEq, Repr

namespace ErrorKind

/-- The HTTP status. -/
def status : ErrorKind → Nat
  | valueRequired | unexpectedValue | relationshipPath => 422
  | notFound => 404
  | conflict => 409
  | internal => 500

/-- The fixed title. -/
def title : ErrorKind → String
  | valueRequired => "Payload is missing a required value."
  | unexpectedValue => "Unexpected value."
  | relationshipPath => "Relationship path could not be identified."
  | notFound => "Resource not found."
  | conflict => "Record with the same value already exists."
  | internal => "Internal server error."

/-- The fixed code. -/
def code : ErrorKind → String
  | valueRequired => "value-required"
  | unexpectedValue => "unexpected-value"
  | relationshipPath => "relationship-path"
  | notFound => "not-found"
  | conflict => "conflict"
  | internal => "internal"

/-- The words in front of the detail where an error is shown in one line. -/
def label : ErrorKind → String
  | valueRequired => "Value required"
  | unexpectedValue => "Unexpected value"
  | relationshipPath => "Relationship path could not be identified"
  | notFound => "Not found"
  | conflict => "Conflict"
  | internal => "Internal error"

end ErrorKind

/-- An error reported to a client. -/
structure ApiError where
  kind : ErrorKind
  detail : String
  location : Location
  deriving DecidableEq, Repr

namespace ApiError

/-- An error of the given kind; an internal one forgets its place. -/
def of (kind : ErrorKind) (detail : String) (location : Location) : ApiError :=
  ⟨kind, detail, if kind = .internal then .unknown else location⟩

/-- An internal error. -/
def ofInternal (detail : String) : ApiError := ⟨.internal, detail, .unknown⟩

/-- The error in one line. -/
def display (e : ApiError) : String := e.kind.label ++ ": " ++ e.detail

/-- The member that names the place, where there is one. -/
def sourceMember : Location → List (String × Json)
  | .parameter name => [("source", .obj [("parameter", .str name)])]
  | .pointer path => [("source", .obj [("pointer", .str path)])]
  | .unknown => []

/-- The error object. -/
def toJson (e : ApiError) : Json :=
  .obj (Object.ofList ([("status", .int e.kind.status), ("code", .str e.kind.code),
    ("title", .str e.kind.title), ("detail", .str e.detail)] ++ sourceMember e.location))

/-- The document that answers a list of errors. -/
def document (errors : List ApiError) : Json := .obj [("errors", .arr (errors.map toJson))]

end ApiError

/-- Names in quotation marks, with commas between them. -/
def quotedList (names : List String) : String :=
  ", ".intercalate (names.map fun name => s!"'{name}'")

end ResourceApi
