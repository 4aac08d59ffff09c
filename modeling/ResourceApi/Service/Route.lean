import ResourceApi.Schema.Registry
import ResourceApi.Text.Percent
import ResourceApi.Text.Split

/-!
# Requests and routes

A resource is served under a prefix and its endpoint: the collection at the endpoint itself, a
member one segment below it. A request that matches no route belongs to somebody else.
-/

namespace ResourceApi

/-- The method of a request. -/
inductive Method where
  | get
  | post
  | patch
  | delete
  | other
  deriving DecidableEq, Repr

/-- The method of a name, in any case. -/
def Method.ofName (name : String) : Method :=
  match String.ofList (name.toList.map Char.toUpper) with
  | "GET" => get
  | "POST" => post
  | "PATCH" => patch
  | "DELETE" => delete
  | _ => other

/-- A request. -/
structure Request where
  method : Method
  path : String
  /-- What follows the question mark. -/
  query : String
  body : Option Json
  deriving DecidableEq, Repr

/-- The request for a target, which is cut at its first question mark. -/
def Request.ofTarget (method : Method) (target : String) (body : Option Json) : Request :=
  match Text.cutFirst '?' target.toList with
  | some (path, query) => ⟨method, String.ofList path, String.ofList query, body⟩
  | none => ⟨method, target, "", body⟩

/-- The operation that a request asks for. -/
inductive Route where
  | findAll (schema : Schema)
  | findOne (schema : Schema) (id : String)
  | create (schema : Schema)
  | update (schema : Schema) (id : String)
  | destroy (schema : Schema) (id : String)
  deriving DecidableEq, Repr

namespace Route

/-- The resource of a route. -/
def schema : Route → Schema
  | findAll s | findOne s _ | create s | update s _ | destroy s _ => s

/-- The route of a method on a collection. -/
def ofCollection? (schema : Schema) : Method → Option Route
  | .get => some (findAll schema)
  | .post => some (create schema)
  | _ => none

/-- The route of a method on a member. -/
def ofMember? (schema : Schema) (id : String) : Method → Option Route
  | .get => some (findOne schema id)
  | .patch => some (update schema id)
  | .delete => some (destroy schema id)
  | _ => none

/-- What follows `lead`, if the text begins with it. -/
def afterLead? (lead cs : List Char) : Option (List Char) :=
  if lead.isPrefixOf cs then some (cs.drop lead.length) else none

/-- The part of a path below the served one, without slashes at its end. -/
def body? (served path : String) : Option (List Char) := do
  let rest ← afterLead? (Text.trimEnd '/' served.toList) path.toList
  let rest ← afterLead? ['/'] rest
  let body := Text.trimEnd '/' rest
  if body.isEmpty then none else some body

/-- The route of a method and a path. -/
def resolve? (r : Registry) (served : String) (method : Method) (path : String) :
    Option Route := do
  let body ← body? served path
  match r.byEndpoint? (String.ofList body) with
  | some schema => ofCollection? schema method
  | none =>
    let (endpoint, rawId) ← Text.cutLast '/' body
    let schema ← r.byEndpoint? (String.ofList endpoint)
    let id ← Text.Percent.decode? (String.ofList rawId)
    ofMember? schema id method

end Route

end ResourceApi
