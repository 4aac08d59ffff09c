import ResourceApi.Engine.Basic
import ResourceApi.Query.Compile
import ResourceApi.Service.Route
import ResourceApi.Settings.Basic

/-!
# Dispatch

`Service.dispatch` finds the route of a request and answers the action that serves it. Input is
checked before the store is called: a request that is rejected, or that has no route, leads to
no call at all.
-/

namespace ResourceApi

/-- What a served request results in. -/
inductive Outcome where
  /-- The rows of a page, and the number of rows on all pages. -/
  | found (rows : List Object) (count : Nat) (plan : Plan)
  | foundOne (row : Object) (plan : Plan)
  | created (record : Record)
  | updated (record : Record)
  | destroyed
  deriving Repr

/-- Why a request was not served. -/
inductive Failure where
  /-- A phase refused the input. -/
  | rejected (rejection : Rejection)
  /-- The identifier in the path is none, or the store did not do its part. -/
  | failed (error : ApiError)
  deriving DecidableEq, Repr

namespace Failure

/-- The errors that are reported. -/
def errors : Failure → List ApiError
  | rejected r => r.errors
  | failed e => [e]

/-- The rejection behind a failure. -/
def rejection? : Failure → Option Rejection
  | rejected r => some r
  | failed _ => none

end Failure

/-- A registry, served under a prefix. -/
structure Service where
  registry : Registry
  /-- The path under which the resources are served. -/
  served : String
  deriving DecidableEq, Repr

namespace Service

/-- A service with the given settings. -/
def ofSettings (registry : Registry) (settings : Settings) : Service :=
  ⟨registry, settings.apiPrefix⟩

/-- Serving a request: a program over a store that may fail. -/
abbrev Serving := ExceptT Failure Program

/-- An action, as a part of serving a request. -/
def act {α : Type} (action : Action α) : Serving α := action.adapt Failure.failed

/-- Checked input. -/
def accept {α : Type} (input : Except Rejection α) : Serving α :=
  ExceptT.mk (pure (input.mapError Failure.rejected))

/-- The identifier in a path. -/
def pathId (schema : Schema) (raw : String) : Except ApiError Json :=
  match schema.parseId? raw with
  | some id => .ok id
  | none => .error (.of .unexpectedValue (schema.invalidId raw) (.parameter "id"))

/-- Serves a route. An absent body counts as `null`. -/
def serve (r : Registry) (query : String) (body : Json) : Route → Serving Outcome
  | .findAll schema => do
    let plan ← accept (Plan.ofQuery r schema query none)
    let (rows, count) ← act (Engine.findAll .store schema plan)
    return .found rows count plan
  | .findOne schema raw => do
    let plan ← accept (Plan.ofQuery r schema query (some raw))
    let id ← act (pathId schema raw : Except ApiError Json)
    return .foundOne (← act (Engine.findOne .store schema id plan)) plan
  | .create schema => do
    let payload ← accept (Payload.ofDocument r schema .create body)
    return .created (← act (Engine.create r schema payload))
  | .update schema raw => do
    let id ← act (pathId schema raw : Except ApiError Json)
    let payload ← accept (Payload.ofDocument r schema .update body)
    return .updated (← act (Engine.update r schema id payload))
  | .destroy schema raw => do
    let id ← act (pathId schema raw : Except ApiError Json)
    act (Engine.destroy .store schema id)
    return .destroyed

/-- The route of a request. -/
def route? (s : Service) (request : Request) : Option Route :=
  Route.resolve? s.registry s.served request.method request.path

/-- The action that serves a request, if it has a route. -/
def dispatch (s : Service) (request : Request) : Option (Serving Outcome) :=
  (s.route? request).map (serve s.registry request.query (request.body.getD .null))

end Service

end ResourceApi
