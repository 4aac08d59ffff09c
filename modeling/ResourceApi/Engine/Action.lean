import ResourceApi.Json.Writer
import ResourceApi.Store.Program

/-!
# Actions

An `Action` is a program over a store that may fail with an error for the client; failures of
the store end it with the error that they are reported as. `inTransaction` runs an action
between a begin and exactly one commit or rollback.
-/

namespace ResourceApi

/-- A program over a store that may fail. -/
abbrev Action := ExceptT ApiError Program

namespace Action

variable {α : Type}

/-- One call; a failure is reported to the client. -/
def ask (c : Call) : Action c.Answer :=
  ExceptT.mk do return (← Program.ask c).mapError StoreError.toApiError

/-- One operation. -/
def perform (scope : Scope) (operation : Operation) : Action operation.Answer :=
  ask (.perform scope operation)

/-- A fresh identifier. -/
def drawn : Action String := ExceptT.lift Program.drawn

/-- Runs an action in a transaction of its own: it is committed when the action succeeds and
rolled back when it fails. The error of the action outlives a failure to roll back. -/
def inTransaction (work : Action α) : Action α := do
  ask .begin
  match ← ExceptT.lift work.run with
  | .ok a =>
    ask .commit
    return a
  | .error e =>
    let _ ← ExceptT.lift (Program.ask .rollback)
    throw e

end Action

/-- An identifier as it appears in messages: a text as it is, another value as JSON. -/
def displayId : Json → String
  | .str s => s
  | id => id.text

end ResourceApi
