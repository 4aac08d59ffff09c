import ResourceApi.ApiError

/-!
# Rejected input

Input is refused as a whole by one phase: reading a query string, compiling it, checking the
structure of a document, or building a payload from it. A rejection keeps the phase beside the
errors, because an observer is told which phase refused how much.
-/

namespace ResourceApi

/-- A phase that can refuse input. -/
inductive Phase where
  | parse
  | compile
  /-- Checking the structure of a document. -/
  | document
  | payload
  deriving DecidableEq, Repr

/-- The name of a phase. -/
def Phase.name : Phase → String
  | parse => "parse"
  | compile => "compile"
  | document => "structure"
  | payload => "payload"

/-- Input refused by a phase. -/
structure Rejection where
  phase : Phase
  errors : List ApiError
  deriving DecidableEq, Repr

/-- The faults and the results of a list of checks, each in order. -/
def sortOut {ε α : Type} : List (Except ε α) → List ε × List α
  | [] => ([], [])
  | .error e :: rest => (e :: (sortOut rest).1, (sortOut rest).2)
  | .ok a :: rest => ((sortOut rest).1, a :: (sortOut rest).2)

end ResourceApi
