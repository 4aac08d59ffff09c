import ResourceApi.ApiError

/-!
# Store failures
-/

namespace ResourceApi

/-- Why a store did not do what it was asked to. -/
inductive StoreError where
  | uniqueViolation (detail : String)
  | foreignKeyViolation (detail : String)
  /-- The request cannot be expressed: an unknown name or an unsupported value. -/
  | plan (detail : String)
  | database (detail : String)
  deriving DecidableEq, Repr

namespace StoreError

/-- The failure in words. -/
def message : StoreError → String
  | uniqueViolation detail => s!"unique constraint violated: {detail}"
  | foreignKeyViolation detail => s!"foreign key constraint violated: {detail}"
  | plan detail => s!"unable to execute plan: {detail}"
  | database detail => s!"database error: {detail}"

/-- The failure as it is reported to a client: violated constraints are conflicts. -/
def toApiError : StoreError → ApiError
  | uniqueViolation detail =>
    .of .conflict s!"Record with the same unique value already exists ({detail})." .unknown
  | foreignKeyViolation detail =>
    .of .conflict s!"Record references a row that does not exist ({detail})." .unknown
  | e => .ofInternal e.message

end StoreError

end ResourceApi
