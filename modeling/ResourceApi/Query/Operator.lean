/-!
# Filter operators
-/

namespace ResourceApi

/-- A comparison that a filter can ask for. -/
inductive Operator where
  | eq
  | ne
  | gt
  | gte
  | lt
  | lte
  | among
  | notAmong
  | like
  | ilike
  deriving DecidableEq, Repr

namespace Operator

/-- Every operator, in the order in which they are listed to clients. -/
def all : List Operator := [eq, ne, gt, gte, lt, lte, among, notAmong, like, ilike]

/-- The name used in query strings. -/
def name : Operator → String
  | eq => "$eq"
  | ne => "$ne"
  | gt => "$gt"
  | gte => "$gte"
  | lt => "$lt"
  | lte => "$lte"
  | among => "$in"
  | notAmong => "$nin"
  | like => "$like"
  | ilike => "$ilike"

/-- The operator of a name. -/
def ofName? (name : String) : Option Operator := all.find? (·.name = name)

/-- Whether the operator compares with a list of values. -/
def takesArray : Operator → Bool
  | among | notAmong => true
  | _ => false

/-- Whether the operator compares with a text pattern. -/
def isPattern : Operator → Bool
  | like | ilike => true
  | _ => false

theorem ofName?_name (o : Operator) : ofName? o.name = some o := by cases o <;> decide

end Operator

end ResourceApi
