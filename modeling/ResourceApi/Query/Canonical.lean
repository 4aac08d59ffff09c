import ResourceApi.Query.Plan

/-!
# Canonical order

A plan leaves some orders open: that of included rows, and that of all rows when it does not
sort. `Plan.canonical` fixes them by primary key, so that two answers to one plan can be
compared. A row without its primary key keeps its place.
-/

namespace ResourceApi

/-- The order of primary keys: integers by value, then texts by code point. -/
def keyLE : Json → Json → Bool
  | .int a, .int b => a ≤ b
  | .str a, .str b => a ≤ b
  | .str _, .int _ => false
  | _, _ => true

/-- Puts elements one after the other into the places where there is a key. -/
def refill {α : Type} (key : α → Option Json) : List α → List α → List α
  | x :: xs, y :: ys => if (key x).isSome then y :: refill key xs ys else x :: refill key xs (y :: ys)
  | xs, _ => xs

/-- Sorts by key; an element without one keeps its place. -/
def sortByKey {α : Type} (key : α → Option Json) (xs : List α) : List α :=
  refill key xs ((xs.filter fun x => (key x).isSome).mergeSort fun a b =>
    keyLE ((key a).getD .null) ((key b).getD .null))

namespace Plan

variable (r : Registry)

mutual

/-- Brings included rows into canonical order, innermost first. -/
def canonicalInclude (row : Object) : IncludeNode → Object
  | .mk relationship target _ nested =>
    match row.get? relationship with
    | some (.arr items) =>
      let items := items.map fun
        | .obj members => .obj (canonicalIncludes members nested)
        | item => item
      let items := match r.schema? target with
        | some schema => sortByKey (·.get? schema.idField) items
        | none => items
      row.insert relationship (.arr items)
    | some (.obj members) => row.insert relationship (.obj (canonicalIncludes members nested))
    | _ => row

/-- Brings the rows of several include nodes into canonical order. -/
def canonicalIncludes (row : Object) : List IncludeNode → Object
  | [] => row
  | node :: rest => canonicalIncludes (canonicalInclude row node) rest

end

/-- Brings a row's included rows into canonical order. -/
def canonicalRow (p : Plan) (row : Object) : Object := canonicalIncludes r row p.includes

/-- Brings the rows of an answer into canonical order, unless the plan sorts them. -/
def canonical (schema : Schema) (p : Plan) (rows : List Object) : List Object :=
  let rows := rows.map (p.canonicalRow r)
  if p.sort.isEmpty then sortByKey (Object.get? schema.idField) rows else rows

end Plan

end ResourceApi
