import ResourceApi.Query.Plan
import ResourceApi.Store.StoreError

/-!
# Store calls

Everything that is asked of a store: an `Operation` reads or writes rows, and a `Call` is an
operation on the store itself or in the open transaction, or it begins or ends a transaction.
Rows are objects keyed by field name. Each call has a type of answers.
-/

namespace ResourceApi

/-- An operation on the rows of a store. -/
inductive Operation where
  /-- The rows that a plan selects, with the rows it includes under their relationships. -/
  | find (schema : Schema) (plan : Plan)
  /-- The number of rows that meet a filter. -/
  | count (schema : Schema) (filter : Predicate)
  /-- Inserts a row and answers it as stored. -/
  | create (schema : Schema) (row : Object)
  /-- Inserts rows one after the other. -/
  | bulkCreate (schema : Schema) (rows : List Object)
  /-- Sets fields in the rows that meet a filter and answers their number. -/
  | update (schema : Schema) (row : Object) (filter : Predicate)
  /-- Deletes the rows that meet a filter and answers their number. -/
  | destroy (schema : Schema) (filter : Predicate)
  /-- Links rows to a parent, beside those already linked. -/
  | addLinks (association : Association) (parent : Json) (ids : List Json)
  /-- Links rows to a parent in place of those linked before. -/
  | setLinks (association : Association) (parent : Json) (ids : List Json)
  /-- Those of some primary keys that are present. -/
  | existingIds (schema : Schema) (ids : List Json)
  deriving Repr

/-- The answers to an operation. -/
abbrev Operation.Answer : Operation → Type
  | find .. => List Object
  | count .. => Nat
  | create .. => Object
  | bulkCreate .. => List Object
  | update .. => Nat
  | destroy .. => Nat
  | addLinks .. => Unit
  | setLinks .. => Unit
  | existingIds .. => List Json

/-- Where an operation takes place. -/
inductive Scope where
  /-- On the store itself: at once, and for good. -/
  | store
  /-- In the open transaction. -/
  | transaction
  deriving DecidableEq, Repr

/-- A call on a store. -/
inductive Call where
  | perform (scope : Scope) (operation : Operation)
  | begin
  | commit
  | rollback
  deriving Repr

/-- The answers to a call. -/
abbrev Call.Answer : Call → Type
  | perform _ operation => operation.Answer
  | begin => Unit
  | commit => Unit
  | rollback => Unit

/-- What a store answers: a value, or a failure. -/
abbrev Call.Reply (c : Call) : Type := Except StoreError c.Answer

end ResourceApi
