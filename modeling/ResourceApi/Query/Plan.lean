import ResourceApi.Query.Operator
import ResourceApi.Schema.Registry
import ResourceApi.Text.Split

/-!
# Query plans

A plan says what to read of a resource: which attributes, which rows, which related resources
with them, in which order, and which window of the result. A `Path` leads through relationships
to a field; in text its parts are joined by dots.
-/

namespace ResourceApi

/-- A field reached through a chain of relationships. -/
structure Path where
  relationships : List String
  field : String
  deriving DecidableEq, Repr

namespace Path

/-- The parts of a path. -/
def parts (p : Path) : List String := p.relationships ++ [p.field]

/-- The path with the given parts. -/
def ofParts (parts : List String) : Path := ⟨parts.dropLast, parts.getLastD ""⟩

/-- Reads a dotted text. -/
def ofText (s : String) : Path := ofParts (Text.pieces '.' s)

/-- The dotted text. -/
def text (p : Path) : String := ".".intercalate p.parts

end Path

/-- A single comparison. -/
structure Condition where
  path : Path
  operator : Operator
  /-- One value, or an array for the operators that take one. -/
  value : Json
  deriving DecidableEq, Repr

/-- A tree of comparisons. -/
inductive Predicate where
  | condition (c : Condition)
  | all (children : List Predicate)
  | any (children : List Predicate)
  deriving Repr

instance : Inhabited Predicate := ⟨.all []⟩

namespace Predicate

/-- Holds for every row. -/
def everything : Predicate := all []

/-- The primary key has the given value. The name of the key is read as a path, like every other
name in a predicate. -/
def idIs (schema : Schema) (id : Json) : Predicate :=
  condition ⟨.ofText schema.idField, .eq, id⟩

/-- Whether the tree is a conjunction or disjunction of nothing. -/
def isEmpty : Predicate → Bool
  | condition _ => false
  | all children | any children => children.isEmpty

end Predicate

/-- Which attributes to read. -/
inductive Selection where
  /-- The primary key and every declared attribute. -/
  | all
  | only (names : List String)
  deriving DecidableEq, Repr

/-- The selected attribute names of a schema. -/
def Selection.names (schema : Schema) : Selection → List String
  | all => schema.allFields
  | only names => names

/-- A related resource to read along, with resources related to it. -/
inductive IncludeNode where
  | mk (relationship target : String) (selection : Selection) (nested : List IncludeNode)
  deriving Repr

instance : Inhabited IncludeNode := ⟨.mk "" "" .all []⟩

namespace IncludeNode

/-- The relationship that leads to the resource. -/
def relationship : IncludeNode → String
  | mk r _ _ _ => r

/-- The full name of the related schema. -/
def target : IncludeNode → String
  | mk _ t _ _ => t

/-- The attributes to read. -/
def selection : IncludeNode → Selection
  | mk _ _ s _ => s

/-- The resources to read along with the related one. -/
def nested : IncludeNode → List IncludeNode
  | mk _ _ _ n => n

/-- A node that reads every attribute and nothing along. -/
def leaf (relationship target : String) : IncludeNode := mk relationship target .all []

/-- The node that a sequence of relationships leads to. -/
def find? : List IncludeNode → List String → Option IncludeNode
  | _, [] => none
  | nodes, first :: rest =>
    match nodes.find? (·.relationship = first) with
    | none => none
    | some node => if rest.isEmpty then some node else find? node.nested rest

end IncludeNode

/-- The direction of a sort key. -/
inductive Direction where
  | asc
  | desc
  deriving DecidableEq, Repr

/-- A field to sort by. -/
structure SortKey where
  path : Path
  direction : Direction
  deriving DecidableEq, Repr

/-- What to read of a resource. -/
structure Plan where
  attributes : Selection := .all
  filter : Predicate := .everything
  includes : List IncludeNode := []
  sort : List SortKey := []
  limit : Option Nat := none
  offset : Option Nat := none
  deriving Repr

/-- The plan that reads one row with all its attributes. -/
def Plan.forId (schema : Schema) (id : Json) : Plan :=
  { filter := .all [.idIs schema id] }

end ResourceApi
