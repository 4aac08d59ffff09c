import ResourceApi.Sql.Integrity

/-!
# Depth of statements

A database refuses a statement whose expressions are too deep. The names of an expression are
looked up on its tree, and on the way into a subquery the heights of all trees around it add up;
the sum has a bound. A path of `n` relationships in a condition therefore costs about `n²`.

A qualified column has height two, because the point in it is an operator.
-/

namespace ResourceApi

/-- How deep an expression is. -/
structure Depth where
  /-- The height of its tree. -/
  height : Nat
  /-- The largest sum of heights inside of its subqueries. -/
  inner : Nat := 0
  deriving DecidableEq, Repr

namespace Depth

/-- A value, a mark or a name. -/
def leaf : Depth := ⟨1, 0⟩

/-- A column behind its alias. -/
def qualified : Depth := ⟨2, 0⟩

/-- The bound on the number of rows. -/
def bound : Depth := ⟨2, 0⟩

/-- The largest of some numbers. -/
def largest (ns : List Nat) : Nat := ns.foldl max 0

/-- The sum of heights that is reached when the names of an expression are looked up. -/
def total (d : Depth) : Nat := d.height + d.inner

/-- An operator or function with its operands. -/
def node (operands : List Depth) : Depth :=
  ⟨largest (operands.map (·.height)) + 1, largest (operands.map (·.inner))⟩

/-- The parts of a subquery, as an operand of what contains it. -/
def query (parts : List Depth) : Depth :=
  ⟨largest (parts.map (·.height)), largest (parts.map (·.total))⟩

/-- A conjunction or disjunction: the last operator is the outermost. -/
def chain : List Depth → Depth
  | [] => ⟨0, 0⟩
  | first :: rest => rest.foldl (fun left right => node [left, right]) first

/-- The bound on a sum of heights. -/
def maximum : Nat := 1000

end Depth

open Depth (leaf qualified bound node query chain)

/-- The depth of a join condition. -/
def JoinCondition.depth : JoinCondition → Depth
  | equal .. => node [qualified, qualified]
  | through .. => node [qualified, query [qualified, node [qualified, qualified]]]

namespace RowCondition

mutual

/-- The depth of a condition. -/
def depth : RowCondition → Depth
  | always | never => node [leaf, leaf]
  | all children | any children => chain (depths children)
  | isNull _ | isNotNull _ | compare .. | among .. => node [qualified, leaf]
  | notAmong .. => node [node [qualified, leaf]]
  | ilike .. => node [node [qualified], node [leaf]]
  | hasRelated _ _ join condition => node [query [leaf, chain [join.depth, depth condition]]]

/-- The depths of several conditions. -/
def depths : List RowCondition → List Depth
  | [] => []
  | c :: rest => depth c :: depths rest

end

end RowCondition

/-- The depth of a value to sort by. -/
def SortValue.depth : SortValue → Depth
  | column _ => qualified
  | related value _ _ join => node [query [value.depth, join.depth, bound]]

/-- The depth of what a member holds. -/
def MemberValue.depth : MemberValue → Depth
  | column _ => qualified
  | constant _ => leaf

namespace RelatedQuery

mutual

/-- The depth of a query for related rows. -/
def depth : RelatedQuery → Depth
  | mk many fields nested _ _ _ join =>
    let object := node (fields.flatMap (fun (_, value) => [leaf, value.depth]) ++ depths nested)
    node [query ([if many then node [object] else object, join.depth]
      ++ if many then [] else [bound])]

/-- The depths of the members that hold related rows. -/
def depths : List (String × RelatedQuery) → List Depth
  | [] => []
  | (_, query) :: rest => node [depth query] :: depths rest

end

end RelatedQuery

/-- The depth of a query for keys, as an operand of what contains it. -/
def KeyQuery.depth (q : KeyQuery) : Depth :=
  query (qualified :: (q.condition.map (·.depth)).toList)

/-- The depth of a query. -/
def SelectQuery.depth (q : SelectQuery) : Depth :=
  query (q.columns.map (fun _ => qualified) ++ q.related.map (·.depth)
    ++ (q.condition.map (·.depth)).toList ++ q.order.map (·.1.depth))

/-- The largest sum of heights in a statement. -/
def Statement.depth : Statement → Nat
  | select q => q.depth.inner
  | count q => q.depth.inner
  | update q _ | delete q => (node [leaf, q.depth]).total
  | setKey _ _ _ guards => (chain (guards.map fun _ => node [node [leaf, leaf]])).total
  | insert .. | present .. | deleteLinks .. | insertLinks .. => 0

end ResourceApi
