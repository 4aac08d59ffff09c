import ResourceApi.Proofs.Query.Resolution
import ResourceApi.Proofs.Query.Meaning

/-!
# The rows that a predicate selects

The meaning of predicates that are built by hand. They may compare with null, which asks whether a
value is there (`Operator.meets`), and they may hold lists of no predicates: all of none holds for
every row, any of none for no row.

**Theorem (`Predicate.selects_eq_test`).** A predicate that does not compare with null selects the
rows for which it holds.
-/

namespace ResourceApi

/-- Whether a stored value meets an operator with its value or values. Null is equal to null and to
nothing else. -/
def Operator.meets (o : Operator) (affinity : Affinity) (value : Json) (stored : SqlValue) : Bool :=
  match o, value with
  | .eq, .null => stored == .null
  | .ne, .null => stored != .null
  | o, value => o.accepts affinity value stored

theorem Operator.meets_of_ne_null {value : Json} (h : value ≠ .null) (o : Operator)
    (affinity : Affinity) (stored : SqlValue) :
    o.meets affinity value stored = o.accepts affinity value stored := by
  unfold meets
  split
  · exact absurd rfl h
  · exact absurd rfl h
  · rfl

variable {r : Registry} {db : Database} {schema : Schema} {row : Tuple}

/-- Whether a condition selects a row: it reaches a row whose field meets the operator. -/
def Condition.selects (r : Registry) (db : Database) (schema : Schema) (row : Tuple)
    (c : Condition) : Bool :=
  r.reachesAny db (fun owner last => c.operator.meets
    (db.affinity owner.tableName (columnName c.path.field)) c.value
    (last.get (columnName c.path.field))) schema c.path.relationships row

namespace Predicate

mutual

/-- The value of a tree, given those of its conditions. -/
def eval (leaf : Condition → Bool) : Predicate → Bool
  | condition c => leaf c
  | all children => evalAll leaf children
  | any children => evalAny leaf children

/-- Whether every one of several trees is true. -/
def evalAll (leaf : Condition → Bool) : List Predicate → Bool
  | [] => true
  | child :: rest => eval leaf child && evalAll leaf rest

/-- Whether one of several trees is true. -/
def evalAny (leaf : Condition → Bool) : List Predicate → Bool
  | [] => false
  | child :: rest => eval leaf child || evalAny leaf rest

end

/-- A conjunction is true if all of its children are. -/
@[simp] theorem eval_all (leaf : Condition → Bool) (children : List Predicate) :
    (all children).eval leaf = children.all (·.eval leaf) := by
  rw [eval]
  induction children with
  | nil => rfl
  | cons child rest ih => rw [evalAll, ih, List.all_cons]

/-- A disjunction is true if one of its children is. -/
@[simp] theorem eval_any (leaf : Condition → Bool) (children : List Predicate) :
    (any children).eval leaf = children.any (·.eval leaf) := by
  rw [eval]
  induction children with
  | nil => rfl
  | cons child rest ih => rw [evalAny, ih, List.any_cons]

/-- Whether a predicate selects a row. -/
def selects (r : Registry) (db : Database) (schema : Schema) (p : Predicate) (row : Tuple) : Bool :=
  p.eval (·.selects r db schema row)

/-- The rows of the schema's table that a predicate selects. -/
def selected (r : Registry) (db : Database) (schema : Schema) (p : Predicate) : List Tuple :=
  (db.rows schema.tableName).filter (p.selects r db schema)

mutual

/-- **A predicate without null selects the rows for which it holds.** -/
theorem selects_eq_test : ∀ {p : Predicate}, p.Valued →
    p.selects r db schema row = p.test r db schema row
  | .condition c, hp => by
    rw [selects, eval, test, Condition.testAlong_eq, Condition.selects]
    simp only [Operator.meets_of_ne_null hp]
  | .all children, hp => by
    rw [selects, eval, test]
    exact (evalAll_eq_testAll hp).1
  | .any children, hp => by
    rw [selects, eval, test]
    exact (evalAll_eq_testAll hp).2

theorem evalAll_eq_testAll : ∀ {children : List Predicate}, AllValued children →
    evalAll (·.selects r db schema row) children = testAll r db schema row children ∧
      evalAny (·.selects r db schema row) children = testAny r db schema row children
  | [], _ => ⟨rfl, rfl⟩
  | child :: rest, hp => by
    have hchild : child.eval (·.selects r db schema row) = child.test r db schema row :=
      selects_eq_test hp.1
    have hrest := evalAll_eq_testAll hp.2
    rw [evalAll, evalAny, testAll, testAny, hchild, hrest.1, hrest.2]
    exact ⟨rfl, rfl⟩

end

end Predicate

end ResourceApi
