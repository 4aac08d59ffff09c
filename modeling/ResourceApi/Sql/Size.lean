import ResourceApi.Sql.Depth

/-!
# Size of statements

A database refuses a statement that is too large: each of its lists has a bound, and so has the
depth of its expressions. The lists of values and arguments are counted while the text is read,
before any name is looked up. The terms of an order are counted last, when all names are known.
-/

namespace ResourceApi

/-! ## Arguments -/

namespace RelatedQuery

mutual

/-- The largest number of arguments of an object in a query for related rows. Each member has a key
and a value. -/
def arguments : RelatedQuery → Nat
  | mk _ fields nested _ _ _ _ =>
    max (2 * (fields.length + nested.length)) (argumentsOf nested)

/-- The largest number of arguments of an object in some members. -/
def argumentsOf : List (String × RelatedQuery) → Nat
  | [] => 0
  | (_, query) :: rest => max (arguments query) (argumentsOf rest)

end

end RelatedQuery

namespace Sql.Token

/-- The function that is the first to end with more than `limit` arguments. An opened bracket is
known by the token in front of it, and by the number of its arguments so far. -/
def overfull? (limit : Nat) : Option Token → List (Option Token × Nat) → List Token → Option Token
  | _, _, [] => none
  | before, [], token :: rest =>
    overfull? limit token (if token.isSymbol "(" then [(before, 1)] else []) rest
  | before, (function, n) :: outer, token :: rest =>
    if token.isSymbol "(" then overfull? limit token ((before, 1) :: (function, n) :: outer) rest
    else if token.isSymbol "," then overfull? limit token ((function, n + 1) :: outer) rest
    else if token.isSymbol ")" then
      match function.filter fun f => f.kind = .word && !f.isKeyword "IN" && limit < n with
      | some f => some f
      | none => overfull? limit token outer rest
    else overfull? limit token ((function, n) :: outer) rest

end Sql.Token

/-! ## Bounds -/

namespace Statement

/-- The largest number of values of a statement. -/
def maxValues : Nat := 32766

/-- The largest number of columns of a result, of columns to set and of terms of an order. -/
def maxTerms : Nat := 2000

/-- The largest number of arguments of a function. -/
def maxArguments : Nat := 1000

/-- The place of the first value too many in the text of a statement. -/
def excessPlace (sql : String) : Nat :=
  match ((Sql.Token.ofText sql).filter (·.kind = .mark))[maxValues]? with
  | some token => token.offset
  | none => sql.utf8ByteSize

/-- Refuses a query with the given text in which an object has too many members. -/
def checkArguments (q : SelectQuery) (sql : String) : Except Violation Unit :=
  if q.related.all (·.arguments ≤ maxArguments) then .ok ()
  else
    match Sql.Token.overfull? maxArguments none [] (Sql.Token.meaningful sql) with
    | some function => .error (.tooManyArguments function.text sql function.offset)
    | none => .ok ()

/-- Refuses a statement with the given text in which a list has too many members. -/
def checkLists (statement : Statement) (sql : String) : Except Violation Unit := do
  match statement with
  | select q =>
    checkArguments q sql
    if maxTerms < q.columns.length + q.related.length then .error (.tooManyTerms .result)
  | update _ values =>
    if maxTerms < values.length then .error (.tooManyTerms .assigned)
  | _ => return

/-- Refuses a statement with the given text that has too many values or is too deep. -/
def checkSize (statement : Statement) (sql : String) : Except Violation Unit := do
  if maxValues < statement.params.length then .error (.tooManyValues sql (excessPlace sql))
  checkLists statement sql
  if Depth.maximum < statement.depth then .error .tooDeep

/-- Refuses a query with too many terms in its order. -/
def checkOrder : Statement → Except Violation Unit
  | select q =>
    if maxTerms < q.order.length then .error (.tooManyTerms .order) else .ok ()
  | _ => .ok ()

end Statement

end ResourceApi
