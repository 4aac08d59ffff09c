import ResourceApi.Sql.Change
import ResourceApi.Sql.Names
import ResourceApi.Sql.Reading
import ResourceApi.Sql.Reference
import ResourceApi.Sql.Size
import ResourceApi.Store.Decode
import ResourceApi.Store.Program

/-!
# Database sessions

A `Session` answers store calls from a database, one statement after the other, and tells an
observer of each statement and transaction. It has one connection: while a transaction is open,
every call on the store itself has to wait for its end, and as nobody else can end it, such a
call is blocked for good.

A transaction that ends without being committed leaves the database as it was before.
-/

namespace ResourceApi

/-- The beginning or the end of a transaction. -/
inductive TransactionStep where
  | begin
  | commit
  | rollback
  deriving DecidableEq, Repr

/-- The name of a step. -/
def TransactionStep.name : TransactionStep → String
  | begin => "begin"
  | commit => "commit"
  | rollback => "rollback"

/-- What an observer of a session is told. -/
inductive Event where
  /-- A statement is about to run, with this number of values. -/
  | query (sql : String) (params : Nat)
  | transaction (step : TransactionStep)
  deriving DecidableEq, Repr

/-- A call that waits for ever. -/
inductive Blocked where
  | blocked
  deriving DecidableEq, Repr

/-- A connection to a database. -/
structure Session where
  registry : Registry
  database : Database
  /-- The database as it was when the open transaction began. -/
  saved : Option Database := none
  /-- What the observer was told, in order. -/
  events : List Event := []
  /-- The number of identifiers drawn. -/
  drawn : Nat := 0
  deriving Repr

namespace Session

/-- Work on a database that may fail. What was done before a failure stays done. -/
abbrev Work := ExceptT StoreError (StateM Session)

/-- Tells the observer. -/
def tell (e : Event) : StateM Session Unit := modify fun s => { s with events := s.events ++ [e] }

/-- Fails where a check fails. -/
def checked {α : Type} (x : Except Violation α) : Work α :=
  ExceptT.mk (pure (x.mapError Violation.toStoreError))

/-- Tells the observer of a statement. -/
def announce (statement : Statement) : Work Unit :=
  tell (.query statement.sql statement.params.length)

/-- Checks the size of a statement with a given text, looks its names up and checks the references
that it would follow. -/
def verify (statement : Statement) (sql : String) : Work Unit := do
  let db := (← get).database
  checked (statement.checkSize sql)
  checked (db.check statement sql)
  checked statement.checkOrder
  checked (db.checkTargets statement)

/-- Makes a statement ready to run. -/
def prepare (statement : Statement) : Work Unit := do
  announce statement
  verify statement statement.sql

/-- Makes a query ready to run and answers it as the database reads it. -/
def prepareQuery (query : SelectQuery) : Work SelectQuery := do
  announce (.select query)
  let read ← checked (query.read (← get).database.columnsOf)
  verify (.select read) query.sql
  return read

/-- A statement, or the failure to express it. -/
def expressed {α : Type} (x : Except RenderError α) : Work α :=
  ExceptT.mk (pure (x.mapError fun e => .plan e.message))

/-- Makes a change to the database. -/
def change {α : Type} (f : Database → Except Violation (Database × α)) : Work α := do
  let s ← get
  match f s.database with
  | .ok (db, a) =>
    set { s with database := db }
    return a
  | .error v => throw v.toStoreError

/-- Runs a statement and answers the number of rows it changes. -/
def execute (statement : Statement) : Work Nat := do
  prepare statement
  change (·.execute statement)

/-! ## Operations -/

/-- The rows that a plan selects. -/
def find (schema : Schema) (plan : Plan) : Work (List Object) := do
  let r := (← get).registry
  let (query, outputs) ← expressed (Statement.ofPlan r schema plan)
  let query ← prepareQuery query
  let answers ← checked ((← get).database.answer query)
  ExceptT.mk (pure ((answers.mapM (r.decode outputs)).mapError fun e => .database e.message))

/-- The number of rows that meet a filter. -/
def count (schema : Schema) (filter : Predicate) : Work Nat := do
  let query ← expressed (Rendering.start (Rendering.keys (← get).registry schema filter))
  prepare (.count query)
  return ((← get).database.keys query).length

/-- Inserts a row. -/
def create (schema : Schema) (row : Object) : Work Object := do
  let r := (← get).registry
  let values ← expressed (Statement.assignments r schema row)
  prepare (.insert schema.tableName values)
  return r.decodeStored schema (← change (·.insert schema.tableName values))

/-- Sets fields in the rows that meet a filter. To set none is to count them. -/
def update (schema : Schema) (row : Object) (filter : Predicate) : Work Nat := do
  if row.isEmpty then count schema filter
  else execute (← expressed (Statement.ofUpdate (← get).registry schema row filter))

/-- Deletes the rows that meet a filter. -/
def destroy (schema : Schema) (filter : Predicate) : Work Nat := do
  execute (← expressed (Statement.ofDelete (← get).registry schema filter))

/-- Links rows to a parent. -/
def link (a : Association) (parent : Json) (ids : List Json) (replace : Bool) : Work Unit :=
  (Statement.ofLinks a parent ids replace).forM fun statement => do
    let _ ← execute statement

/-- Those of some primary keys that are present. -/
def existingIds (schema : Schema) (ids : List Json) : Work (List Json) := do
  if ids.isEmpty then return []
  prepare (Statement.ofIds schema ids)
  let found := (← get).database.present schema.tableName schema.idColumn (ids.map .ofJson)
  return found.map (·.toJson (.ofKey schema.idType))

/-- Performs an operation. -/
def perform : (o : Operation) → Work o.Answer
  | .find schema plan => find schema plan
  | .count schema filter => count schema filter
  | .create schema row => create schema row
  | .bulkCreate schema rows => rows.mapM (create schema)
  | .update schema row filter => update schema row filter
  | .destroy schema filter => destroy schema filter
  | .addLinks a parent ids => link a parent ids false
  | .setLinks a parent ids => link a parent ids true
  | .existingIds schema ids => existingIds schema ids

/-! ## Transactions -/

/-- Begins a transaction. -/
def begin : StateM Session Unit := do
  modify fun s => { s with saved := some s.database }
  tell (.transaction .begin)

/-- Gives up the open transaction. -/
def rollback : StateM Session Unit := do
  modify fun s => { s with database := s.saved.getD s.database, saved := none }
  tell (.transaction .rollback)

/-- Commits the open transaction. When that is refused, the transaction is given up. -/
def commit (refusal : Option StoreError) : Work Unit := do
  match refusal with
  | none =>
    modify fun s => { s with saved := none }
    tell (.transaction .commit)
  | some e =>
    rollback
    throw e

/-- Gives up the open transaction, if there is one. -/
def drop : StateM Session Unit := do
  if (← get).saved.isSome then rollback

/-! ## Calls -/

/-- The state of a call: it may block. -/
abbrev Waiting := ExceptT Blocked (StateM Session)

/-- Blocks while a transaction is open. -/
def wait : Waiting Unit := do
  if (← get).saved.isSome then throw .blocked

/-- Answers a call. -/
def answer : (c : Call) → Waiting c.Reply
  | .perform .store o => do
    wait
    ExceptT.lift (perform o).run
  | .perform .transaction o => ExceptT.lift (perform o).run
  | .begin => do
    wait
    ExceptT.lift begin
    return .ok ()
  | .commit => ExceptT.lift (commit none).run
  | .rollback => do
    ExceptT.lift rollback
    return .ok ()

/-- The next identifier of a supply. -/
def fresh (supply : Nat → String) : Waiting String :=
  ExceptT.lift (modifyGet fun s => (supply s.drawn, { s with drawn := s.drawn + 1 }))

/-- Runs a program in the session. -/
def run {α : Type} (supply : Nat → String) (p : Program α) : StateM Session (Except Blocked α) :=
  (p.interpret (fresh supply) answer).run

/-- A session with a database that holds the tables of a registry. -/
def start (r : Registry) : Except StoreError Session :=
  match Database.empty.createAll r.tables with
  | .ok db => .ok { registry := r, database := db }
  | .error v => .error v.toStoreError

end Session

end ResourceApi
