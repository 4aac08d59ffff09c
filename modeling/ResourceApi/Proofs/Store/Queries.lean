import ResourceApi.Proofs.Store.Session

/-!
# Queries in a session

A query reads the database, and what it answers can be told without the session: it is *computed*
from the registry and the database (`Session.Computes`). `Session.found` and `Session.counted` are
the answers to the two queries of a plan, check by check.
-/

namespace ResourceApi

namespace Session

variable {α β : Type}

/-- The work answers what is computed from the registry and the database, and leaves both as they
are. -/
def Computes (x : Work α) (g : Registry → Database → Except StoreError α) : Prop :=
  Reads x ∧ ∀ s, (x.run s).1 = g s.registry s.database

theorem Computes.bind {x : Work α} {f : α → Work β} {g : Registry → Database → Except StoreError α}
    {h : α → Registry → Database → Except StoreError β} (hx : Computes x g)
    (hf : ∀ a, Computes (f a) (h a)) :
    Computes (x >>= f) fun r db => g r db >>= fun a => h a r db := by
  refine ⟨hx.1.bind fun a => (hf a).1, fun s => ?_⟩
  have hview := hx.1 s
  show _ = (g s.registry s.database >>= fun a => h a s.registry s.database)
  rw [run_bind, ← hx.2 s]
  generalize x.run s = out at hview ⊢
  obtain ⟨e | a, s'⟩ := out
  · rfl
  · have hdb : s'.database = s.database := congrArg Prod.fst hview.2
    rw [(hf a).2 s', hview.1, hdb]
    rfl

/-- To look at the session is to look at its registry and its database. -/
theorem Computes.get_bind {f : Session → Work β}
    {g : Registry → Database → Registry → Database → Except StoreError β}
    (hf : ∀ s, Computes (f s) (g s.registry s.database)) :
    Computes (get >>= f) fun r db => g r db r db := by
  refine ⟨reads_get.bind fun s => (hf s).1, fun s => ?_⟩
  rw [run_bind]
  exact (hf s).2 s

theorem computes_pure (a : α) : Computes (pure a : Work α) fun _ _ => .ok a :=
  ⟨reads_pure a, fun _ => rfl⟩

theorem computes_mk (x : Except StoreError α) : Computes (ExceptT.mk (pure x)) fun _ _ => x :=
  ⟨reads_mk x, fun _ => rfl⟩

theorem computes_checked (x : Except Violation α) :
    Computes (checked x) fun _ _ => x.mapError Violation.toStoreError :=
  computes_mk _

theorem computes_expressed (x : Except RenderError α) :
    Computes (expressed x) fun _ _ => x.mapError fun e => .plan e.message :=
  computes_mk _

/-- To tell the observer is to compute nothing. -/
theorem Computes.announce_bind {statement : Statement} {f : Unit → Work β}
    {g : Registry → Database → Except StoreError β} (hf : Computes (f ()) g) :
    Computes (announce statement >>= f) g :=
  ⟨(reads_announce statement).bind fun _ => hf.1, fun _ => hf.2 _⟩

/-! ## Answers -/

/-- The checks of a statement before it runs. -/
def verified (db : Database) (statement : Statement) (sql : String) : Except StoreError Unit := do
  (statement.checkSize sql).mapError Violation.toStoreError
  (db.check statement sql).mapError Violation.toStoreError
  statement.checkOrder.mapError Violation.toStoreError
  (db.checkTargets statement).mapError Violation.toStoreError

/-- A query as it is read, once it is checked. -/
def prepared (query : SelectQuery) (db : Database) : Except StoreError SelectQuery := do
  let read ← (query.read db.columnsOf).mapError Violation.toStoreError
  verified db (.select read) query.sql
  return read

/-- The rows that a database answers to a plan. -/
def found (schema : Schema) (plan : Plan) (r : Registry) (db : Database) :
    Except StoreError (List Object) := do
  let (query, outputs) ← (Statement.ofPlan r schema plan).mapError fun e => .plan e.message
  let read ← prepared query db
  let answers ← (db.answer read).mapError Violation.toStoreError
  (answers.mapM (r.decode outputs)).mapError fun e => .database e.message

/-- The number that a database answers to a filter. -/
def counted (schema : Schema) (filter : Predicate) (r : Registry) (db : Database) :
    Except StoreError Nat := do
  let query ← (Rendering.start (Rendering.keys r schema filter)).mapError fun e => .plan e.message
  verified db (.count query) (Statement.count query).sql
  return (db.keys query).length

theorem computes_verify (statement : Statement) (sql : String) :
    Computes (verify statement sql) fun _ db => verified db statement sql := by
  refine Computes.get_bind (g := fun _ db _ _ => verified db statement sql) fun _ => ?_
  exact (computes_checked _).bind fun _ => (computes_checked _).bind fun _ =>
    (computes_checked _).bind fun _ => computes_checked _

theorem computes_prepareQuery (query : SelectQuery) :
    Computes (prepareQuery query) fun _ db => prepared query db := by
  refine Computes.announce_bind (Computes.get_bind (g := fun _ db _ db' =>
    (query.read db.columnsOf).mapError Violation.toStoreError >>= fun read =>
      verified db' (.select read) query.sql >>= fun _ => pure read) fun s => ?_)
  exact (computes_checked _).bind fun read => (computes_verify _ _).bind fun _ =>
    computes_pure read

/-- A session answers to a plan what its database does. -/
theorem computes_find (schema : Schema) (plan : Plan) :
    Computes (find schema plan) (found schema plan) := by
  refine Computes.get_bind (g := fun r _ _ => found schema plan r) fun s => ?_
  refine (computes_expressed _).bind fun ⟨query, outputs⟩ => ?_
  refine (computes_prepareQuery query).bind fun read => ?_
  refine Computes.get_bind (g := fun _ db _ _ => (db.answer read).mapError Violation.toStoreError
    >>= fun answers => (answers.mapM (s.registry.decode outputs)).mapError fun e =>
      .database e.message) fun s' => ?_
  exact (computes_checked _).bind fun answers => computes_mk _

/-- A session answers to a filter what its database does. -/
theorem computes_count (schema : Schema) (filter : Predicate) :
    Computes (count schema filter) (counted schema filter) := by
  refine Computes.get_bind (g := fun r _ _ => counted schema filter r) fun s => ?_
  refine (computes_expressed _).bind fun query => ?_
  refine (Computes.announce_bind (computes_verify _ _)).bind fun _ => ?_
  exact Computes.get_bind (g := fun _ db _ _ => .ok (db.keys query).length) fun s' =>
    computes_pure _

/-! ## Calls -/

/-- A program runs one part after the other, unless it waits for ever. -/
theorem run_program_bind (supply : Nat → String) (p : Program α) (f : α → Program β) (s : Session) :
    run supply (p >>= f) s =
      match run supply p s with
      | (.ok a, s') => run supply (f a) s'
      | (.error b, s') => (.error b, s') := by
  unfold run
  rw [Program.interpret_bind, run_bind]
  rcases (p.interpret (fresh supply) answer).run s with ⟨b | a, s'⟩ <;> rfl

/-- The session answers operations in the scope: no transaction is open, or they are part of it. -/
def Serves (s : Session) (scope : Scope) : Prop := scope = .store → s.saved = none

/-- An action that begins with an operation goes on with its answer. -/
theorem run_perform_bind {supply : Nat → String} {scope : Scope} {o : Operation}
    {f : o.Answer → Action β} {s : Session} (hs : s.Serves scope) :
    run supply (Action.perform scope o >>= f).run s =
      match (perform o).run s with
      | (.ok a, s') => run supply (f a).run s'
      | (.error e, s') => (.ok (.error e.toApiError), s') := by
  have hanswer : (answer (.perform scope o)).run s =
      (.ok ((perform o).run s).1, ((perform o).run s).2) := by
    cases scope with
    | store =>
      show (wait >>= fun _ => (ExceptT.lift (perform o).run : Waiting _)).run s = _
      rw [run_bind, run_wait, hs rfl]
      exact run_lift _ s
    | transaction => exact run_lift _ s
  show (answer (.perform scope o) >>= fun reply => Program.interpret (fresh supply) answer
    (ExceptT.bindCont f (reply.mapError StoreError.toApiError))).run s = _
  rw [run_bind, hanswer]
  generalize (perform o).run s = out
  obtain ⟨e | a, s'⟩ := out <;> rfl

/-- An action that begins with an operation on the store itself waits for an open transaction. -/
theorem run_perform_bind_of_open {supply : Nat → String} {o : Operation} {f : o.Answer → Action β}
    {s : Session} (hs : s.saved.isSome = true) :
    run supply (Action.perform .store o >>= f).run s = (.error .blocked, s) := by
  have hanswer : (answer (.perform .store o)).run s = (.error .blocked, s) := by
    show (wait >>= fun _ => (ExceptT.lift (perform o).run : Waiting _)).run s = _
    rw [run_bind, run_wait, if_pos hs]
  show (answer (.perform .store o) >>= fun reply => Program.interpret (fresh supply) answer
    (ExceptT.bindCont f (reply.mapError StoreError.toApiError))).run s = _
  rw [run_bind, hanswer]

end Session

end ResourceApi
