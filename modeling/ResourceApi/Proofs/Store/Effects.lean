import ResourceApi.Proofs.Store.Queries

/-!
# What one statement does

An operation that is carried out by one statement either puts a new database in place and answers,
or fails and leaves the database alone. Which of the two, and the new database, are computed from
the registry and the database before (`Session.Changes`); whether a transaction is open does not
matter.

**Theorems (`Session.changes_create`, `Session.changes_update`, `Session.changes_destroy`).**
Creates, updates and deletions are such operations. `Session.created`, `Session.updated`,
`Session.destroyed` and `Session.existing` are what they and the query for present keys come to,
check by check.
-/

namespace ResourceApi

namespace Session

variable {α β : Type}

/-- The work answers what is computed from the registry and the database and puts the computed
database in place, or it fails as computed and leaves the database alone. -/
def Changes (x : Work α) (g : Registry → Database → Except StoreError (Database × α)) : Prop :=
  Framed x ∧ ∀ s, match g s.registry s.database with
    | .ok (db, a) => (x.run s).1 = .ok a ∧ (x.run s).2.database = db
    | .error e => (x.run s).1 = .error e ∧ (x.run s).2.database = s.database

section

variable {g : Registry → Database → Except StoreError α}
  {h : Registry → Database → Except StoreError (Database × α)}

/-- To read is to put the same database in place. -/
theorem Computes.changes {x : Work α} (hx : Computes x g) :
    Changes x fun r db => (g r db).map (db, ·) := by
  refine ⟨hx.1.framed, fun s => ?_⟩
  have hdb : (x.run s).2.database = s.database := congrArg Prod.fst (hx.1 s).2
  dsimp only
  rw [hx.2 s]
  cases g s.registry s.database with
  | error e => exact ⟨rfl, hdb⟩
  | ok a => exact ⟨rfl, hdb⟩

theorem changes_change (f : Database → Except Violation (Database × α)) :
    Changes (change f) fun _ db => (f db).mapError Violation.toStoreError := by
  refine ⟨framed_change f, fun s => ?_⟩
  dsimp only
  rw [run_change]
  cases f s.database with
  | error v => exact ⟨rfl, rfl⟩
  | ok out => exact ⟨rfl, rfl⟩

/-- To look at the session is to look at its registry and its database. -/
theorem Changes.get_bind {f : Session → Work α}
    {k : Registry → Database → Registry → Database → Except StoreError (Database × α)}
    (hf : ∀ s, Changes (f s) (k s.registry s.database)) :
    Changes (get >>= f) fun r db => k r db r db :=
  ⟨reads_get.framed.bind fun s => (hf s).1, fun s => (hf s).2 s⟩

/-- Checks come before the change. -/
theorem Computes.bind_changes {x : Work α} {f : α → Work β}
    {k : α → Registry → Database → Except StoreError (Database × β)} (hx : Computes x g)
    (hf : ∀ a, Changes (f a) (k a)) :
    Changes (x >>= f) fun r db => g r db >>= fun a => k a r db := by
  refine ⟨hx.1.framed.bind fun a => (hf a).1, fun s => ?_⟩
  have hregistry := (hx.1 s).1
  have hdb : (x.run s).2.database = s.database := congrArg Prod.fst (hx.1 s).2
  dsimp only
  rw [run_bind, ← hx.2 s]
  generalize x.run s = out at hregistry hdb ⊢
  obtain ⟨e | a, s'⟩ := out
  · exact ⟨rfl, hdb⟩
  · have hchanges := (hf a).2 s'
    rw [hregistry, hdb] at hchanges
    exact hchanges

/-- What becomes of the answer does not matter to the database. -/
theorem Changes.bind_pure {x : Work α} (hx : Changes x h) (f : α → β) :
    Changes (x >>= fun a => pure (f a)) fun r db => (h r db).map fun out => (out.1, f out.2) := by
  refine ⟨hx.1.bind fun a => (reads_pure _).framed, fun s => ?_⟩
  have hchanges := hx.2 s
  dsimp only
  rw [run_bind]
  generalize x.run s = out at hchanges ⊢
  cases hd : h s.registry s.database with
  | error e =>
    rw [hd] at hchanges
    obtain ⟨answer, s'⟩ := out
    obtain ⟨rfl, hdb⟩ := hchanges
    exact ⟨rfl, hdb⟩
  | ok result =>
    rw [hd] at hchanges
    obtain ⟨answer, s'⟩ := out
    obtain ⟨rfl, hdb⟩ := hchanges
    exact ⟨rfl, hdb⟩

end

/-! ## Operations -/

/-- The database with a row inserted, and the row as stored. -/
def created (schema : Schema) (row : Object) (r : Registry) (db : Database) :
    Except StoreError (Database × Object) := do
  let values ← (Statement.assignments r schema row).mapError fun e => .plan e.message
  let statement : Statement := .insert schema.tableName values
  verified db statement statement.sql
  ((db.insert schema.tableName values).mapError Violation.toStoreError).map fun out =>
    (out.1, r.decodeStored schema out.2)

/-- The database with a statement run, and the number of rows that it changes. -/
def executed (statement : Statement) (db : Database) : Except StoreError (Database × Nat) := do
  verified db statement statement.sql
  (db.execute statement).mapError Violation.toStoreError

/-- The database with fields set in the rows that meet a filter, and the number of these. -/
def updated (schema : Schema) (row : Object) (filter : Predicate) (r : Registry) (db : Database) :
    Except StoreError (Database × Nat) :=
  if row.isEmpty then (counted schema filter r db).map (db, ·)
  else do
    let statement ← (Statement.ofUpdate r schema row filter).mapError fun e => .plan e.message
    executed statement db

/-- The database without the rows that meet a filter, and the number of these. -/
def destroyed (schema : Schema) (filter : Predicate) (r : Registry) (db : Database) :
    Except StoreError (Database × Nat) := do
  let statement ← (Statement.ofDelete r schema filter).mapError fun e => .plan e.message
  executed statement db

/-- Those of some primary keys that a database holds. -/
def existing (schema : Schema) (ids : List Json) (db : Database) : Except StoreError (List Json) :=
  if ids.isEmpty then .ok []
  else do
    let statement := Statement.ofIds schema ids
    verified db statement statement.sql
    return (db.present schema.tableName schema.idColumn (ids.map .ofJson)).map
      (·.toJson (.ofKey schema.idType))

theorem computes_prepare (statement : Statement) :
    Computes (prepare statement) fun _ db => verified db statement statement.sql :=
  Computes.announce_bind (computes_verify statement statement.sql)

theorem changes_execute (statement : Statement) :
    Changes (execute statement) fun _ => executed statement :=
  (computes_prepare statement).bind_changes fun _ => changes_change _

theorem changes_create (schema : Schema) (row : Object) :
    Changes (create schema row) (created schema row) := by
  refine Changes.get_bind (k := fun r _ _ => created schema row r) fun s => ?_
  refine (computes_expressed _).bind_changes fun values => ?_
  refine (computes_prepare _).bind_changes fun _ => ?_
  exact (changes_change _).bind_pure _

theorem changes_update (schema : Schema) (row : Object) (filter : Predicate) :
    Changes (update schema row filter) (updated schema row filter) := by
  unfold update updated
  split
  · exact (computes_count schema filter).changes
  · refine Changes.get_bind (k := fun r _ _ db =>
      (Statement.ofUpdate r schema row filter).mapError (fun e => .plan e.message) >>=
        fun statement => executed statement db) fun s => ?_
    exact (computes_expressed _).bind_changes fun statement => changes_execute statement

theorem changes_destroy (schema : Schema) (filter : Predicate) :
    Changes (destroy schema filter) (destroyed schema filter) := by
  refine Changes.get_bind (k := fun r _ _ => destroyed schema filter r) fun s => ?_
  exact (computes_expressed _).bind_changes fun statement => changes_execute statement

theorem computes_existingIds (schema : Schema) (ids : List Json) :
    Computes (existingIds schema ids) fun _ => existing schema ids := by
  unfold existingIds existing
  split
  · exact computes_pure []
  · refine (computes_prepare _).bind fun _ => ?_
    exact Computes.get_bind (g := fun _ db _ _ => .ok ((db.present schema.tableName schema.idColumn
      (ids.map .ofJson)).map (·.toJson (.ofKey schema.idType)))) fun s => computes_pure _

end Session

end ResourceApi
