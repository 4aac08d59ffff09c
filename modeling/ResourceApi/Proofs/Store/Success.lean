import ResourceApi.Proofs.Engine.Transaction
import ResourceApi.Proofs.Sql.Linking

/-!
# Actions that succeed

What a session that succeeds has done to its database: `Action.Takes` relates the database before an
action, the answer, and the database after it. There is one inversion lemma for each way to make
actions and one for each operation, so that actions are followed without their sessions.

**Theorem (`Action.Takes.of_bind`).** An action of two parts has gone through a database between
them.
-/

namespace ResourceApi

variable {α β : Type} {r : Registry} {db db' : Database} {schema : Schema}

/-! ## Several statements -/

namespace Session

/-- Rows are created one after the other. -/
inductive Creates (r : Registry) (schema : Schema) :
    Database → List Object → List Object → Database → Prop
  | nil (db : Database) : Creates r schema db [] [] db
  | cons {db mid db' : Database} {row object : Object} {rows objects : List Object} :
      created schema row r db = .ok (mid, object) → Creates r schema mid rows objects db' →
      Creates r schema db (row :: rows) (object :: objects) db'

/-- Work that answers has done what is computed. -/
theorem Changes.eq_ok {x : Work α} {g : Registry → Database → Except StoreError (Database × α)}
    (hx : Changes x g) {s s' : Session} {a : α} (h : x.run s = (.ok a, s')) :
    g s.registry s.database = .ok (s'.database, a) := by
  have hchanges := hx.2 s
  rw [h] at hchanges
  split at hchanges
  · rename_i db b hg
    obtain ⟨hb, rfl⟩ := hchanges
    obtain rfl := Except.ok.inj hb
    exact hg
  · exact nomatch hchanges.1

/-- Work does what can be computed. -/
theorem Changes.exists_run {x : Work α} {g : Registry → Database → Except StoreError (Database × α)}
    (hx : Changes x g) {s : Session} {db : Database} {a : α}
    (h : g s.registry s.database = .ok (db, a)) :
    ∃ s', x.run s = (.ok a, s') ∧ s'.database = db := by
  have hchanges := hx.2 s
  rw [h] at hchanges
  exact ⟨_, Prod.ext hchanges.1 rfl, hchanges.2⟩

/-- Work that answers has done its first part and gone on with the answer. -/
theorem of_run_bind {x : Work α} {f : α → Work β} {s s'' : Session} {b : β}
    (h : (x >>= f).run s = (.ok b, s'')) :
    ∃ a s', x.run s = (.ok a, s') ∧ (f a).run s' = (.ok b, s'') := by
  rw [run_bind] at h
  generalize x.run s = out at h ⊢
  obtain ⟨e | a, s'⟩ := out
  · exact nomatch (Prod.mk.inj h).1
  · exact ⟨a, s', rfl, h⟩

theorem of_run_pure {s s' : Session} {a b : α} (h : (pure a : Work α).run s = (.ok b, s')) :
    b = a ∧ s' = s := by
  obtain ⟨hb, rfl⟩ := Prod.mk.inj h
  exact ⟨(Except.ok.inj hb).symm, rfl⟩

theorem creates_of_mapM {rows objects : List Object} {s s' : Session}
    (h : (rows.mapM (create schema)).run s = (.ok objects, s')) :
    Creates s.registry schema s.database rows objects s'.database := by
  induction rows generalizing s objects with
  | nil =>
    obtain ⟨rfl, rfl⟩ := of_run_pure h
    exact .nil _
  | cons row rows ih =>
    rw [List.mapM_cons] at h
    obtain ⟨object, mid, hcreate, h⟩ := of_run_bind h
    obtain ⟨others, last, hothers, h⟩ := of_run_bind h
    obtain ⟨rfl, rfl⟩ := of_run_pure h
    have hregistry : mid.registry = s.registry := by
      have hframed := ((changes_create schema row).1 s).1
      rwa [hcreate] at hframed
    exact .cons ((changes_create schema row).eq_ok hcreate) (hregistry ▸ ih hothers)

/-- The statements are checked and executed one after the other. -/
inductive Performs : Database → List Statement → Database → Prop
  | nil (db : Database) : Performs db [] db
  | cons {db mid db' : Database} {statement : Statement} {rest : List Statement} {n : Nat} :
    executed statement db = .ok (mid, n) → Performs mid rest db' →
    Performs db (statement :: rest) db'

theorem executed_eq_ok_iff {db db' : Database} {statement : Statement} {n : Nat} :
    executed statement db = .ok (db', n) ↔
      verified db statement statement.sql = .ok () ∧ db.execute statement = .ok (db', n) := by
  constructor
  · intro h
    obtain ⟨⟨⟩, hverified, hexecute⟩ := bind_eq_ok.1 h
    exact ⟨hverified, mapError_eq_ok.1 hexecute⟩
  · rintro ⟨hverified, hexecute⟩
    exact bind_eq_ok.2 ⟨(), hverified, mapError_eq_ok.2 hexecute⟩

/-- An update that sets something executes its statement. -/
theorem updated_eq_ok_iff {row : Object} {filter : Predicate} {db db' : Database} {n : Nat}
    (hne : row.isEmpty = false) :
    updated schema row filter r db = .ok (db', n) ↔ ∃ statement,
      Statement.ofUpdate r schema row filter = .ok statement ∧
        executed statement db = .ok (db', n) := by
  unfold updated
  rw [if_neg (by simp [hne])]
  constructor
  · intro hx
    obtain ⟨statement, hstatement, hexecuted⟩ := bind_eq_ok.1 hx
    exact ⟨statement, mapError_eq_ok.1 hstatement, hexecuted⟩
  · rintro ⟨statement, hstatement, hexecuted⟩
    exact bind_eq_ok.2 ⟨statement, mapError_eq_ok.2 hstatement, hexecuted⟩

/-- The row with the identifier is set, if there is anything to set. -/
def Sets (r : Registry) (schema : Schema) (id : Json) (row : Object) (db db' : Database) : Prop :=
  row.isEmpty = true ∧ db' = db ∨ row.isEmpty = false ∧
    ∃ n, updated schema row (.idIs schema id) r db = .ok (db', n)

theorem Performs.executes {db db' : Database} {statements : List Statement}
    (h : Performs db statements db') : db.Executes statements db' := by
  induction h with
  | nil => exact .nil _
  | cons hexecuted _ ih => exact .cons (executed_eq_ok_iff.1 hexecuted).2 ih

section

variable {a : Association} {parent : Json} {ids : List Json} {replace : Bool} {s s' : Session}

theorem performs_of_link (h : (link a parent ids replace).run s = (.ok (), s')) :
    Performs s.database (Statement.ofLinks a parent ids replace) s'.database := by
  unfold link at h
  generalize Statement.ofLinks a parent ids replace = statements at h ⊢
  induction statements generalizing s with
  | nil =>
    obtain ⟨-, rfl⟩ := of_run_pure h
    exact .nil _
  | cons statement rest ih =>
    obtain ⟨⟨⟩, mid, hfirst, h⟩ := of_run_bind h
    obtain ⟨n, last, hstatement, hlast⟩ := of_run_bind hfirst
    obtain ⟨-, rfl⟩ := of_run_pure hlast
    exact .cons ((changes_execute statement).eq_ok hstatement) (ih h)

theorem executes_of_link (h : (link a parent ids replace).run s = (.ok (), s')) :
    s.database.Executes (Statement.ofLinks a parent ids replace) s'.database :=
  (performs_of_link h).executes

/-- Links can be written where their statements can be performed. -/
theorem exists_run_link {db' : Database}
    (h : Performs s.database (Statement.ofLinks a parent ids replace) db') :
    ∃ s', (link a parent ids replace).run s = (.ok (), s') ∧ s'.database = db' := by
  unfold link
  generalize Statement.ofLinks a parent ids replace = statements at h ⊢
  induction statements generalizing s with
  | nil =>
    cases h
    exact ⟨s, rfl, rfl⟩
  | cons statement rest ih =>
    cases h with
    | cons hexecuted hrest =>
      obtain ⟨mid, hmid, rfl⟩ := (changes_execute statement).exists_run hexecuted
      obtain ⟨s', hs', hdb⟩ := ih hrest
      refine ⟨s', ?_, hdb⟩
      rw [List.forM_eq_forM, List.forM_cons, run_bind, run_bind, hmid]
      exact hs'

end

end Session

/-! ## Actions -/

namespace Action

open Session

/-! ### Runs that succeed -/

section

variable {supply : Nat → String} {s s' : Session} {x : Action α} {a : α} {b : β}

/-- An action of two parts has gone through a session between them, whatever its errors are. -/
theorem exists_of_run_bind {ε : Type} {x : ExceptT ε Program α} {f : α → ExceptT ε Program β}
    (h : run supply (x >>= f).run s = (.ok (.ok b), s')) :
    ∃ a mid, run supply x.run s = (.ok (.ok a), mid) ∧
      run supply (f a).run mid = (.ok (.ok b), s') := by
  rw [ExceptT.run_bind, run_program_bind] at h
  generalize run supply x.run s = out at h ⊢
  obtain ⟨_ | _ | a, mid⟩ := out
  · exact nomatch (Prod.mk.inj h).1
  · exact nomatch (Prod.mk.inj h).1
  · exact ⟨a, mid, rfl, h⟩

theorem of_run_pure {ε : Type} {c : α}
    (h : run supply (pure a : ExceptT ε Program α).run s = (.ok (.ok c), s')) :
    c = a ∧ s' = s := by
  obtain ⟨hc, rfl⟩ := Prod.mk.inj h
  exact ⟨(Except.ok.inj (Except.ok.inj hc)).symm, rfl⟩

theorem not_run_throw {e : ApiError} :
    run supply (throw e : Action α).run s ≠ (.ok (.ok a), s') :=
  fun h => nomatch Except.ok.inj (Prod.mk.inj h).1

theorem of_run_liftM {e : Except ApiError α}
    (h : run supply (liftM e : Action α).run s = (.ok (.ok a), s')) : s' = s :=
  (Prod.mk.inj h).2.symm

/-- An operation that succeeds was answered in its scope. -/
theorem of_run_perform {scope : Scope} {o : Operation} {a : o.Answer}
    (h : run supply (Action.perform scope o).run s = (.ok (.ok a), s')) :
    s.Serves scope ∧ (Session.perform o).run s = (.ok a, s') := by
  rw [← bind_pure (Action.perform scope o)] at h
  by_cases hs : s.Serves scope
  · rw [run_perform_bind hs] at h
    generalize (Session.perform o).run s = out at h ⊢
    obtain ⟨e | b, mid⟩ := out
    · exact nomatch Except.ok.inj (Prod.mk.inj h).1
    · obtain ⟨rfl, rfl⟩ := of_run_pure h
      exact ⟨hs, rfl⟩
  · obtain ⟨rfl, hopen⟩ := Classical.not_imp.1 hs
    rw [run_perform_bind_of_open (Option.isSome_iff_ne_none.2 hopen)] at h
    exact nomatch (Prod.mk.inj h).1

/-- No transaction is open after an operation on the store itself. -/
theorem saved_of_run_perform {o : Operation} {a : o.Answer}
    (h : run supply (Action.perform .store o).run s = (.ok (.ok a), s')) : s'.saved = none := by
  obtain ⟨hs, hperform⟩ := of_run_perform h
  have hsaved := (framed_perform o s).2
  rw [hperform] at hsaved
  exact hsaved.trans (hs rfl)

/-- Work that was committed has succeeded, and its database is in place. -/
theorem exists_of_run_finish
    (h : run supply (ExceptT.lift x.run >>= finish : Action α).run s = (.ok (.ok a), s')) :
    ∃ ended, run supply x.run s = (.ok (.ok a), ended) ∧ s'.registry = ended.registry ∧
      s'.database = ended.database ∧ s'.saved = none := by
  rw [ExceptT.run_bind, ExceptT.run_lift, bind_map_left, run_program_bind] at h
  generalize run supply x.run s = out at h ⊢
  obtain ⟨_ | e | b, ended⟩ := out
  · exact nomatch (Prod.mk.inj h).1
  · exact nomatch Except.ok.inj (Prod.mk.inj h).1
  · obtain ⟨hb, rfl⟩ := Prod.mk.inj h
    exact ⟨ended, by rw [Except.ok.inj (Except.ok.inj hb)], rfl, rfl, rfl⟩

theorem exists_of_run_inTransaction
    (h : run supply (inTransaction x).run s = (.ok (.ok a), s')) :
    ∃ begun ended, run supply x.run begun = (.ok (.ok a), ended) ∧
      s'.registry = ended.registry ∧ s'.database = ended.database ∧ s'.saved = none := by
  rw [inTransaction_eq] at h
  obtain ⟨_, begun, -, hbegun⟩ := exists_of_run_bind h
  exact ⟨begun, exists_of_run_finish hbegun⟩

end

/-! ### Databases before and after -/

/-- In a session of the registry that works on regular databases, the action succeeds with the
answer, and turns one database into the other. -/
def Takes (r : Registry) (x : Action α) (db : Database) (a : α) (db' : Database) : Prop :=
  ∃ supply s s', s.registry = r ∧ s.Holds (Database.Regular r) ∧
    run supply x.run s = (.ok (.ok a), s') ∧ s.database = db ∧ s'.database = db'

theorem keeps_perform_regular (hl : TablesLinked r.tables) (o : Operation) :
    Keeps (Database.Regular r) (Session.perform o) :=
  fun s h => ⟨keeps_perform hl o s h.sound, keeps_perform_proper o s h.proper⟩

namespace Takes

variable {x : Action α} {f : α → Action β} {a : α} {b : β}

theorem regular (h : Takes r x db a db') : db.Regular r := by
  obtain ⟨-, s, -, -, hs, -, rfl, -⟩ := h
  exact hs.database

theorem regular_after (hl : TablesLinked r.tables) (h : Takes r x db a db') : db'.Regular r := by
  obtain ⟨supply, s, s', -, hs, hrun, -, rfl⟩ := h
  have hdatabase := (hs.run (keeps_perform_regular hl) supply x.run).database
  rwa [hrun] at hdatabase

/-- **An action of two parts has gone through a database between them.** -/
theorem of_bind (hl : TablesLinked r.tables) (h : Takes r (x >>= f) db b db') :
    ∃ a mid, Takes r x db a mid ∧ Takes r (f a) mid b db' := by
  obtain ⟨supply, s, s', hr, hs, hrun, rfl, rfl⟩ := h
  obtain ⟨a, mid, hfirst, hrest⟩ := exists_of_run_bind hrun
  have hregistry := registry_of_run supply x.run s
  have hkept := hs.run (keeps_perform_regular hl) supply x.run
  rw [hfirst] at hregistry hkept
  exact ⟨a, mid.database, ⟨supply, s, mid, hr, hs, hfirst, rfl, rfl⟩,
    supply, mid, s', hregistry.trans hr, hkept, hrest, rfl, rfl⟩

theorem of_pure {c : α} (h : Takes r (pure a) db c db') : c = a ∧ db' = db := by
  obtain ⟨supply, s, s', -, -, hrun, rfl, rfl⟩ := h
  obtain ⟨rfl, rfl⟩ := Action.of_run_pure hrun
  exact ⟨rfl, rfl⟩

theorem not_throw {e : ApiError} : ¬Takes r (throw e : Action α) db a db' := by
  rintro ⟨supply, s, s', -, -, hrun, -, -⟩
  exact not_run_throw hrun

theorem of_liftM {x : Except ApiError α} (h : Takes r (liftM x) db a db') :
    x = .ok a ∧ db' = db := by
  cases x with
  | error e => exact absurd h not_throw
  | ok b =>
    obtain ⟨rfl, rfl⟩ := of_pure h
    exact ⟨rfl, rfl⟩

/-- To draw an identifier is to leave the database alone. -/
theorem of_drawn {id : String} (h : Takes r drawn db id db') : db' = db := by
  obtain ⟨supply, s, s', -, -, hrun, rfl, rfl⟩ := h
  obtain ⟨-, rfl⟩ := Prod.mk.inj hrun
  rfl

theorem of_mapM {γ : Type} {f : γ → Action β} (hl : TablesLinked r.tables) {xs : List γ}
    {ys : List β} (hf : ∀ x ∈ xs, ∀ db y db', Takes r (f x) db y db' → db' = db)
    (h : Takes r (xs.mapM f) db ys db') :
    db' = db ∧ List.Forall₂ (fun x y => Takes r (f x) db y db) xs ys := by
  induction xs generalizing ys with
  | nil =>
    obtain ⟨rfl, rfl⟩ := of_pure h
    exact ⟨rfl, .nil⟩
  | cons x xs ih =>
    rw [List.mapM_cons] at h
    obtain ⟨y, mid, hfirst, hothers⟩ := h.of_bind hl
    obtain ⟨rest, last, hrest, hlast⟩ := hothers.of_bind hl
    obtain ⟨rfl, rfl⟩ := of_pure hlast
    obtain rfl := hf x List.mem_cons_self _ _ _ hfirst
    obtain ⟨rfl, hall⟩ := ih (fun x hx => hf x (List.mem_cons_of_mem _ hx)) hrest
    exact ⟨rfl, .cons hfirst hall⟩

/-! ### Operations -/

/-- An operation that succeeds has been answered. -/
theorem of_perform {scope : Scope} {o : Operation} {a : o.Answer}
    (h : Takes r (Action.perform scope o) db a db') :
    ∃ s s' : Session, s.registry = r ∧ (Session.perform o).run s = (.ok a, s') ∧
      s.database = db ∧ s'.database = db' := by
  obtain ⟨supply, s, s', hr, -, hrun, hdb, hdb'⟩ := h
  exact ⟨s, s', hr, (of_run_perform hrun).2, hdb, hdb'⟩

theorem of_changes {scope : Scope} {o : Operation} {a : o.Answer}
    {g : Registry → Database → Except StoreError (Database × o.Answer)}
    (h : Takes r (Action.perform scope o) db a db') (hg : Changes (Session.perform o) g) :
    g r db = .ok (db', a) := by
  obtain ⟨s, s', rfl, hrun, rfl, rfl⟩ := h.of_perform
  exact hg.eq_ok hrun

variable {scope : Scope}

theorem of_existingIds {ids found : List Json}
    (h : Takes r (Action.perform scope (.existingIds schema ids)) db found db') :
    existing schema ids db = .ok found ∧ db' = db := by
  have hchanges : Changes (Session.perform (.existingIds schema ids)) _ :=
    (computes_existingIds schema ids).changes
  obtain ⟨ids, hids, he⟩ := map_eq_ok.1 (h.of_changes hchanges)
  obtain ⟨rfl, rfl⟩ := Prod.mk.inj he
  exact ⟨hids, rfl⟩

theorem of_find {plan : Plan} {rows : List Object}
    (h : Takes r (Action.perform scope (.find schema plan)) db rows db') :
    found schema plan r db = .ok rows ∧ db' = db := by
  have hchanges : Changes (Session.perform (.find schema plan)) _ :=
    (computes_find schema plan).changes
  obtain ⟨ids, hids, he⟩ := map_eq_ok.1 (h.of_changes hchanges)
  obtain ⟨rfl, rfl⟩ := Prod.mk.inj he
  exact ⟨hids, rfl⟩

theorem of_create {row object : Object}
    (h : Takes r (Action.perform scope (.create schema row)) db object db') :
    created schema row r db = .ok (db', object) :=
  h.of_changes (changes_create schema row)

theorem of_update {row : Object} {filter : Predicate} {n : Nat}
    (h : Takes r (Action.perform scope (.update schema row filter)) db n db') :
    updated schema row filter r db = .ok (db', n) :=
  h.of_changes (changes_update schema row filter)

theorem of_bulkCreate {rows objects : List Object}
    (h : Takes r (Action.perform scope (.bulkCreate schema rows)) db objects db') :
    Creates r schema db rows objects db' := by
  obtain ⟨s, s', rfl, hrun, rfl, rfl⟩ := h.of_perform
  exact creates_of_mapM hrun

theorem of_addLinks {a : Association} {parent : Json} {ids : List Json} {u : Unit}
    (h : Takes r (Action.perform scope (.addLinks a parent ids)) db u db') :
    db.Executes (Statement.ofLinks a parent ids false) db' := by
  obtain ⟨s, s', -, hrun, rfl, rfl⟩ := h.of_perform
  exact executes_of_link hrun

theorem performs_of_setLinks {a : Association} {parent : Json} {ids : List Json} {u : Unit}
    (h : Takes r (Action.perform scope (.setLinks a parent ids)) db u db') :
    Performs db (Statement.ofLinks a parent ids true) db' := by
  obtain ⟨s, s', -, hrun, rfl, rfl⟩ := h.of_perform
  exact performs_of_link hrun

theorem of_setLinks {a : Association} {parent : Json} {ids : List Json} {u : Unit}
    (h : Takes r (Action.perform scope (.setLinks a parent ids)) db u db') :
    db.Executes (Statement.ofLinks a parent ids true) db' := by
  obtain ⟨s, s', -, hrun, rfl, rfl⟩ := h.of_perform
  exact executes_of_link hrun

/-! ### Transactions -/

theorem of_begin {u : Unit} (h : Takes r (ask .begin) db u db') : db' = db := by
  obtain ⟨supply, s, s', -, -, hrun, rfl, rfl⟩ := h
  change (answer .begin >>= fun reply =>
    (pure (reply.mapError StoreError.toApiError) : Waiting (Except ApiError Unit))).run s =
      _ at hrun
  rw [run_bind, answer, run_waiting] at hrun
  split at hrun
  · rename_i hopen
    split at hopen
    · exact nomatch (Prod.mk.inj hopen).1
    · obtain ⟨-, rfl⟩ := Prod.mk.inj hopen
      obtain ⟨-, rfl⟩ := Prod.mk.inj hrun
      rfl
  · exact nomatch (Prod.mk.inj hrun).1

/-- A transaction that succeeds has done its work. -/
theorem of_inTransaction (hl : TablesLinked r.tables) {work : Action α}
    (h : Takes r (inTransaction work) db a db') : Takes r work db a db' := by
  rw [inTransaction_eq] at h
  obtain ⟨⟨⟩, mid, hbegin, hbegun⟩ := h.of_bind hl
  obtain rfl := of_begin hbegin
  obtain ⟨supply, s, s', hr, hs, hrun, rfl, rfl⟩ := hbegun
  obtain ⟨ended, hwork, -, hdatabase, -⟩ := exists_of_run_finish hrun
  exact ⟨supply, s, ended, hr, hs, hwork, rfl, hdatabase.symm⟩

end Takes

end Action

end ResourceApi
