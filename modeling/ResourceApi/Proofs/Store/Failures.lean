import ResourceApi.Proofs.Sql.JoinTables
import ResourceApi.Proofs.Store.Success

/-!
# Operations that fail

An operation is carried out by statements, one after the other, and outside a transaction each of
them stays. An operation that fails has therefore taken the steps before the one that is refused,
and the refused one has left the database alone (`Session.Stops`).

**Theorem (`Session.failed_leaves`).** With which failure an operation on the store is answered, and
which database it leaves behind, is what its steps come to (`Operation.Leaves`). An operation of one
step leaves the database as it was.

Only rows that are created together and links that are replaced take several steps. A row that is
refused comes after the ones before it, and links that are refused come after the old ones are gone.
-/

namespace ResourceApi

namespace Session

variable {α β : Type}

/-! ## Steps -/

/-- Steps are taken one after the other, up to one that is refused. -/
inductive Stops (step : α → Database → Except StoreError (Database × β)) (e : StoreError) :
    Database → List α → Database → Prop
  | refused {db : Database} {a : α} {rest : List α} : step a db = .error e →
      Stops step e db (a :: rest) db
  | taken {db mid db' : Database} {a : α} {rest : List α} {b : β} : step a db = .ok (mid, b) →
      Stops step e mid rest db' → Stops step e db (a :: rest) db'

section

variable {step : α → Database → Except StoreError (Database × β)} {e : StoreError}
  {db db' : Database}

/-- What stops at its first step has done nothing. -/
theorem Stops.eq_of_length_le_one {steps : List α} (h : Stops step e db steps db')
    (hone : steps.length ≤ 1) : db' = db := by
  cases h with
  | refused => rfl
  | taken _ hrest => cases hrest <;> simp at hone

/-- Of two steps, the first is taken and the second is refused. -/
theorem Stops.exists_of_refused {first second : α} {P : Database → Prop}
    (hfirst : (step first db).toOption.isSome)
    (hsecond : ∀ out, step first db = .ok out → step second out.1 = .error e ∧ P out.1) :
    ∃ db', Stops step e db [first, second] db' ∧ P db' := by
  cases htaken : step first db with
  | error d => simp [htaken, Except.toOption] at hfirst
  | ok out =>
    obtain ⟨hrefused, hout⟩ := hsecond out htaken
    exact ⟨out.1, .taken htaken (.refused hrefused), hout⟩

end

/-! ## Work that fails -/

/-- The work fails with an error and leaves a database behind. -/
def Leaves (x : Work α) (s : Session) (e : StoreError) (db : Database) : Prop :=
  (x.run s).1 = .error e ∧ (x.run s).2.database = db

variable {s : Session} {e : StoreError} {db : Database}

theorem leaves_bind_iff {x : Work α} {f : α → Work β} : Leaves (x >>= f) s e db ↔
    Leaves x s e db ∨ ∃ a, (x.run s).1 = .ok a ∧ Leaves (f a) (x.run s).2 e db := by
  unfold Leaves
  rw [run_bind]
  generalize x.run s = out
  obtain ⟨d | a, s'⟩ := out <;> simp

theorem not_leaves_pure {a : α} : ¬ Leaves (pure a) s e db := fun h => nomatch h.1

/-- What becomes of the answer does not matter to a failure. -/
theorem leaves_bind_pure_iff {x : Work α} {f : α → β} :
    Leaves (x >>= fun a => pure (f a)) s e db ↔ Leaves x s e db := by
  rw [leaves_bind_iff]
  exact or_iff_left fun ⟨a, _, h⟩ => not_leaves_pure h

theorem Changes.leaves_iff {x : Work α}
    {g : Registry → Database → Except StoreError (Database × α)} (hx : Changes x g) :
    Leaves x s e db ↔ g s.registry s.database = .error e ∧ db = s.database := by
  have hchanges := hx.2 s
  unfold Leaves
  cases hg : g s.registry s.database with
  | error d =>
    rw [hg] at hchanges
    rw [hchanges.1, hchanges.2, Except.error.injEq, Except.error.injEq, eq_comm (a := db)]
  | ok out =>
    rw [hg] at hchanges
    rw [hchanges.1]
    simp

/-- **Work on a list** fails where one of its steps is refused. -/
theorem leaves_mapM_iff {f : α → Work β}
    {g : α → Registry → Database → Except StoreError (Database × β)}
    (hf : ∀ a, Changes (f a) (g a)) {xs : List α} :
    Leaves (xs.mapM f) s e db ↔ Stops (g · s.registry) e s.database xs db := by
  induction xs generalizing s with
  | nil => exact iff_of_false not_leaves_pure nofun
  | cons x rest ih =>
    have hchanges := (hf x).2 s
    have hregistry := ((hf x).1 s).1
    rw [List.mapM_cons, leaves_bind_iff, (hf x).leaves_iff]
    simp only [leaves_bind_pure_iff, ih]
    constructor
    · rintro (⟨hrefused, rfl⟩ | ⟨b, hb, hrest⟩)
      · exact .refused hrefused
      · rw [hregistry] at hrest
        split at hchanges
        · rename_i mid c htaken
          rw [hchanges.2] at hrest
          exact .taken htaken hrest
        · exact nomatch hchanges.1.symm.trans hb
    · intro hstops
      cases hstops with
      | refused hrefused => exact .inl ⟨hrefused, rfl⟩
      | @taken _ mid _ _ _ b htaken hrest =>
        rw [htaken] at hchanges
        refine .inr ⟨b, hchanges.1, ?_⟩
        rwa [hregistry, hchanges.2]

theorem forM_eq_mapM (f : α → Work β) (xs : List α) :
    (xs.forM fun x => do let _ ← f x) = xs.mapM f >>= fun _ => pure () := by
  induction xs with
  | nil => rfl
  | cons x rest ih =>
    show ((f x >>= fun _ => pure ()) >>= fun _ => rest.forM fun x => do let _ ← f x) = _
    rw [List.mapM_cons, ih]
    simp

theorem leaves_link_iff {a : Association} {parent : Json} {ids : List Json} {replace : Bool} :
    Leaves (link a parent ids replace) s e db ↔
      Stops executed e s.database (Statement.ofLinks a parent ids replace) db := by
  rw [link, forM_eq_mapM, leaves_bind_pure_iff]
  exact leaves_mapM_iff changes_execute

end Session

/-! ## Operations -/

/-- What an operation leaves of a database when it fails with an error: what the steps before the
refused one have made of it. -/
def Operation.Leaves (r : Registry) (db : Database) (e : StoreError) (db' : Database) :
    Operation → Prop
  | .find schema plan => Session.found schema plan r db = .error e ∧ db' = db
  | .count schema filter => Session.counted schema filter r db = .error e ∧ db' = db
  | .create schema row => Session.created schema row r db = .error e ∧ db' = db
  | .bulkCreate schema rows => Session.Stops (Session.created schema · r) e db rows db'
  | .update schema row filter => Session.updated schema row filter r db = .error e ∧ db' = db
  | .destroy schema filter => Session.destroyed schema filter r db = .error e ∧ db' = db
  | .addLinks a parent ids =>
    Session.Stops Session.executed e db (Statement.ofLinks a parent ids false) db'
  | .setLinks a parent ids =>
    Session.Stops Session.executed e db (Statement.ofLinks a parent ids true) db'
  | .existingIds schema ids => Session.existing schema ids db = .error e ∧ db' = db

/-- The operation takes at most one step. -/
def Operation.IsOneStep : Operation → Prop
  | .bulkCreate _ rows => rows.length ≤ 1
  | .setLinks a _ ids => ids = [] ∨ ∃ key, a.kind = .belongsTo key
  | _ => True

theorem Statement.length_ofLinks_le_one {a : Association} {parent : Json} {ids : List Json}
    {replace : Bool} (h : replace = true → ids = [] ∨ ∃ key, a.kind = .belongsTo key) :
    (ofLinks a parent ids replace).length ≤ 1 := by
  have hreplace : replace = false ∨ ids = [] ∨ ∃ key, a.kind = .belongsTo key := by
    cases replace with
    | false => exact .inl rfl
    | true => exact .inr (h rfl)
  unfold ofLinks
  rcases hreplace with rfl | rfl | ⟨key, hkey⟩
  · cases a.kind <;> cases ids <;> simp
  · cases a.kind <;> cases replace <;> simp
  · rw [hkey]
    cases ids <;> cases replace <;> simp

/-- **What fails in its only step** has done nothing. -/
theorem Operation.Leaves.eq_of_isOneStep {o : Operation} {r : Registry} {db db' : Database}
    {e : StoreError} (h : o.Leaves r db e db') (hone : o.IsOneStep) : db' = db := by
  cases o with
  | bulkCreate schema rows => exact Session.Stops.eq_of_length_le_one h hone
  | addLinks a parent ids =>
    exact Session.Stops.eq_of_length_le_one h (Statement.length_ofLinks_le_one nofun)
  | setLinks a parent ids =>
    exact Session.Stops.eq_of_length_le_one h (Statement.length_ofLinks_le_one fun _ => hone)
  | _ => exact h.2

namespace Session

variable {α : Type} {s : Session} {o : Operation} {e : StoreError} {db : Database}

theorem Computes.leaves_iff {x : Work α} {g : Registry → Database → Except StoreError α}
    (hx : Computes x g) :
    Leaves x s e db ↔ g s.registry s.database = .error e ∧ db = s.database := by
  rw [hx.changes.leaves_iff]
  cases g s.registry s.database <;> simp [Except.map]

theorem leaves_perform_iff :
    Leaves (perform o) s e db ↔ o.Leaves s.registry s.database e db := by
  cases o with
  | find schema plan => exact (computes_find schema plan).leaves_iff
  | count schema filter => exact (computes_count schema filter).leaves_iff
  | create schema row => exact (changes_create schema row).leaves_iff
  | bulkCreate schema rows => exact leaves_mapM_iff (changes_create schema)
  | update schema row filter => exact (changes_update schema row filter).leaves_iff
  | destroy schema filter => exact (changes_destroy schema filter).leaves_iff
  | addLinks a parent ids => exact leaves_link_iff
  | setLinks a parent ids => exact leaves_link_iff
  | existingIds schema ids => exact (computes_existingIds schema ids).leaves_iff

/-- The failures of an operation on the store are those of the work. -/
theorem exists_answer_iff (hs : s.saved = none) :
    (∃ s', (answer (.perform .store o)).run s = (.ok (.error e), s') ∧ s'.database = db) ↔
      o.Leaves s.registry s.database e db := by
  have hanswer : (answer (.perform .store o)).run s =
      (.ok ((perform o).run s).1, ((perform o).run s).2) := by
    rw [answer, run_waiting, hs]
    rfl
  rw [← leaves_perform_iff, hanswer, Leaves]
  constructor
  · rintro ⟨s', h, rfl⟩
    obtain ⟨hreply, rfl⟩ := Prod.mk.inj h
    exact ⟨Except.ok.inj hreply, rfl⟩
  · rintro ⟨hreply, rfl⟩
    exact ⟨_, by rw [hreply], rfl⟩

/-- **What a failed operation leaves**, outside a transaction, is what its steps before the refused
one have made. Where it takes one step, the database is as it was. -/
theorem failed_leaves (hs : s.saved = none) (o : Operation) :
    (∀ e db, (∃ s', (answer (.perform .store o)).run s = (.ok (.error e), s') ∧
      s'.database = db) ↔ o.Leaves s.registry s.database e db) ∧
    (o.IsOneStep → ∀ e s', (answer (.perform .store o)).run s = (.ok (.error e), s') →
      s'.database = s.database) := by
  refine ⟨fun e db => exists_answer_iff hs, fun hone e s' h => ?_⟩
  exact ((exists_answer_iff hs).1 ⟨s', h, rfl⟩).eq_of_isOneStep hone

/-! ## A student and a course -/

/-- A session with a student who takes a course. -/
def enrolled : Session where
  registry := enrollments
  database := ⟨List.zipWith (fun definition rows => { definition, rows }) enrollments.tables [
    [[("id", .text "a")]], [[("id", .text "b")]],
    [[("student_id", .text "a"), ("course_id", .text "b")]]]⟩

/-- Two rows with one key. -/
def twice (id : String) : List Object := [[("id", .str id)], [("id", .str id)]]

/-- Of two courses with one key, the first is there before the second is refused. -/
theorem stops_twice : ∃ db,
    Stops (created course · enrollments) (.uniqueViolation "UNIQUE constraint failed: course.id")
      enrolled.database (twice "c") db ∧
    db.rows "course" = [[("id", .text "b")], [("id", .text "c")]] :=
  Stops.exists_of_refused (by decide +kernel) (by decide +kernel)

/-- The student no longer takes the course when it is refused to take another one instead. -/
theorem stops_replaced : ∃ db,
    Stops executed (.foreignKeyViolation "FOREIGN KEY constraint failed") enrolled.database
      (Statement.ofLinks studentCourses (.str "a") [.str "c"] true) db ∧
    db.rows "enrollment" = [] :=
  Stops.exists_of_refused (by decide +kernel) (by decide +kernel)

/-- A course that is there is refused, and nothing has happened. Of two courses with one key, the
first is there afterwards. -/
theorem failed_creates : enrolled.saved = none ∧
    (∃ e s', (answer (.perform .store (.create course [("id", .str "b")]))).run enrolled =
      (.ok (.error e), s') ∧ s'.database = enrolled.database) ∧
    ∃ e s', (answer (.perform .store (.bulkCreate course (twice "c")))).run enrolled =
      (.ok (.error e), s') ∧
      s'.database.rows "course" = [[("id", .text "b")], [("id", .text "c")]] := by
  have hrefused : created course [("id", .str "b")] enrollments enrolled.database =
      .error (.uniqueViolation "UNIQUE constraint failed: course.id") := by
    decide +kernel
  obtain ⟨db, hstops, hrows⟩ := stops_twice
  obtain ⟨s', hrun, rfl⟩ :=
    ((failed_leaves (s := enrolled) rfl (.bulkCreate course (twice "c"))).1 _ db).2 hstops
  exact ⟨rfl, ⟨_, ((failed_leaves rfl _).1 _ _).2 ⟨hrefused, rfl⟩⟩, _, s', hrun, hrows⟩

/-- **Failed operations may change the database**: rows that are created together, and links that
are replaced. -/
theorem failed_operations_change :
    (∃ e s', (answer (.perform .store (.bulkCreate course (twice "c")))).run enrolled =
      (.ok (.error e), s') ∧ s'.database ≠ enrolled.database) ∧
    ∃ e s', (answer (.perform .store (.setLinks studentCourses (.str "a") [.str "c"]))).run
      enrolled = (.ok (.error e), s') ∧ s'.database ≠ enrolled.database := by
  constructor
  · obtain ⟨db, hstops, hrows⟩ := stops_twice
    obtain ⟨s', hrun, rfl⟩ :=
      (exists_answer_iff (s := enrolled) (o := .bulkCreate course (twice "c")) rfl).2 hstops
    refine ⟨_, s', hrun, fun hsame => ?_⟩
    rw [hsame] at hrows
    exact absurd hrows (by decide +kernel)
  · obtain ⟨db, hstops, hrows⟩ := stops_replaced
    obtain ⟨s', hrun, rfl⟩ := (exists_answer_iff (s := enrolled)
      (o := .setLinks studentCourses (.str "a") [.str "c"]) rfl).2 hstops
    refine ⟨_, s', hrun, fun hsame => ?_⟩
    rw [hsame] at hrows
    exact absurd hrows (by decide +kernel)

end Session

end ResourceApi
