import ResourceApi.Proofs.Sql.Changes
import ResourceApi.Proofs.Store.Transactional
import ResourceApi.Store.Session

/-!
# Sessions as transactional stores

**Theorem (`Session.transactional`).** A database session is a transactional store. What is
committed is the content of the database as it was when the open transaction began, or as it is
when none is open; `Session.exists_follows` says that a program that ends in a session has taken
the store along one of its runs.

The proof needs three facts about work in a session. No operation touches the saved database
(`Session.Framed`). A single statement that fails has not changed the database (`Session.Single`),
since it looks its names up, checks its sizes and computes the new database before it puts that in
place. An update or deletion of no row puts the same rows back in place, if in another order.
-/

namespace ResourceApi

/-! ## Work in a session -/

namespace Session

variable {ε α β : Type}

/-- Work runs one part after the other, up to the first failure. -/
theorem run_bind (x : ExceptT ε (StateM Session) α) (f : α → ExceptT ε (StateM Session) β)
    (s : Session) :
    (x >>= f).run s =
      match x.run s with
      | (.ok a, s') => (f a).run s'
      | (.error e, s') => (.error e, s') := by
  show StateT.bind x.run (ExceptT.bindCont f) s = _
  unfold StateT.bind
  rcases x.run s with ⟨_ | _, s'⟩ <;> rfl

/-- What the calls of a store depend on and change. -/
def view (s : Session) : Database × Option Database := (s.database, s.saved)

/-- The work only reads. -/
def Reads (x : Work α) : Prop :=
  ∀ s, (x.run s).2.registry = s.registry ∧ (x.run s).2.view = s.view

/-- The work leaves the saved database alone. -/
def Framed (x : Work α) : Prop :=
  ∀ s, (x.run s).2.registry = s.registry ∧ (x.run s).2.saved = s.saved

/-- The work leaves the database alone if it fails. -/
def Single (x : Work α) : Prop :=
  ∀ s e, (x.run s).1 = .error e → (x.run s).2.database = s.database

theorem Reads.framed {x : Work α} (h : Reads x) : Framed x :=
  fun s => ⟨(h s).1, congrArg Prod.snd (h s).2⟩

theorem Reads.single {x : Work α} (h : Reads x) : Single x :=
  fun s _ _ => congrArg Prod.fst (h s).2

/-- What both parts of the work leave alone, the work leaves alone. -/
theorem kept_bind {γ : Type} (part : Session → γ) {x : Work α} {f : α → Work β}
    (hx : ∀ s, part (x.run s).2 = part s) (hf : ∀ a s, part ((f a).run s).2 = part s)
    (s : Session) : part ((x >>= f).run s).2 = part s := by
  rw [run_bind]
  have h := hx s
  generalize x.run s = out at h ⊢
  obtain ⟨e | a, s'⟩ := out
  · exact h
  · exact (hf a s').trans h

theorem Reads.bind {x : Work α} {f : α → Work β} (hx : Reads x) (hf : ∀ a, Reads (f a)) :
    Reads (x >>= f) := by
  intro s
  constructor
  · exact kept_bind (·.registry) (fun s => (hx s).1) (fun a s => (hf a s).1) s
  · exact kept_bind view (fun s => (hx s).2) (fun a s => (hf a s).2) s

theorem Framed.bind {x : Work α} {f : α → Work β} (hx : Framed x) (hf : ∀ a, Framed (f a)) :
    Framed (x >>= f) := by
  intro s
  constructor
  · exact kept_bind (·.registry) (fun s => (hx s).1) (fun a s => (hf a s).1) s
  · exact kept_bind (·.saved) (fun s => (hx s).2) (fun a s => (hf a s).2) s

/-- To read first does not change what a failure leaves. -/
theorem Reads.bind_single {x : Work α} {f : α → Work β} (hx : Reads x)
    (hf : ∀ a, Single (f a)) : Single (x >>= f) := by
  intro s e
  rw [run_bind]
  have h := hx s
  generalize x.run s = out at h ⊢
  obtain ⟨e | a, s'⟩ := out
  · exact fun _ => congrArg Prod.fst h.2
  · exact fun he => (hf a s' e he).trans (congrArg Prod.fst h.2)

/-- What succeeds afterwards cannot fail the work. -/
theorem Single.bind_pure {x : Work α} (hx : Single x) (f : α → β) :
    Single (x >>= fun a => pure (f a)) := by
  intro s e
  rw [run_bind]
  have h := hx s
  generalize x.run s = out at h ⊢
  obtain ⟨e' | a, s'⟩ := out
  · exact fun _ => h e' rfl
  · exact nofun

theorem reads_pure (a : α) : Reads (pure a : Work α) := fun _ => ⟨rfl, rfl⟩

theorem reads_get : Reads (get : Work Session) := fun _ => ⟨rfl, rfl⟩

theorem reads_mk (x : Except StoreError α) : Reads (ExceptT.mk (pure x)) := fun _ => ⟨rfl, rfl⟩

theorem reads_checked (x : Except Violation α) : Reads (checked x) := fun _ => ⟨rfl, rfl⟩

theorem reads_expressed (x : Except RenderError α) : Reads (expressed x) := fun _ => ⟨rfl, rfl⟩

theorem reads_announce (statement : Statement) : Reads (announce statement) :=
  fun _ => ⟨rfl, rfl⟩

theorem reads_verify (statement : Statement) (sql : String) : Reads (verify statement sql) :=
  reads_get.bind fun _ => (reads_checked _).bind fun _ => (reads_checked _).bind fun _ =>
    (reads_checked _).bind fun _ => reads_checked _

theorem reads_prepare (statement : Statement) : Reads (prepare statement) :=
  (reads_announce _).bind fun _ => reads_verify _ _

theorem reads_prepareQuery (query : SelectQuery) : Reads (prepareQuery query) :=
  (reads_announce _).bind fun _ => reads_get.bind fun _ => (reads_checked _).bind fun _ =>
    (reads_verify _ _).bind fun _ => reads_pure _

theorem reads_find (schema : Schema) (plan : Plan) : Reads (find schema plan) :=
  reads_get.bind fun _ => (reads_expressed _).bind fun _ => (reads_prepareQuery _).bind fun _ =>
    reads_get.bind fun _ => (reads_checked _).bind fun _ => reads_mk _

theorem reads_count (schema : Schema) (filter : Predicate) : Reads (count schema filter) :=
  reads_get.bind fun _ => (reads_expressed _).bind fun _ => (reads_prepare _).bind fun _ =>
    reads_get.bind fun _ => reads_pure _

theorem reads_existingIds (schema : Schema) (ids : List Json) : Reads (existingIds schema ids) := by
  unfold existingIds
  split
  · exact reads_pure []
  · exact (reads_prepare _).bind fun _ => reads_get.bind fun _ => reads_pure _

theorem run_change (f : Database → Except Violation (Database × α)) (s : Session) :
    (change f).run s =
      match f s.database with
      | .ok (db, a) => (.ok a, { s with database := db })
      | .error v => (.error v.toStoreError, s) := by
  unfold change
  rw [run_bind]
  show ((match f s.database with | .ok (db, a) => _ | .error v => _ : Work α).run s) = _
  cases f s.database <;> rfl

theorem framed_change (f : Database → Except Violation (Database × α)) : Framed (change f) := by
  intro s
  rw [run_change]
  cases f s.database <;> exact ⟨rfl, rfl⟩

theorem single_change (f : Database → Except Violation (Database × α)) : Single (change f) := by
  intro s e h
  rw [run_change] at h ⊢
  cases hf : f s.database with
  | error v => rfl
  | ok out =>
    rw [hf] at h
    cases h

theorem framed_execute (statement : Statement) : Framed (execute statement) :=
  (reads_prepare _).framed.bind fun _ => framed_change _

theorem single_execute (statement : Statement) : Single (execute statement) :=
  (reads_prepare _).bind_single fun _ => single_change _

theorem framed_create (schema : Schema) (row : Object) : Framed (create schema row) :=
  reads_get.framed.bind fun _ => (reads_expressed _).framed.bind fun _ =>
    (reads_prepare _).framed.bind fun _ => (framed_change _).bind fun _ => (reads_pure _).framed

theorem single_create (schema : Schema) (row : Object) : Single (create schema row) :=
  reads_get.bind_single fun _ => (reads_expressed _).bind_single fun _ =>
    (reads_prepare _).bind_single fun _ => (single_change _).bind_pure _

theorem framed_update (schema : Schema) (row : Object) (filter : Predicate) :
    Framed (update schema row filter) := by
  unfold update
  split
  · exact (reads_count _ _).framed
  · exact reads_get.framed.bind fun _ => (reads_expressed _).framed.bind fun _ => framed_execute _

theorem single_update (schema : Schema) (row : Object) (filter : Predicate) :
    Single (update schema row filter) := by
  unfold update
  split
  · exact (reads_count _ _).single
  · exact reads_get.bind_single fun _ => (reads_expressed _).bind_single fun _ => single_execute _

theorem framed_destroy (schema : Schema) (filter : Predicate) : Framed (destroy schema filter) :=
  reads_get.framed.bind fun _ => (reads_expressed _).framed.bind fun _ => framed_execute _

theorem single_destroy (schema : Schema) (filter : Predicate) : Single (destroy schema filter) :=
  reads_get.bind_single fun _ => (reads_expressed _).bind_single fun _ => single_execute _

theorem framed_mapM {f : α → Work β} (hf : ∀ a, Framed (f a)) (xs : List α) :
    Framed (xs.mapM f) := by
  induction xs with
  | nil => exact (reads_pure []).framed
  | cons x xs ih =>
    rw [List.mapM_cons]
    exact (hf x).bind fun _ => ih.bind fun _ => (reads_pure _).framed

theorem framed_link (a : Association) (parent : Json) (ids : List Json) (replace : Bool) :
    Framed (link a parent ids replace) := by
  unfold link
  induction Statement.ofLinks a parent ids replace with
  | nil => exact (reads_pure ()).framed
  | cons statement rest ih =>
    exact ((framed_execute statement).bind fun _ => (reads_pure ()).framed).bind fun _ => ih

/-- No operation touches the saved database. -/
theorem framed_perform (o : Operation) : Framed (perform o) := by
  cases o with
  | find schema plan => exact (reads_find schema plan).framed
  | count schema filter => exact (reads_count schema filter).framed
  | create schema row => exact framed_create schema row
  | bulkCreate schema rows => exact framed_mapM (framed_create schema) rows
  | update schema row filter => exact framed_update schema row filter
  | destroy schema filter => exact framed_destroy schema filter
  | addLinks a parent ids => exact framed_link a parent ids false
  | setLinks a parent ids => exact framed_link a parent ids true
  | existingIds schema ids => exact (reads_existingIds schema ids).framed

/-! ## Operations with nothing to change -/

/-- The work leaves the content of the database if it answers that it has changed no row. -/
def Counts (x : Work Nat) : Prop :=
  ∀ s, (x.run s).1 = .ok 0 → (x.run s).2.database.contents = s.database.contents

theorem Reads.counts {x : Work Nat} (h : Reads x) : Counts x :=
  fun s _ => by rw [show (x.run s).2.database = s.database from congrArg Prod.fst (h s).2]

theorem Reads.bind_counts {x : Work α} {f : α → Work Nat} (hx : Reads x)
    (hf : ∀ a s, (x.run s).1 = .ok a → Counts (f a)) : Counts (x >>= f) := by
  intro s
  rw [run_bind]
  have h := hx s
  have hf := fun a => hf a s
  generalize x.run s = out at h hf ⊢
  obtain ⟨e | a, s'⟩ := out
  · exact nofun
  · intro ha
    rw [hf a rfl s' ha, show s'.database = s.database from congrArg Prod.fst h.2]

theorem counts_execute {statement : Statement}
    (h : ∀ db db' : Database, db.execute statement = .ok (db', 0) → db'.contents = db.contents) :
    Counts (execute statement) := by
  refine (reads_prepare _).bind_counts fun _ _ _ s hs => ?_
  rw [run_change] at hs ⊢
  cases hd : s.database.execute statement with
  | error v => simp [hd] at hs
  | ok out =>
    obtain ⟨db, n⟩ := out
    obtain rfl : n = 0 := by simpa [hd] using hs
    exact h _ _ hd

theorem counts_update (schema : Schema) (row : Object) (filter : Predicate) :
    Counts (update schema row filter) := by
  unfold update
  split
  · exact (reads_count _ _).counts
  · refine reads_get.bind_counts fun r _ _ =>
      (reads_expressed _).bind_counts fun statement s h => ?_
    have h := mapError_eq_ok.1 h
    obtain ⟨values, -, h⟩ := bind_eq_ok.1 h
    obtain ⟨rows, -, h⟩ := bind_eq_ok.1 h
    obtain rfl := pure_eq_ok.1 h
    exact counts_execute fun _ _ h => Database.contents_updateRows h

theorem counts_destroy (schema : Schema) (filter : Predicate) :
    Counts (destroy schema filter) := by
  refine reads_get.bind_counts fun r _ _ => (reads_expressed _).bind_counts fun statement s h => ?_
  obtain ⟨rows, -, h⟩ := bind_eq_ok.1 (mapError_eq_ok.1 h)
  obtain rfl := pure_eq_ok.1 h
  refine counts_execute ?_
  intro db db' h
  have h : db.deleteRows rows.table (db.hasKeyOf rows) = (db', 0) := Except.ok.inj h
  obtain ⟨rfl, hn⟩ := Prod.ext_iff.1 h
  exact Database.contents_deleteRows hn

/-- An operation with nothing to change leaves the content of the database. -/
theorem contents_perform {o : Operation} {s : Session}
    (h : o.LeavesRows ((perform o).run s).1) :
    ((perform o).run s).2.database.contents = s.database.contents := by
  have reads {α : Type} {x : Work α} (hx : Reads x) :
      (x.run s).2.database.contents = s.database.contents := by
    rw [show (x.run s).2.database = s.database from congrArg Prod.fst (hx s).2]
  have single {α : Type} {x : Work α} (hx : Single x) (h : ∃ e, (x.run s).1 = .error e) :
      (x.run s).2.database.contents = s.database.contents := by
    obtain ⟨e, h⟩ := h
    rw [hx s e h]
  cases o with
  | find schema plan => exact reads (reads_find schema plan)
  | count schema filter => exact reads (reads_count schema filter)
  | existingIds schema ids => exact reads (reads_existingIds schema ids)
  | create schema row => exact single (single_create schema row) h
  | update schema row filter =>
    rcases h with h | h
    · exact single (single_update schema row filter) h
    · exact counts_update schema row filter s h
  | destroy schema filter =>
    rcases h with h | h
    · exact single (single_destroy schema filter) h
    · exact counts_destroy schema filter s h
  | _ => exact h.elim

/-! ## Sessions as stores -/

/-- The store that sessions over a registry make up. Whether others can see what a transaction does
is a matter of which database they are shown: the saved one. -/
def asStore (r : Registry) :
    Store (Database × Option Database)
      (String → Option (TableDefinition × Multiset Tuple × Int)) where
  committed s := (s.2.getD s.1).contents
  isOpen s := s.2.isSome
  answers before c reply after := ∃ s s' : Session, s.registry = r ∧ s.view = before ∧
    (answer c).run s = (.ok reply, s') ∧ s'.view = after

theorem run_wait (s : Session) :
    wait.run s = (if s.saved.isSome then .error .blocked else .ok (), s) := by
  obtain ⟨r, db, _ | saved, events, drawn⟩ := s <;> rfl

/-- A call on the store itself is answered only while no transaction is open. -/
theorem run_wait_bind {f : Waiting α} {s s' : Session} {a : α}
    (h : (wait >>= fun _ => f).run s = (.ok a, s')) : s.saved = none ∧ f.run s = (.ok a, s') := by
  rw [run_bind, run_wait] at h
  cases hs : s.saved with
  | none => exact ⟨rfl, by simpa [hs] using h⟩
  | some db =>
    simp only [hs, Option.isSome_some, if_true] at h
    cases h

theorem run_lift (x : StateM Session α) (s : Session) :
    (ExceptT.lift x : Waiting α).run s = (.ok (x s).1, (x s).2) := rfl

/-- What an operation answers, and where it leads. -/
theorem run_perform {o : Operation} {s s' : Session} {reply : Except StoreError o.Answer}
    (h : (ExceptT.lift (perform o).run : Waiting _).run s = (.ok reply, s')) :
    ((perform o).run s).1 = reply ∧ ((perform o).run s).2 = s' := by
  rw [run_lift] at h
  cases h
  exact ⟨rfl, rfl⟩

/-- **Sessions are transactional stores.** -/
theorem transactional (r : Registry) : (asStore r).Transactional where
  perform := by
    rintro _ _ o reply hr ⟨s, s', -, rfl, h, rfl⟩
    obtain ⟨hs, h⟩ := run_wait_bind h
    obtain ⟨rfl, rfl⟩ := run_perform h
    have hs' := ((framed_perform o s).2).trans hs
    simpa [asStore, view, hs, hs'] using contents_perform hr
  begin := by
    rintro _ _ reply ⟨s, s', -, rfl, h, rfl⟩
    obtain ⟨hs, h⟩ := run_wait_bind h
    cases h
    simp [asStore, view, hs]
  transaction := by
    rintro _ _ o reply ho ⟨s, s', -, rfl, h, rfl⟩
    obtain ⟨rfl, rfl⟩ := run_perform h
    have hs' := (framed_perform o s).2
    obtain ⟨db, hdb⟩ := Option.isSome_iff_exists.1 ho
    simp only [view] at hdb
    simp [asStore, view, hs', hdb]
  commit := by
    rintro _ _ e - ⟨s, s', -, rfl, h, rfl⟩
    cases h
  rollback := by
    rintro _ _ reply ho ⟨s, s', -, rfl, h, rfl⟩
    cases h
    obtain ⟨db, hdb⟩ := Option.isSome_iff_exists.1 ho
    simp only [view] at hdb
    simp [asStore, view, hdb]

/-! ## Runs of programs in a session -/

theorem registry_answer {c : Call} {s s' : Session} {reply : c.Reply}
    (h : (answer c).run s = (.ok reply, s')) : s'.registry = s.registry := by
  cases c with
  | perform scope o =>
    cases scope with
    | store =>
      obtain ⟨rfl, rfl⟩ := run_perform (run_wait_bind h).2
      exact (framed_perform o s).1
    | transaction =>
      obtain ⟨rfl, rfl⟩ := run_perform h
      exact (framed_perform o s).1
  | begin =>
    cases (run_wait_bind h).2
    rfl
  | commit =>
    cases h
    rfl
  | rollback =>
    cases h
    rfl

/-- **Sessions run programs.** A program that ends in a session has taken the store along one of
its runs. -/
theorem exists_follows {r : Registry} {supply : Nat → String} {p : Program α} {s s' : Session}
    {a : α} (hr : s.registry = r) (h : run supply p s = (.ok a, s')) :
    ∃ t, p.Runs t a ∧ (asStore r).Follows s.view t s'.view := by
  induction p generalizing s with
  | done b =>
    cases h
    exact ⟨[], .done a, .nil _⟩
  | draw next ih =>
    obtain ⟨t, ht, hf⟩ := ih (supply s.drawn) (s := { s with drawn := s.drawn + 1 }) hr h
    exact ⟨t, .draw _ ht, hf⟩
  | call c next ih =>
    have h : ((answer c >>= fun reply => (next reply).interpret (fresh supply) answer).run s) =
        (.ok a, s') := h
    rw [run_bind] at h
    cases ha : (answer c).run s with
    | mk reply s₁ =>
      rw [ha] at h
      cases reply with
      | error e => cases h
      | ok reply =>
        obtain ⟨t, ht, hf⟩ := ih reply ((registry_answer ha).trans hr) h
        exact ⟨⟨c, reply⟩ :: t, .call _ ht, .cons ⟨s, s₁, hr, rfl, ha, rfl⟩ hf⟩

end Session

end ResourceApi
