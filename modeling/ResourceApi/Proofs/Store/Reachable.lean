import ResourceApi.Proofs.Sql.Creation
import ResourceApi.Proofs.Store.Session

/-!
# Reachable sessions

A session is *reachable* when it comes from a database with the registry's empty tables by running
programs, one after the other, whatever they do and however they end (`Session.Reachable`). A
program may leave its transaction open; to give the transaction up is a step of its own.

**Theorem (`Session.holds_of_reachable`).** What every operation keeps and what holds of empty
tables holds of the database of a reachable session, and of the one to which an open transaction can
return. One call keeps this (`Session.Holds.answer`): the beginning and the end of a transaction
only move databases about.

**Theorem (`Session.sound_of_reachable`).** These databases are sound: an operation is made of
statements, each of which keeps a database sound.
-/

namespace ResourceApi

namespace Session

variable {α β : Type} {schemas : List Schema} {r : Registry} {s : Session}

/-! ## Properties of databases -/

/-- The work keeps a property of the database, whether it succeeds or not. -/
def Keeps (P : Database → Prop) (x : Work α) : Prop := ∀ s, P s.database → P (x.run s).2.database

section

variable {P : Database → Prop}

theorem Reads.keeps {x : Work α} (h : Reads x) : Keeps P x := by
  intro s hs
  rwa [show (x.run s).2.database = s.database from congrArg Prod.fst (h s).2]

theorem Keeps.bind {x : Work α} {f : α → Work β} (hx : Keeps P x) (hf : ∀ a, Keeps P (f a)) :
    Keeps P (x >>= f) := by
  intro s hs
  rw [run_bind]
  have h := hx s hs
  generalize x.run s = out at h ⊢
  obtain ⟨e | a, s'⟩ := out
  · exact h
  · exact hf a s' h

theorem keeps_mapM {f : α → Work β} (hf : ∀ a, Keeps P (f a)) (xs : List α) :
    Keeps P (xs.mapM f) := by
  induction xs with
  | nil => exact (reads_pure []).keeps
  | cons x xs ih =>
    rw [List.mapM_cons]
    exact (hf x).bind fun _ => ih.bind fun _ => (reads_pure _).keeps

theorem keeps_change {f : Database → Except Violation (Database × α)}
    (h : ∀ db db' a, P db → f db = .ok (db', a) → P db') : Keeps P (change f) := by
  intro s hs
  rw [run_change]
  cases hf : f s.database with
  | error v => exact hs
  | ok out => exact h _ _ _ hs hf

variable
  (hinsert : ∀ db db' table values row, P db → db.insert table values = .ok (db', row) → P db')
  (hexecute : ∀ db db' statement n, P db → db.execute statement = .ok (db', n) → P db')

include hexecute in
theorem keeps_execute (statement : Statement) : Keeps P (execute statement) :=
  (reads_prepare _).keeps.bind fun _ => keeps_change fun _ _ _ => hexecute _ _ _ _

include hinsert in
theorem keeps_create (schema : Schema) (row : Object) : Keeps P (create schema row) :=
  reads_get.keeps.bind fun _ => (reads_expressed _).keeps.bind fun _ =>
    (reads_prepare _).keeps.bind fun _ =>
      (keeps_change fun _ _ _ => hinsert _ _ _ _ _).bind fun _ => (reads_pure _).keeps

include hexecute in
theorem keeps_link (a : Association) (parent : Json) (ids : List Json) (replace : Bool) :
    Keeps P (link a parent ids replace) := by
  unfold link
  induction Statement.ofLinks a parent ids replace with
  | nil => exact (reads_pure ()).keeps
  | cons statement rest ih =>
    exact ((keeps_execute hexecute statement).bind fun _ => (reads_pure ()).keeps).bind fun _ => ih

include hinsert hexecute in
/-- **Operations keep what statements keep.** -/
theorem keeps_perform_of_statements (o : Operation) : Keeps P (perform o) := by
  cases o with
  | find schema plan => exact (reads_find schema plan).keeps
  | count schema filter => exact (reads_count schema filter).keeps
  | existingIds schema ids => exact (reads_existingIds schema ids).keeps
  | create schema row => exact keeps_create hinsert schema row
  | bulkCreate schema rows => exact keeps_mapM (keeps_create hinsert schema) rows
  | update schema row filter =>
    show Keeps _ (update schema row filter)
    unfold update
    split
    · exact (reads_count _ _).keeps
    · exact reads_get.keeps.bind fun _ => (reads_expressed _).keeps.bind fun _ =>
        keeps_execute hexecute _
  | destroy schema filter =>
    exact reads_get.keeps.bind fun _ => (reads_expressed _).keeps.bind fun _ =>
      keeps_execute hexecute _
  | addLinks a parent ids => exact keeps_link hexecute a parent ids false
  | setLinks a parent ids => exact keeps_link hexecute a parent ids true

/-- **Operations keep a database sound.** -/
theorem keeps_perform {definitions : List TableDefinition} (hl : TablesLinked definitions)
    (o : Operation) : Keeps (·.Sound definitions) (perform o) :=
  keeps_perform_of_statements (fun _ _ _ _ _ hs h => Database.sound_insert hl hs h)
    (fun _ _ _ _ hs h => Database.sound_execute hl hs h) o

end

/-! ## Sessions -/

/-- The property holds for the database of the session, and for the one to which an open transaction
can return. -/
structure Holds (P : Database → Prop) (s : Session) : Prop where
  database : P s.database
  saved : ∀ db, s.saved = some db → P db

/-- A call on the store itself is answered, unless a transaction is open. -/
theorem run_waiting (x : Waiting α) (s : Session) :
    (wait >>= fun _ => x).run s =
      if s.saved.isSome then (.error .blocked, s) else x.run s := by
  rw [run_bind, run_wait]
  cases s.saved <;> rfl

/-- **A call keeps the registry.** -/
theorem registry_of_answer (c : Call) (s : Session) :
    ((answer c).run s).2.registry = s.registry := by
  have waits {x : Waiting c.Reply} (hx : (x.run s).2.registry = s.registry) :
      ((wait >>= fun _ => x).run s).2.registry = s.registry := by
    rw [run_waiting]
    split
    · rfl
    · exact hx
  cases c with
  | perform scope o =>
    cases scope with
    | store => exact waits (framed_perform o s).1
    | transaction => exact (framed_perform o s).1
  | begin => exact waits rfl
  | commit => rfl
  | rollback => rfl

theorem registry_of_run (supply : Nat → String) (p : Program α) (s : Session) :
    (Session.run supply p s).2.registry = s.registry := by
  induction p generalizing s with
  | done a => rfl
  | draw next ih => exact ih (supply s.drawn) { s with drawn := s.drawn + 1 }
  | call c next ih =>
    show ((answer c >>= fun reply =>
      (next reply).interpret (fresh supply) answer).run s).2.registry = _
    rw [run_bind]
    have hanswer := registry_of_answer c s
    generalize (answer c).run s = out at hanswer ⊢
    obtain ⟨e | reply, s'⟩ := out
    · exact hanswer
    · exact (ih reply s').trans hanswer

theorem drop_eq (s : Session) :
    (drop.run s).2 = if s.saved.isSome then (rollback.run s).2 else s := by
  show ((if s.saved.isSome then rollback else pure ()).run s).2 = _
  split <;> rfl

namespace Holds

variable {P : Database → Prop}

theorem rollback (h : s.Holds P) : (rollback.run s).2.Holds P := by
  refine ⟨?_, nofun⟩
  show P (s.saved.getD s.database)
  cases hs : s.saved with
  | none => exact h.database
  | some db => exact h.saved db hs

theorem drop (h : s.Holds P) : (drop.run s).2.Holds P := by
  rw [drop_eq]
  split
  · exact h.rollback
  · exact h

variable (hp : ∀ o, Keeps P (Session.perform o))
include hp

theorem perform (h : s.Holds P) (o : Operation) : ((Session.perform o).run s).2.Holds P := by
  refine ⟨hp o s h.database, ?_⟩
  rw [(framed_perform o s).2]
  exact h.saved

/-- **A call keeps what operations keep.** -/
theorem answer (h : s.Holds P) (c : Call) : ((Session.answer c).run s).2.Holds P := by
  have waits {x : Waiting c.Reply} (hx : (x.run s).2.Holds P) :
      ((wait >>= fun _ => x).run s).2.Holds P := by
    rw [run_waiting]
    split
    · exact h
    · exact hx
  cases c with
  | perform scope o =>
    cases scope with
    | store => exact waits (h.perform hp o)
    | transaction => exact h.perform hp o
  | begin =>
    refine waits ⟨h.database, ?_⟩
    rintro db he
    obtain rfl := Option.some.inj he
    exact h.database
  | commit => exact ⟨h.database, nofun⟩
  | rollback => exact h.rollback

/-- **A program keeps what operations keep.** -/
theorem run (h : s.Holds P) (supply : Nat → String) (p : Program α) :
    (Session.run supply p s).2.Holds P := by
  induction p generalizing s with
  | done a => exact h
  | draw next ih =>
    exact ih (supply s.drawn) (s := { s with drawn := s.drawn + 1 }) ⟨h.database, h.saved⟩
  | call c next ih =>
    show ((Session.answer c >>= fun reply =>
      (next reply).interpret (fresh supply) Session.answer).run s).2.Holds P
    rw [run_bind]
    have hanswer := h.answer hp c
    generalize (Session.answer c).run s = out at hanswer ⊢
    obtain ⟨e | reply, s'⟩ := out
    · exact hanswer
    · exact ih reply hanswer

end Holds

/-! ## Sound sessions -/

/-- The session works on a sound database, and can return to a sound one. -/
structure Sound (r : Registry) (s : Session) : Prop where
  registry : s.registry = r
  database : s.database.Sound r.tables
  saved : ∀ db, s.saved = some db → db.Sound r.tables

theorem Sound.holds (h : s.Sound r) : s.Holds (·.Sound r.tables) := ⟨h.database, h.saved⟩

/-- **A program keeps a session sound.** -/
theorem Sound.run (hl : TablesLinked r.tables) (h : s.Sound r) (supply : Nat → String)
    (p : Program α) : (Session.run supply p s).2.Sound r :=
  have hrun := h.holds.run (keeps_perform hl) supply p
  ⟨(registry_of_run supply p s).trans h.registry, hrun.database, hrun.saved⟩

/-! ## Runs -/

/-- The session comes from one with empty tables by running programs. -/
inductive Reachable (r : Registry) : Session → Prop
  | start {s : Session} : Session.start r = .ok s → Reachable r s
  | run {s : Session} {α : Type} (supply : Nat → String) (p : Program α) :
      Reachable r s → Reachable r (Session.run supply p s).2
  | drop {s : Session} : Reachable r s → Reachable r (drop.run s).2

/-- A session starts without a transaction. -/
theorem saved_of_start (h : Session.start r = .ok s) : s.saved = none := by
  unfold Session.start at h
  split at h
  · obtain rfl := Except.ok.inj h
    rfl
  · cases h

/-- A session starts with empty tables. -/
theorem tables_of_start (hn : (r.tables.map (·.name)).Nodup) (h : Session.start r = .ok s) :
    s.database.tables = r.tables.map ({ definition := · }) := by
  unfold Session.start at h
  split at h
  · rename_i db hdb
    obtain rfl := Except.ok.inj h
    have htables := (Database.createAll_eq_ok hdb (by simpa [Database.empty] using hn)).1
    simpa [Database.empty] using htables
  · cases h

theorem rows_of_start (hn : (r.tables.map (·.name)).Nodup) (h : Session.start r = .ok s)
    (table : String) : s.database.rows table = [] := by
  unfold Database.rows
  cases ht : s.database.table? table with
  | none => rfl
  | some t =>
    have hm := Database.mem_of_table? ht
    rw [tables_of_start hn h] at hm
    obtain ⟨d, -, rfl⟩ := List.mem_map.1 hm
    rfl

theorem registry_of_start (h : Session.start r = .ok s) : s.registry = r := by
  unfold Session.start at h
  split at h
  · obtain rfl := Except.ok.inj h
    rfl
  · cases h

theorem sound_of_start (hn : (r.tables.map (·.name)).Nodup) (h : Session.start r = .ok s) :
    s.Sound r := by
  have htables := tables_of_start hn h
  have hempty : ∀ t ∈ s.database.tables, t.rows = [] := by
    rw [htables]
    exact List.forall_mem_map.2 fun d _ => rfl
  refine ⟨registry_of_start h, ⟨?_, fun t ht => ⟨?_, ?_⟩, ?_⟩, ?_⟩
  · rw [htables]
    simp [Function.comp_def]
  · rw [hempty t ht]
    exact List.forall_mem_nil _
  · rw [hempty t ht]
    exact fun _ _ => List.Pairwise.nil
  · refine Database.referencesHold_iff.2 fun t ht row hrow => ?_
    rw [hempty t ht] at hrow
    cases hrow
  · rw [saved_of_start h]
    nofun

/-- **Reachable sessions are sound.** -/
theorem sound_of_reachable (h : Registry.assemble schemas = .ok r)
    (hn : (r.tables.map (·.name)).Nodup) (hs : Reachable r s) : r.Creatable ∧ s.Sound r := by
  induction hs with
  | start hstart => exact ⟨Registry.creatable_of_start hn hstart, sound_of_start hn hstart⟩
  | run supply p _ ih => exact ⟨ih.1, ih.2.run (Registry.tablesLinked h ih.1) supply p⟩
  | @drop s _ ih =>
    refine ⟨ih.1, ?_, ih.2.holds.drop.database, ih.2.holds.drop.saved⟩
    rw [drop_eq, apply_ite registry]
    exact (ite_self _).trans ih.2.registry

/-- **What operations keep holds in reachable sessions** if it holds for empty tables. -/
theorem holds_of_reachable {P : Database → Prop} (hp : ∀ o, Keeps P (Session.perform o))
    (hstart : ∀ s, Session.start r = .ok s → P s.database) (hs : Reachable r s) : s.Holds P := by
  induction hs with
  | start h =>
    refine ⟨hstart _ h, fun db hdb => ?_⟩
    rw [saved_of_start h] at hdb
    cases hdb
  | run supply p _ ih => exact ih.run hp supply p
  | drop _ ih => exact ih.drop

end Session

end ResourceApi
