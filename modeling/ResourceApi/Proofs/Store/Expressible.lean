import ResourceApi.Proofs.Engine.Addressing
import ResourceApi.Proofs.Schema.Fitting

/-!
# Expressible operations

An operation is *expressible* over a registry when its statements can be rendered: every field that
it names has a column in the table of its schema, and so has the key of an association whose links
it writes (`Operation.Expressible`).

**Theorem (`Session.perform_ne_plan`).** A session never refuses an expressible operation as a plan
that it cannot execute.
-/

namespace ResourceApi

variable {α β : Type} {schemas : List Schema} {r : Registry} {schema : Schema}

/-- The operation can be expressed in statements. -/
def Operation.Expressible (r : Registry) : Operation → Prop
  | .find schema plan => ∃ rendered, Statement.ofPlan r schema plan = .ok rendered
  | .count schema filter => ∃ statement, Statement.ofCount r schema filter = .ok statement
  | .create schema row => ∃ statement, Statement.ofInsert r schema row = .ok statement
  | .bulkCreate schema rows =>
    ∀ row ∈ rows, ∃ statement, Statement.ofInsert r schema row = .ok statement
  | .update schema row filter =>
    if row.isEmpty then ∃ statement, Statement.ofCount r schema filter = .ok statement
    else ∃ statement, Statement.ofUpdate r schema row filter = .ok statement
  | .destroy schema filter => ∃ statement, Statement.ofDelete r schema filter = .ok statement
  | .addLinks a _ _ | .setLinks a _ _ => a ∈ r.associations ∧
    ∀ owner field other, a.KeyOn owner field other → ∃ c, r.column? owner field = some c
  | .existingIds schema _ => schema ∈ r.schemas

/-- The call is no operation, or one that can be expressed. -/
def Call.Expressible (r : Registry) : Call → Prop
  | .perform _ o => o.Expressible r
  | .begin | .commit | .rollback => True

/-! ## Statements -/

namespace Statement

/-- A row is inserted by a statement if its fields have columns. -/
theorem exists_ofInsert {row : Object}
    (h : ∀ field ∈ row.keys, ∃ c, r.column? schema field = some c) :
    ∃ statement, ofInsert r schema row = .ok statement :=
  exists_bind_eq_ok (exists_assignments_iff.2 h) fun _ => ⟨_, rfl⟩

end Statement

/-- An update of an addressed row can be expressed if the fields that it sets have columns. -/
theorem Operation.expressible_update_idIs (hk : schema.Addressable) {row : Object}
    (h : ∀ field ∈ row.keys, ∃ c, r.column? schema field = some c) (id : Json) :
    (update schema row (.idIs schema id)).Expressible r := by
  show if row.isEmpty then _ else _
  split
  · exact ⟨_, bind_eq_ok.2 ⟨_, Rendering.keys_idIs hk, rfl⟩⟩
  · exact exists_bind_eq_ok (Statement.exists_assignments_iff.2 h)
      fun _ => ⟨_, bind_eq_ok.2 ⟨_, Rendering.keys_idIs hk, rfl⟩⟩

/-- The key of an association has a column. -/
theorem Registry.exists_column_of_keyOn (h : Registry.assemble schemas = .ok r) {a : Association}
    (ha : a ∈ r.associations) {owner other : Schema} {field : String}
    (hk : a.KeyOn owner field other) : ∃ c, r.column? owner field = some c := by
  have hkey := key_of_assemble h ha hk
  split at hkey
  · rename_i hf
    obtain ⟨c, hc, -⟩ := r.column?_of_hasField hf
    exact ⟨c, hc⟩
  · obtain ⟨k, hone⟩ := hkey
    have hmem : k ∈ (r.foreignKeysOf owner).filter (·.field = field) := hone ▸ List.mem_cons_self
    obtain ⟨hm, hfield⟩ := List.mem_filter.1 hmem
    obtain rfl : k.field = field := of_decide_eq_true hfield
    exact Session.exists_column_of_reload (List.mem_append_right _ (List.mem_map_of_mem hm))

/-! ## Work that is not refused -/

namespace Session

/-- Over the registry, the work does not fail for want of a statement. -/
def Expresses (r : Registry) (x : Work α) : Prop :=
  ∀ s, s.registry = r → (x.run s).2.registry = r ∧
    ∀ message, (x.run s).1 ≠ .error (.plan message)

section

theorem Violation.toStoreError_ne_plan (v : Violation) (message : String) :
    v.toStoreError ≠ .plan message := by
  cases v <;> nofun

theorem Expresses.bind {x : Work α} {f : α → Work β} (hx : Expresses r x)
    (hf : ∀ a, Expresses r (f a)) : Expresses r (x >>= f) := by
  intro s hs
  rw [run_bind]
  have h := hx s hs
  generalize x.run s = out at h ⊢
  obtain ⟨e | a, s'⟩ := out
  · exact ⟨h.1, fun message he => h.2 message (congrArg Except.error (Except.error.inj he))⟩
  · exact hf a s' h.1

/-- The registry that the work looks at is the registry. -/
theorem expresses_get_bind {f : Session → Work α} (h : ∀ s, s.registry = r → Expresses r (f s)) :
    Expresses r (get >>= f) :=
  fun s hs => h s hs s hs

theorem expresses_pure (a : α) : Expresses r (pure a : Work α) := fun _ hs => ⟨hs, nofun⟩

theorem expresses_expressed {x : Except RenderError α} (h : ∃ a, x = .ok a) :
    Expresses r (expressed x) := by
  obtain ⟨a, rfl⟩ := h
  exact expresses_pure a

theorem expresses_checked (x : Except Violation α) : Expresses r (checked x) := by
  refine fun s hs => ⟨hs, fun message he => ?_⟩
  cases x with
  | error v => exact Violation.toStoreError_ne_plan v message (Except.error.inj he)
  | ok a => cases he

theorem expresses_decoded (x : Except OutOfRange α) :
    Expresses r (ExceptT.mk (pure (x.mapError fun e => .database e.message))) := by
  refine fun s hs => ⟨hs, fun message he => ?_⟩
  cases x with
  | error e => cases he
  | ok a => cases he

theorem expresses_announce (statement : Statement) : Expresses r (announce statement) :=
  fun _ hs => ⟨hs, nofun⟩

theorem expresses_verify (statement : Statement) (sql : String) :
    Expresses r (verify statement sql) :=
  expresses_get_bind fun _ _ => (expresses_checked _).bind fun _ => (expresses_checked _).bind
    fun _ => (expresses_checked _).bind fun _ => expresses_checked _

theorem expresses_prepare (statement : Statement) : Expresses r (prepare statement) :=
  (expresses_announce statement).bind fun _ => expresses_verify _ _

theorem expresses_prepareQuery (query : SelectQuery) : Expresses r (prepareQuery query) :=
  (expresses_announce _).bind fun _ => expresses_get_bind fun _ _ => (expresses_checked _).bind
    fun _ => (expresses_verify _ _).bind fun _ => expresses_pure _

theorem expresses_change (f : Database → Except Violation (Database × α)) :
    Expresses r (change f) := by
  refine fun s hs => ⟨(framed_change f s).1.trans hs, fun message he => ?_⟩
  rw [run_change] at he
  cases hf : f s.database with
  | error v =>
    rw [hf] at he
    exact Violation.toStoreError_ne_plan v message (Except.error.inj he)
  | ok out =>
    rw [hf] at he
    cases he

theorem expresses_execute (statement : Statement) : Expresses r (execute statement) :=
  (expresses_prepare statement).bind fun _ => expresses_change _

theorem expresses_count {filter : Predicate}
    (h : ∃ statement, Statement.ofCount r schema filter = .ok statement) :
    Expresses r (count schema filter) := by
  obtain ⟨query, hquery, -⟩ := exists_bind_eq_ok_iff.1 h
  refine expresses_get_bind fun s hs => ?_
  subst hs
  exact (expresses_expressed ⟨query, hquery⟩).bind fun _ => (expresses_prepare _).bind
    fun _ => expresses_get_bind fun _ _ => expresses_pure _

theorem expresses_create {row : Object}
    (h : ∃ statement, Statement.ofInsert r schema row = .ok statement) :
    Expresses r (create schema row) := by
  obtain ⟨values, hvalues, -⟩ := exists_bind_eq_ok_iff.1 h
  refine expresses_get_bind fun s hs => ?_
  subst hs
  exact (expresses_expressed ⟨values, hvalues⟩).bind fun _ => (expresses_prepare _).bind
    fun _ => (expresses_change _).bind fun _ => expresses_pure _

theorem expresses_mapM {f : α → Work β} {xs : List α} (h : ∀ x ∈ xs, Expresses r (f x)) :
    Expresses r (xs.mapM f) := by
  induction xs with
  | nil => exact expresses_pure []
  | cons x xs ih =>
    obtain ⟨hx, hxs⟩ := List.forall_mem_cons.1 h
    rw [List.mapM_cons]
    exact hx.bind fun _ => (ih hxs).bind fun _ => expresses_pure _

theorem expresses_link (a : Association) (parent : Json) (ids : List Json) (replace : Bool) :
    Expresses r (link a parent ids replace) := by
  unfold link
  induction Statement.ofLinks a parent ids replace with
  | nil => exact expresses_pure ()
  | cons statement rest ih =>
    exact ((expresses_execute statement).bind fun _ => expresses_pure ()).bind fun _ => ih

theorem expresses_perform {o : Operation} (h : o.Expressible r) : Expresses r (perform o) := by
  cases o with
  | find schema plan =>
    refine expresses_get_bind fun s hs => ?_
    subst hs
    refine (expresses_expressed h).bind fun (query, outputs) => ?_
    refine (expresses_prepareQuery query).bind fun query => expresses_get_bind fun s hs => ?_
    exact (expresses_checked _).bind fun answers => expresses_decoded _
  | count schema filter => exact expresses_count h
  | create schema row => exact expresses_create h
  | bulkCreate schema rows => exact expresses_mapM fun row hrow => expresses_create (h row hrow)
  | update schema row filter =>
    replace h : if row.isEmpty then ∃ statement, Statement.ofCount r schema filter = .ok statement
      else ∃ statement, Statement.ofUpdate r schema row filter = .ok statement := h
    show Expresses r (update schema row filter)
    unfold update
    split
    · rename_i hempty
      rw [if_pos hempty] at h
      exact expresses_count h
    · rename_i hempty
      rw [if_neg hempty] at h
      refine expresses_get_bind fun s hs => ?_
      subst hs
      exact (expresses_expressed h).bind fun statement => expresses_execute statement
  | destroy schema filter =>
    refine expresses_get_bind fun s hs => ?_
    subst hs
    exact (expresses_expressed h).bind fun statement => expresses_execute statement
  | addLinks a parent ids => exact expresses_link a parent ids false
  | setLinks a parent ids => exact expresses_link a parent ids true
  | existingIds schema ids =>
    show Expresses r (existingIds schema ids)
    unfold existingIds
    split
    · exact expresses_pure []
    · exact (expresses_prepare _).bind fun _ => expresses_get_bind fun _ _ => expresses_pure _

/-- **Expressible operations are not refused.** -/
theorem perform_ne_plan {o : Operation} (h : o.Expressible r) {s : Session} (hs : s.registry = r)
    (message : String) : ((perform o).run s).1 ≠ .error (.plan message) :=
  (expresses_perform h s hs).2 message

end

end Session

end ResourceApi
