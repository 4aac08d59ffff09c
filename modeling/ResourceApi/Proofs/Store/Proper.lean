import ResourceApi.Proofs.Sql.Addressed
import ResourceApi.Proofs.Sql.Distinct
import ResourceApi.Proofs.Sql.Kept
import ResourceApi.Proofs.Store.Reachable

/-!
# Proper databases

A database is *proper* when every column holds values that it keeps and no key occurs twice
(`Database.Proper`).

**Theorem (`Session.proper_of_reachable`).** The database of a reachable session is proper. Every
statement keeps a database proper if it writes values of rows, and the statements of operations
write no others: what they write was a JSON value.
-/

namespace ResourceApi

/-! ## Statements -/

/-- The values that a statement puts into rows. -/
def Statement.written : Statement → List SqlValue
  | .insert _ values | .update _ values => values.map (·.2)
  | .setKey _ _ value _ => [value.getD .null]
  | .insertLinks _ _ _ parent targets => parent :: targets
  | _ => []

namespace Database

variable {db db' : Database}

/-- The tables hold values that their columns keep, and no key twice. -/
structure Proper (db : Database) : Prop where
  kept : ∀ t ∈ db.tables, t.Kept
  unique : ∀ t ∈ db.tables, t.Unique

theorem Proper.updateRows (h : db.Proper) {table : String} {picked : Tuple → Bool} {values : Tuple}
    {n : Nat} (hv : ∀ c ∈ values, c.2.IsWritten)
    (hu : db.updateRows table picked values = .ok (db', n)) : db'.Proper := by
  obtain ⟨t, t', hwrites, hupdate⟩ := writes_updateRows hu
  exact ⟨hwrites.forall_tables h.kept fun ht => ht.update hv hupdate,
    hwrites.forall_tables h.unique fun ht => ht.update hupdate⟩

theorem Proper.insert (h : db.Proper) {table : String} {values row : Tuple}
    (hv : ∀ c ∈ values, c.2.IsWritten) (hi : db.insert table values = .ok (db', row)) :
    db'.Proper := by
  obtain ⟨t, t', hwrites, hinsert⟩ := writes_insert hi
  exact ⟨hwrites.forall_tables h.kept fun ht => ht.insert hv hinsert,
    hwrites.forall_tables h.unique fun ht => ht.insert hinsert⟩

theorem Proper.insertLinks (h : db.Proper) {table sourceKey targetKey : String} {parent : SqlValue}
    {targets : List SqlValue} {n : Nat} (hv : ∀ v ∈ parent :: targets, v.IsWritten)
    (hi : db.insertLinks table sourceKey targetKey parent targets = .ok (db', n)) :
    db'.Proper := by
  obtain ⟨t, t', hwrites, hinsert⟩ := writes_insertLinks hi
  refine ⟨hwrites.forall_tables h.kept fun ht => ht.insertEach ?_ hinsert,
    hwrites.forall_tables h.unique fun ht => ht.insertEach hinsert⟩
  intro values hvalues c hc
  obtain ⟨target, htarget, rfl⟩ := List.mem_map.1 hvalues
  rcases List.mem_cons.1 hc with rfl | hc
  · exact hv _ List.mem_cons_self
  · obtain rfl := List.mem_singleton.1 hc
    exact hv _ (List.mem_cons_of_mem _ htarget)

theorem Proper.deleteRows (h : db.Proper) (table : String) (picked : Tuple → Bool) :
    (db.deleteRows table picked).1.Proper :=
  ⟨kept_deleteRows h.kept, unique_deleteRows h.unique⟩

/-- **Statements keep a database proper.** -/
theorem Proper.execute (h : db.Proper) {statement : Statement} {n : Nat}
    (hv : ∀ v ∈ statement.written, v.IsWritten) (he : db.execute statement = .ok (db', n)) :
    db'.Proper := by
  cases statement with
  | select query | count query | present table column keys =>
    obtain ⟨rfl, -⟩ := Prod.mk.injEq .. ▸ Except.ok.inj he
    exact h
  | insert table values =>
    obtain ⟨⟨db₁, row⟩, hinsert, he⟩ := bind_eq_ok.1 he
    obtain ⟨rfl, -⟩ := Prod.mk.injEq .. ▸ pure_eq_ok.1 he
    exact h.insert (List.forall_mem_map.1 hv) hinsert
  | update rows values => exact h.updateRows (List.forall_mem_map.1 hv) he
  | setKey table column value guards =>
    refine h.updateRows (fun c hc => ?_) he
    obtain rfl := List.mem_singleton.1 hc
    exact hv _ List.mem_cons_self
  | delete rows =>
    obtain rfl := congrArg Prod.fst (Except.ok.inj he)
    exact h.deleteRows _ _
  | deleteLinks table sourceKey parent =>
    obtain rfl := congrArg Prod.fst (Except.ok.inj he)
    exact h.deleteRows _ _
  | insertLinks table sourceKey targetKey parent targets => exact h.insertLinks hv he

end Database

/-! ## Statements of operations -/

namespace Statement

variable {r : Registry} {schema : Schema} {row : Object} {values : List (String × SqlValue)}

theorem isWritten_assignments (h : assignments r schema row = .ok values) :
    ∀ c ∈ values, c.2.IsWritten := by
  intro c hc
  obtain ⟨⟨field, value⟩, -, hvalue⟩ := exists_of_mapM_eq_ok h hc
  obtain ⟨column, -, hvalue⟩ := bind_eq_ok.1 hvalue
  obtain rfl := pure_eq_ok.1 hvalue
  exact SqlValue.isWritten_ofJson value

theorem isWritten_ofUpdate {filter : Predicate} {statement : Statement}
    (h : ofUpdate r schema row filter = .ok statement) : ∀ v ∈ statement.written, v.IsWritten := by
  obtain ⟨values, hvalues, h⟩ := bind_eq_ok.1 h
  obtain ⟨rows, -, h⟩ := bind_eq_ok.1 h
  obtain rfl := pure_eq_ok.1 h
  exact List.forall_mem_map.2 (isWritten_assignments hvalues)

theorem isWritten_ofDelete {filter : Predicate} {statement : Statement}
    (h : ofDelete r schema filter = .ok statement) : ∀ v ∈ statement.written, v.IsWritten := by
  obtain ⟨rows, -, h⟩ := bind_eq_ok.1 h
  obtain rfl := pure_eq_ok.1 h
  exact List.forall_mem_nil _

theorem isWritten_ofLinks {a : Association} {parent : Json} {ids : List Json} {replace : Bool} :
    ∀ statement ∈ ofLinks a parent ids replace, ∀ v ∈ statement.written, v.IsWritten := by
  have hparent := SqlValue.isWritten_ofJson parent
  have hids : ∀ v ∈ ids.map SqlValue.ofJson, v.IsWritten :=
    List.forall_mem_map.2 fun id _ => SqlValue.isWritten_ofJson id
  have hhead : (((ids.map SqlValue.ofJson).head?).getD .null).IsWritten := by
    cases ids with
    | nil => trivial
    | cons id rest => exact SqlValue.isWritten_ofJson id
  unfold ofLinks
  dsimp only
  split
  · split
    · exact List.forall_mem_nil _
    · simpa [written] using hhead
  all_goals
    cases replace <;> split <;> simp_all [written, SqlValue.IsWritten]

end Statement

/-! ## Sessions -/

/-- Only primary keys are assigned. -/
theorem Registry.eq_keyDefinition_of_assignedKey {r : Registry} {schema : Schema}
    {c : ColumnDefinition} (hc : c ∈ (r.tableOf schema).columns)
    (ha : .assignedKey ∈ c.constraints) : c = schema.keyDefinition := by
  rcases List.mem_append.1 hc with hc | hc
  · rcases List.mem_cons.1 hc with rfl | hc
    · rfl
    · obtain ⟨a, -, rfl⟩ := List.mem_map.1 hc
      simp only [Attribute.constraints, List.mem_append] at ha
      rcases ha with (ha | ha) | ha <;> split at ha <;> simp at ha
  · obtain ⟨k, -, rfl⟩ := List.mem_map.1 hc
    simp [Registry.foreignKeyDefinition] at ha

namespace Session

variable {α β : Type} {r : Registry} {s : Session} {P : Database → Prop}

/-- Work goes on with what could be expressed. -/
theorem keeps_expressed_bind {x : Except RenderError α} {f : α → Work β}
    (hf : ∀ a, x = .ok a → Keeps P (f a)) : Keeps P (expressed x >>= f) := by
  cases x with
  | error e => exact fun _ hs => hs
  | ok a => exact hf a rfl

theorem keeps_execute_proper {statement : Statement}
    (hv : ∀ v ∈ statement.written, v.IsWritten) : Keeps Database.Proper (execute statement) :=
  (reads_prepare _).keeps.bind fun _ => keeps_change fun _ _ _ hs he => hs.execute hv he

theorem keeps_create_proper (schema : Schema) (row : Object) :
    Keeps Database.Proper (create schema row) :=
  reads_get.keeps.bind fun _ => keeps_expressed_bind fun _ hvalues =>
    (reads_prepare _).keeps.bind fun _ =>
      (keeps_change fun _ _ _ hs hi => hs.insert (Statement.isWritten_assignments hvalues) hi).bind
        fun _ => (reads_pure _).keeps

theorem keeps_link_proper (a : Association) (parent : Json) (ids : List Json) (replace : Bool) :
    Keeps Database.Proper (link a parent ids replace) := by
  unfold link
  have hwritten : ∀ statement ∈ Statement.ofLinks a parent ids replace,
      ∀ v ∈ statement.written, v.IsWritten := Statement.isWritten_ofLinks
  generalize Statement.ofLinks a parent ids replace = statements at hwritten ⊢
  induction statements with
  | nil => exact (reads_pure ()).keeps
  | cons statement rest ih =>
    have hstatement := keeps_execute_proper (hwritten statement List.mem_cons_self)
    exact (hstatement.bind fun _ => (reads_pure ()).keeps).bind
      fun _ => ih fun other ho => hwritten other (List.mem_cons_of_mem _ ho)

/-- **Operations keep a database proper.** -/
theorem keeps_perform_proper (o : Operation) : Keeps Database.Proper (perform o) := by
  cases o with
  | find schema plan => exact (reads_find schema plan).keeps
  | count schema filter => exact (reads_count schema filter).keeps
  | existingIds schema ids => exact (reads_existingIds schema ids).keeps
  | create schema row => exact keeps_create_proper schema row
  | bulkCreate schema rows => exact keeps_mapM (keeps_create_proper schema) rows
  | update schema row filter =>
    show Keeps _ (update schema row filter)
    unfold update
    split
    · exact (reads_count _ _).keeps
    · exact reads_get.keeps.bind fun _ => keeps_expressed_bind fun _ h =>
        keeps_execute_proper (Statement.isWritten_ofUpdate h)
  | destroy schema filter =>
    exact reads_get.keeps.bind fun _ => keeps_expressed_bind fun _ h =>
      keeps_execute_proper (Statement.isWritten_ofDelete h)
  | addLinks a parent ids => exact keeps_link_proper a parent ids false
  | setLinks a parent ids => exact keeps_link_proper a parent ids true

/-- The assigned key of a table is kept as an integer. -/
theorem affinity_of_assignedKey? {t : Table} (ht : t.definition ∈ r.tables) {key : String}
    (hk : t.assignedKey? = some key) : t.affinity key = .integer := by
  obtain ⟨c, hfind, rfl⟩ := Option.map_eq_some_iff.1 hk
  have hc := List.mem_of_find?_eq_some hfind
  have hassigned : .assignedKey ∈ c.constraints := by simpa using List.find?_some hfind
  rcases Registry.mem_tables ht with ⟨schema, -, hd⟩ | ⟨a, join, -, hd⟩
  · obtain rfl := Registry.eq_keyDefinition_of_assignedKey (hd ▸ hc) hassigned
    have hcolumn : t.column? schema.keyDefinition.name = some schema.keyDefinition :=
      Database.column?_idColumn hd
    rw [Table.affinity, hcolumn]
    unfold Schema.keyDefinition at hassigned ⊢
    cases hi : schema.idType with
    | uuid => simp [hi] at hassigned
    | integer => rfl
  · rw [hd] at hc
    simp only [Registry.joinTableOf, List.mem_cons, List.not_mem_nil, or_false] at hc
    rcases hc with rfl | rfl <;> simp [Registry.joinColumn] at hassigned

/-- **Databases of reachable sessions are proper.** -/
theorem proper_of_reachable (hn : (r.tables.map (·.name)).Nodup) (hs : Reachable r s) :
    s.Holds Database.Proper := by
  refine holds_of_reachable keeps_perform_proper (fun s h => ?_) hs
  have hempty : ∀ t ∈ s.database.tables, ∃ d ∈ r.tables, t = { definition := d } := by
    intro t ht
    rw [tables_of_start hn h] at ht
    obtain ⟨d, hd, rfl⟩ := List.mem_map.1 ht
    exact ⟨d, hd, rfl⟩
  constructor
  · intro t ht
    obtain ⟨d, hd, rfl⟩ := hempty t ht
    exact ⟨List.forall_mem_nil _, Int.zero_le_ofNat _, fun _ hk => affinity_of_assignedKey? hd hk⟩
  · intro t ht
    obtain ⟨d, -, rfl⟩ := hempty t ht
    exact fun _ _ => List.Pairwise.nil

end Session

end ResourceApi
