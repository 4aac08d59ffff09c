import ResourceApi.Proofs.Sql.Creation
import ResourceApi.Proofs.Sql.Lookup
import ResourceApi.Proofs.Sql.Rows

/-!
# Rows by their primary key

What statements do that address a row by an identifier. The name of a primary key without dots leads
to the key itself (`Rendering.keys_idIs`). In a sound database no primary key is null, so the
rendered condition picks the rows whose key equals the identifier, whatever the identifier is
(`Database.keys_idIs`), and they are the rows that a query for present keys finds
(`Database.present_eq_nil_iff`).

**Theorems (`Database.updateRows_of_none`, `Database.exists_hasId_updateRows`).** An update of no
row changes nothing. An update that sets other columns leaves a row with the identifier behind if
there was one.
-/

namespace ResourceApi

variable {schemas : List Schema} {r : Registry} {db db' : Database} {schema : Schema} {id : Json}

/-! ## References to primary keys -/

namespace Database

theorem mem_references {reference : Reference} (h : reference ∈ db.references) :
    ∃ t ∈ db.tables, ∃ c ∈ t.definition.columns,
      .references reference.target reference.targetColumn reference.onDelete ∈ c.constraints := by
  obtain ⟨t, ht, h⟩ := List.mem_flatMap.1 h
  obtain ⟨c, hc, h⟩ := List.mem_flatMap.1 h
  obtain ⟨k, hk, h⟩ := List.mem_filterMap.1 h
  refine ⟨t, List.mem_reverse.1 ht, c, List.mem_reverse.1 hc, ?_⟩
  split at h
  · obtain rfl := Option.some.inj h
    exact hk
  · cases h

/-- The first column of a schema's table holds its primary key. -/
theorem column?_idColumn {t : Table} (hd : t.definition = r.tableOf schema) :
    t.column? schema.idColumn = some schema.keyDefinition := by
  unfold Table.column?
  rw [hd]
  simp [Registry.tableOf, Schema.keyDefinition]

theorem isIdentifying_keyDefinition : schema.keyDefinition.isIdentifying = true := by
  unfold ColumnDefinition.isIdentifying ColumnDefinition.isKey Schema.keyDefinition
  cases schema.idType <;> rfl

/-- **No reference of a registry's tables goes astray.** -/
theorem isAstray_eq_false (h : Registry.assemble schemas = .ok r) (hc : r.Creatable)
    (hd : db.tables.map (·.definition) = r.tables) :
    ∀ reference ∈ db.references, db.isAstray reference = false := by
  intro reference hreference
  obtain ⟨t, ht, c, hcolumn, hk⟩ := mem_references hreference
  have hm : t.definition ∈ r.tables := hd ▸ List.mem_map_of_mem ht
  obtain ⟨target, htarget, htable, hkey⟩ := Registry.reference_target h hm hcolumn hk
  obtain ⟨u, hu, hdefinition⟩ := exists_tableOf hd hc.tableNames htarget
  have hu : db.table? reference.target = some u := htable ▸ hu
  have hkey : u.column? reference.targetColumn = some target.keyDefinition :=
    hkey ▸ column?_idColumn hdefinition
  exact db.not_isAstray_of_column hu hkey isIdentifying_keyDefinition

end Database

/-! ## Conditions on the primary key -/

/-- The rendered condition that a row has an identifier. -/
def RowCondition.idIs (schema : Schema) (id : Json) (table : Nat) : RowCondition :=
  match id with
  | .null => .isNull ⟨table, schema.idColumn⟩
  | id => .compare ⟨table, schema.idColumn⟩ .eq (.ofJson id)

/-- The query for the keys of the rows with an identifier. -/
def KeyQuery.idIs (schema : Schema) (id : Json) : KeyQuery :=
  ⟨schema.tableName, 0, schema.idColumn, some (.idIs schema id 0)⟩

namespace Rendering

theorem column_idField : column r schema schema.idField =
    .ok ⟨schema.idField, schema.idColumn, .ofKey schema.idType⟩ := by
  simp [column, Registry.column?, Registry.columns]

theorem condition_idIs (hk : schema.Addressable) (table n : Nat) :
    (condition r schema table (.idIs schema id)).run n = .ok (.idIs schema id table, n) := by
  have hparts : condition r schema table (.idIs schema id) =
      liftM (column r schema schema.idField) >>= fun c =>
        liftM (compare ⟨table, c.column⟩ .eq id) := by
    rw [Predicate.idIs_eq hk]
    unfold condition
    dsimp only
    unfold pathCondition
    rfl
  rw [hparts]
  refine run_bind_eq_ok.2 ⟨_, n, run_lift_eq_ok.2 ⟨column_idField, rfl⟩, ?_⟩
  exact run_lift_eq_ok.2 ⟨by cases id <;> rfl, rfl⟩

/-- The condition on the primary key as a filter of its own. -/
theorem filter_idIs (hk : schema.Addressable) (table n : Nat) :
    (filter r schema table (.idIs schema id)).run n = .ok (some (.idIs schema id table), n) :=
  run_bind_eq_ok.2 ⟨_, n, condition_idIs hk table n, rfl⟩

theorem keys_idIs (hk : schema.Addressable) :
    start (keys r schema (.idIs schema id)) = .ok (.idIs schema id) :=
  start_of_run (m := 1) (run_bind_eq_ok.2 ⟨0, 1, run_aliasId_eq_ok.2 ⟨rfl, rfl⟩,
    run_bind_eq_ok.2 ⟨_, 1, filter_idIs hk 0 1, rfl⟩⟩)

end Rendering

namespace Database

/-! ## Rows with an identifier -/

/-- The row has the identifier as its primary key. -/
def hasId (db : Database) (schema : Schema) (id : Json) (row : Tuple) : Bool :=
  (row.get schema.idColumn).equals
    ((db.affinity schema.tableName schema.idColumn).convert (.ofJson id))

/-- The rendered condition holds for the rows with the identifier. -/
theorem holds_idIs {row : Tuple} (h : row.get schema.idColumn ≠ .null) (table : Nat) :
    db.holds [⟨table, schema.tableName, row⟩] (.idIs schema id table) = db.hasId schema id row := by
  have hbinds := Frame.binds_push [] table schema.tableName row
  have hvalue := hbinds.value schema.idColumn
  unfold RowCondition.idIs hasId
  split
  · have hnull : (db.affinity schema.tableName schema.idColumn).convert (.ofJson .null) =
        .null := by
      cases db.affinity schema.tableName schema.idColumn <;> rfl
    unfold holds
    rw [hvalue, hnull]
    simpa [SqlValue.equals] using h
  · unfold holds Comparison.holds comparand
    rw [hvalue, db.affinityIn_of_binds hbinds]
    rfl

/-- The query for present keys finds the rows with the identifier. -/
theorem present_eq_nil_iff : db.present schema.tableName schema.idColumn [.ofJson id] = [] ↔
    ∀ row ∈ db.rows schema.tableName, db.hasId schema id row = false := by
  simp [present, hasId, List.filter_eq_nil_iff]

/-! ### Sound databases -/

section

variable {t : Table} (hc : r.Creatable) (hdb : db.Sound r.tables) (hs : schema ∈ r.schemas)
include hc hdb hs

/-- Primary keys are not null. -/
theorem idColumn_ne_null {row : Tuple} (hrow : row ∈ db.rows schema.tableName) :
    row.get schema.idColumn ≠ .null := by
  obtain ⟨t, ht, hd⟩ := exists_tableOf hdb.definitions hc.tableNames hs
  obtain ⟨u, hu, hrow⟩ := mem_rows_iff.1 hrow
  obtain rfl := Option.some.inj (hu.symm.trans ht)
  have haccepts := (hdb.tables u (mem_of_table? ht)).rows row hrow
  have hkey : schema.keyDefinition ∈ u.definition.columns := hd ▸ List.mem_cons_self
  cases hi : schema.idType with
  | uuid =>
    have hfilled := haccepts.filled _ hkey
    simpa [ColumnDefinition.acceptsNull, Schema.keyDefinition, hi] using hfilled
  | integer =>
    have hassigned : u.assignedKey? = some schema.idColumn := by
      rw [Table.assignedKey?, hd]
      simp [Registry.tableOf, Schema.keyDefinition, hi]
    obtain ⟨i, hint⟩ := haccepts.key _ hassigned
    simp [hint]

/-- **The rendered query finds the keys of the rows with the identifier.** -/
theorem keys_idIs : db.keys (.idIs schema id) =
    ((db.rows schema.tableName).filter (db.hasId schema id)).map (·.get schema.idColumn) := by
  have hfiltered : (db.rows schema.tableName).filter (fun row =>
      db.holds [⟨0, schema.tableName, row⟩] (.idIs schema id 0)) =
        (db.rows schema.tableName).filter (db.hasId schema id) :=
    List.filter_congr fun row hrow => holds_idIs (idColumn_ne_null hc hdb hs hrow) 0
  exact congrArg (List.map (·.get schema.idColumn)) hfiltered

theorem hasKeyOf_of_hasId {row : Tuple} (hrow : row ∈ db.rows schema.tableName)
    (h : db.hasId schema id row = true) : db.hasKeyOf (.idIs schema id) row = true := by
  have hnull := idColumn_ne_null hc hdb hs hrow
  have hself : (row.get schema.idColumn).equals (row.get schema.idColumn) = true := by
    simp [SqlValue.equals, hnull, Std.ReflCmp.compare_self]
  unfold hasKeyOf
  rw [keys_idIs hc hdb hs]
  exact List.any_eq_true.2
    ⟨_, List.mem_map_of_mem (List.mem_filter.2 ⟨hrow, h⟩), hself⟩

theorem hasKeyOf_eq_false (h : ∀ row ∈ db.rows schema.tableName, db.hasId schema id row = false)
    (row : Tuple) : db.hasKeyOf (.idIs schema id) row = false := by
  unfold hasKeyOf
  rw [keys_idIs hc hdb hs, List.filter_eq_nil_iff.2 (by simpa using h)]
  rfl

end

/-! ## Updates -/

section

variable {definitions : List TableDefinition} {table : String} {t : Table} {picked : Tuple → Bool}
  {values : Tuple}

/-- To put a table back in its place changes nothing. -/
theorem modify_eq_self (hn : (db.tables.map Table.name).Nodup) (ht : db.table? table = some t) :
    (db.modify table fun _ => t) = db := by
  have hsame : ∀ u ∈ db.tables, (if u.name = table then t else u) = u := by
    intro u hu
    split
    · rename_i hname
      exact List.inj_on_of_nodup_map hn (mem_of_table? ht) hu ((name_of_table? ht).trans hname.symm)
    · rfl
  have htables : (db.modify table fun _ => t).tables = db.tables :=
    (List.map_congr_left hsame).trans (List.map_id _)
  exact congrArg Database.mk htables

/-- **An update of no row of a sound database changes nothing.** -/
theorem updateRows_of_none (hn : (definitions.map (·.name)).Nodup) (hdb : db.Sound definitions)
    (ht : db.table? table = some t) (h : ∀ row ∈ t.rows, picked row = false) (values : Tuple) :
    db.updateRows table picked values = .ok (db, 0) := by
  have hnames : (db.tables.map Table.name).Nodup := by
    rwa [← hdb.definitions, List.map_map] at hn
  have hfor : db.tableFor table = .ok t := by rw [tableFor, ht]
  have hupdate : t.update picked values = .ok t := by
    unfold Table.update
    rw [Table.assignEach_of_none [] h]
    refine pure_eq_ok.2 ?_
    rw [List.nil_append, (hdb.tables t (mem_of_table? ht)).arrange_eq]
  have hkept : (db.modify table fun _ => t).checkReferences = .ok db := by
    rw [modify_eq_self hnames ht, checkReferences, if_pos hdb.references]
  have hnone : t.rows.filter picked = [] := List.filter_eq_nil_iff.2 (by simpa using h)
  unfold updateRows
  refine bind_eq_ok.2 ⟨t, hfor, bind_eq_ok.2 ⟨t, hupdate, bind_eq_ok.2 ⟨db, hkept, ?_⟩⟩⟩
  rw [hnone]
  rfl

end

end Database

namespace Table

variable {t : Table} {picked : Tuple → Bool} {values : Tuple}

/-- Columns that are not set keep their values. -/
theorem get_assign_of_notMem {column : String} (h : column ∉ values.map (·.1)) (row : Tuple) :
    (t.assign values row).get column = row.get column := by
  unfold assign
  induction values generalizing row with
  | nil => rfl
  | cons m rest ih =>
    have hne : m.1 ≠ column := fun he => h (he ▸ List.mem_cons_self)
    rw [List.foldl_cons, ih fun hm => h (List.mem_cons_of_mem _ hm)]
    exact Tuple.get_set_of_ne hne row _

end Table

namespace Database

theorem table?_modify_self {name : String} {t t' : Table} (ht : db.table? name = some t)
    (hn : t'.name = name) : (db.modify name fun _ => t').table? name = some t' := by
  rw [table?_modify fun _ _ => hn, ht]
  simp [name_of_table? ht]

/-- **An update of other columns leaves a row with the identifier behind**, and counts it. -/
theorem exists_hasId_updateRows {values row : Tuple} {n : Nat} (hc : r.Creatable)
    (hdb : db.Sound r.tables) (hs : schema ∈ r.schemas)
    (h : db.updateRows schema.tableName (db.hasKeyOf (.idIs schema id)) values = .ok (db', n))
    (hvalues : schema.idColumn ∉ values.map (·.1)) (hrow : row ∈ db.rows schema.tableName)
    (hid : db.hasId schema id row = true) :
    n ≠ 0 ∧ ∃ row ∈ db'.rows schema.tableName, db'.hasId schema id row = true := by
  unfold updateRows at h
  obtain ⟨t, ht, h⟩ := bind_eq_ok.1 h
  obtain ⟨t', hupdate, h⟩ := bind_eq_ok.1 h
  obtain ⟨db₁, hchecked, h⟩ := bind_eq_ok.1 h
  obtain ⟨rfl, rfl⟩ := Prod.mk.injEq .. ▸ pure_eq_ok.1 h
  obtain rfl := checkReferences_eq_ok hchecked
  have ht := tableFor_eq_ok ht
  obtain ⟨u, hu, hm⟩ := mem_rows_iff.1 hrow
  obtain rfl := Option.some.inj (ht.symm.trans hu)
  obtain ⟨hdefinition, -, hrows⟩ := Table.rows_update hupdate
  have hpicked := hasKeyOf_of_hasId hc hdb hs hrow hid
  refine ⟨(List.length_pos_of_mem (List.mem_filter.2 ⟨hm, hpicked⟩)).ne', ?_⟩
  have hname : t'.name = schema.tableName :=
    (congrArg TableDefinition.name hdefinition).trans (name_of_table? ht)
  have htable := table?_modify_self ht hname
  generalize (db.modify schema.tableName fun _ => t') = db' at htable
  have haffinity : db'.affinity schema.tableName schema.idColumn =
      db.affinity schema.tableName schema.idColumn := by
    simp only [affinity, htable, ht, Table.affinity, Table.column?, hdefinition]
  have hkey : (t.changed (db.hasKeyOf (.idIs schema id)) values row).get schema.idColumn =
      row.get schema.idColumn := by
    rw [Table.changed, if_pos hpicked]
    exact Table.get_assign_of_notMem hvalues row
  refine ⟨_, mem_rows_iff.2 ⟨t', htable, hrows.symm.subset (List.mem_map_of_mem hm)⟩, ?_⟩
  rwa [hasId, hkey, haffinity]

end Database

end ResourceApi
