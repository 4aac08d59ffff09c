import ResourceApi.Proofs.Sql.Tallies
import ResourceApi.Proofs.Store.Decoding
import ResourceApi.Proofs.Store.Effects

/-!
# Rows and their identifiers

A row is told as an object with a member for every column of its schema (`Registry.objectOf`).

In the tables of a reachable session (`Database.Regular`), every row of a schema has a primary key
of its own: it is not null, it reads back as the identifier of the row (`Schema.idOf`), and no other
row has it.

**Theorem (`Database.Regular.eq_of_equals`).** Rows with equal primary keys are the same.

Identifiers that a session finds, and those of the rows that it creates, are identifiers of rows
(`Database.HasRow`).
-/

namespace ResourceApi

variable {schemas : List Schema} {r : Registry} {db db' : Database} {schema : Schema}

/-- The database is sound and proper. -/
structure Database.Regular (r : Registry) (db : Database) : Prop where
  sound : db.Sound r.tables
  proper : db.Proper

theorem Session.regular_of_reachable {s : Session} (h : Registry.assemble schemas = .ok r)
    (hn : (r.tables.map (·.name)).Nodup) (hs : Reachable r s) :
    r.Creatable ∧ s.Holds (Database.Regular r) := by
  obtain ⟨hc, hsound⟩ := sound_of_reachable h hn hs
  have hproper := proper_of_reachable hn hs
  exact ⟨hc, ⟨hsound.database, hproper.database⟩,
    fun db hdb => ⟨hsound.saved db hdb, hproper.saved db hdb⟩⟩

section

variable {row : Tuple}

/-! ## Columns -/

/-- A row is given by the values of its columns. -/
theorem Tuple.eq_map_get (hn : (row.map (·.1)).Nodup) :
    row = (row.map (·.1)).map fun column => (column, row.get column) := by
  rw [List.map_map]
  refine (List.map_id row).symm.trans (List.map_congr_left fun m hm => ?_)
  exact congrArg (Prod.mk m.1) (get_of_mem hn hm).symm

namespace Registry.Creatable

variable (hc : r.Creatable) (hs : schema ∈ r.schemas)
include hc hs

theorem nodup_columns : ((r.columns schema).map (·.column)).Nodup :=
  names_tableOf r schema ▸ hc.columnNames _ (tableOf_mem_tables hs)

/-- Fields are stored apart, so they have names of their own. -/
theorem nodup_fields : ((r.columns schema).map (·.field)).Nodup := by
  have hcolumns : (r.columns schema).map (·.column) =
      ((r.columns schema).map (·.field)).map columnName := by
    rw [List.map_map]
    exact List.map_congr_left fun c hc => column_of_mem hc
  exact .of_map columnName (hcolumns ▸ hc.nodup_columns hs)

theorem column?_of_mem {c : Column} (hm : c ∈ r.columns schema) :
    r.column? schema c.field = some c :=
  find?_eq_some_of_nodup (hc.nodup_fields hs) hm

theorem columnNamed?_of_mem {c : Column} (hm : c ∈ r.columns schema) :
    r.columnNamed? schema c.column = some c :=
  find?_eq_some_of_nodup (hc.nodup_columns hs) hm

end Registry.Creatable

/-! ## Objects of rows -/

/-- A row as it is told: the values of its columns, under the names of their fields. -/
def Registry.objectOf (r : Registry) (schema : Schema) (row : Tuple) : Object :=
  Object.ofList ((r.columns schema).map fun c => (c.field, (row.get c.column).toJson c.type))

/-- A stored row is answered as it is told. -/
theorem Registry.decodeStored_eq (hc : r.Creatable) (hs : schema ∈ r.schemas)
    (h : row.map (·.1) = (r.tableOf schema).columns.map (·.name)) :
    r.decodeStored schema row = r.objectOf schema row := by
  rw [names_tableOf] at h
  have hrow := Tuple.eq_map_get (h ▸ hc.nodup_columns hs)
  rw [h, List.map_map] at hrow
  unfold decodeStored objectOf
  conv_lhs => rw [hrow]
  rw [List.filterMap_map]
  refine congrArg Object.ofList (List.filterMap_eq_map_iff_forall_eq_some.2 fun c hm => ?_)
  simp [hc.columnNamed?_of_mem hs hm]

variable (hc : r.Creatable) (hs : schema ∈ r.schemas)
include hc hs

theorem Registry.get?_objectOf {c : Column} (hm : c ∈ r.columns schema) :
    (r.objectOf schema row).get? c.field = some ((row.get c.column).toJson c.type) := by
  refine Object.get?_ofList (List.mem_map_of_mem hm) fun value hvalue => ?_
  obtain ⟨d, hd, he⟩ := List.mem_map.1 hvalue
  obtain ⟨hfield, rfl⟩ := Prod.mk.inj he
  rw [List.inj_on_of_nodup_map (hc.nodup_fields hs) hd hm hfield]

/-- Rows are told alike where they have the same values. -/
theorem Registry.get?_objectOf_congr {row' : Tuple} {field : String}
    (h : ∀ c ∈ r.columns schema, c.field = field → row'.get c.column = row.get c.column) :
    (r.objectOf schema row').get? field = (r.objectOf schema row).get? field := by
  by_cases hfield : field ∈ (r.columns schema).map (·.field)
  · obtain ⟨c, hm, rfl⟩ := List.mem_map.1 hfield
    rw [get?_objectOf hc hs hm, get?_objectOf hc hs hm, h c hm rfl]
  · have hnone (row : Tuple) : (r.objectOf schema row).get? field = none := by
      refine Option.not_isSome_iff_eq_none.1 fun hsome => hfield ?_
      have hkey := Object.mem_keys_ofList (Object.mem_keys_iff.2 hsome)
      simpa [Function.comp_def] using hkey
    rw [hnone, hnone]

end

/-! ## Identifiers -/

/-- The identifier of a row. -/
def Schema.idOf (schema : Schema) (row : Tuple) : Json :=
  (row.get schema.idColumn).toJson (.ofKey schema.idType)

namespace Database

/-- The schema's table has a row with the identifier. -/
def HasRow (db : Database) (schema : Schema) (id : Json) : Prop :=
  ∃ row ∈ db.rows schema.tableName, schema.idOf row = id

/-- A primary key is one of the keys that cannot occur twice. -/
theorem idColumn_mem_uniqueKeys {t : Table} (hd : t.definition = r.tableOf schema) :
    [schema.idColumn] ∈ t.uniqueKeys := by
  have hkey : schema.keyDefinition ∈ t.definition.columns := hd ▸ List.mem_cons_self
  unfold Table.uniqueKeys
  cases hi : schema.idType with
  | uuid =>
    have hdeclared : schema.keyDefinition ∈ t.definition.columns.filter (·.isKey) :=
      List.mem_filter.2 ⟨hkey, by simp [Schema.keyDefinition, ColumnDefinition.isKey, hi]⟩
    refine List.mem_append_right _ (List.mem_reverse.2 (List.mem_append_left _ ?_))
    exact List.mem_map_of_mem (f := fun c : ColumnDefinition => [c.name]) hdeclared
  | integer =>
    have hassigned : t.assignedKey? = some schema.idColumn := by
      rw [Table.assignedKey?, hd]
      simp [Registry.tableOf, Schema.keyDefinition, hi]
    rw [hassigned]
    exact List.mem_append_left _ List.mem_cons_self

namespace Regular

variable (hdb : db.Regular r) (hc : r.Creatable) (hs : schema ∈ r.schemas)
include hdb hc hs

theorem idColumn_ne_null {row : Tuple} (hrow : row ∈ db.rows schema.tableName) :
    row.get schema.idColumn ≠ .null :=
  Database.idColumn_ne_null hc hdb.sound hs hrow

theorem distinct_idColumn : Table.Distinct [schema.idColumn] (db.rows schema.tableName) := by
  obtain ⟨t, ht, hd⟩ := exists_tableOf hdb.sound.definitions hc.tableNames hs
  rw [rows, ht]
  exact hdb.proper.unique t (mem_of_table? ht) _ (idColumn_mem_uniqueKeys hd)

/-- **Rows with equal primary keys are the same.** -/
theorem eq_of_equals {row row' : Tuple} (hrow : row ∈ db.rows schema.tableName)
    (hrow' : row' ∈ db.rows schema.tableName)
    (h : (row.get schema.idColumn).equals (row'.get schema.idColumn) = true) : row = row' :=
  (hdb.distinct_idColumn hc hs).eq hrow hrow' (by rwa [Table.sameKey_singleton])

/-- Rows with the same primary key are the same. -/
theorem eq_of_get {row row' : Tuple} (hrow : row ∈ db.rows schema.tableName)
    (hrow' : row' ∈ db.rows schema.tableName)
    (h : row.get schema.idColumn = row'.get schema.idColumn) : row = row' := by
  refine hdb.eq_of_equals hc hs hrow hrow' ?_
  rw [h]
  exact SqlValue.equals_self (hdb.idColumn_ne_null hc hs hrow')

/-- A primary key is kept as its type says. -/
theorem holdsKey {row : Tuple} (hrow : row ∈ db.rows schema.tableName) :
    schema.HoldsKey (row.get schema.idColumn) := by
  have hne := hdb.idColumn_ne_null hc hs hrow
  have hstored := affinity_idColumn hc hdb.sound hs
  obtain ⟨t, ht, hd⟩ := exists_tableOf hdb.sound.definitions hc.tableNames hs
  obtain ⟨u, hu, hm⟩ := mem_rows_iff.1 hrow
  obtain rfl := Option.some.inj (hu.symm.trans ht)
  have haffinity : u.affinity schema.idColumn = .ofKey schema.idType := by
    rwa [affinity, ht] at hstored
  have hkeeps := ((hdb.proper.kept u (mem_of_table? ht)).rows row hm).values schema.idColumn
  unfold Schema.HoldsKey
  cases hi : schema.idType with
  | uuid =>
    rw [haffinity, hi] at hkeeps
    exact (Affinity.Keeps.text_cases hkeeps).resolve_left hne
  | integer =>
    have hassigned : u.assignedKey? = some schema.idColumn := by
      rw [Table.assignedKey?, hd]
      simp [Registry.tableOf, Schema.keyDefinition, hi]
    obtain ⟨i, hint⟩ := ((hdb.sound.tables u (mem_of_table? ht)).rows row hm).key _ hassigned
    have hwritten := hkeeps.written
    rw [hint] at hwritten
    exact ⟨i, hint, hwritten⟩

/-- The identifier of a row stands for its primary key. -/
theorem ofJson_idOf {row : Tuple} (hrow : row ∈ db.rows schema.tableName) :
    SqlValue.ofJson (schema.idOf row) = row.get schema.idColumn :=
  (hdb.holdsKey hc hs hrow).ofJson_toJson

/-- The identifier of a row is that of each row with an equal key. -/
theorem idOf_eq_iff {row : Tuple} {id : Json} (hrow : row ∈ db.rows schema.tableName)
    (hid : db.HasRow schema id) : schema.idOf row = id ↔
      (row.get schema.idColumn).equals (.ofJson id) = true := by
  obtain ⟨row', hrow', rfl⟩ := hid
  rw [hdb.ofJson_idOf hc hs hrow']
  constructor
  · intro h
    rw [← hdb.ofJson_idOf hc hs hrow, h, hdb.ofJson_idOf hc hs hrow']
    exact SqlValue.equals_self (hdb.idColumn_ne_null hc hs hrow')
  · exact fun h => congrArg schema.idOf (hdb.eq_of_equals hc hs hrow hrow' h)

/-- What agrees with the identifier of a row is that identifier. -/
theorem eq_of_agrees {id given : Json} (hid : db.HasRow schema id)
    (h : given.agrees id = true) : given = id := by
  obtain ⟨row, hrow, rfl⟩ := hid
  have hkey := hdb.holdsKey hc hs hrow
  unfold Schema.idOf at h ⊢
  unfold Schema.HoldsKey at hkey
  split at hkey
  · obtain ⟨s, hs⟩ := hkey
    rw [hs] at h ⊢
    cases given <;> simp_all [SqlValue.toJson, Json.agrees, Json.beq]
  · rename_i hi
    obtain ⟨i, hs, -⟩ := hkey
    rw [hs, hi] at h ⊢
    cases given <;> simp_all [SqlValue.toJson, ColumnType.ofKey, Json.agrees, Json.beq]

end Regular

end Database

/-! ## Identifiers in a session -/

namespace Session

open Database

/-- Identifiers that are found are those of rows. -/
theorem hasRow_of_existing {ids found : List Json} (h : existing schema ids db = .ok found) :
    ∀ id ∈ found, db.HasRow schema id := by
  unfold existing at h
  split at h
  · obtain rfl := Except.ok.inj h
    exact List.forall_mem_nil _
  · obtain ⟨⟨⟩, -, h⟩ := bind_eq_ok.1 h
    obtain rfl := pure_eq_ok.1 h
    intro id hid
    obtain ⟨v, hv, rfl⟩ := List.mem_map.1 hid
    obtain ⟨row, hrow, rfl⟩ := List.mem_map.1 (List.mem_filter.1 hv).1
    exact ⟨row, hrow, rfl⟩

/-- Each of the identifiers is found. -/
def Required (schema : Schema) (ids : List Json) (db : Database) : Prop :=
  ∃ found, existing schema ids db = .ok found ∧ ∀ id ∈ ids, found.any id.agrees = true

theorem Required.hasRow {ids : List Json} (h : Required schema ids db) (hdb : db.Regular r)
    (hc : r.Creatable) (hs : schema ∈ r.schemas) : ∀ id ∈ ids, db.HasRow schema id := by
  obtain ⟨found, hfound, hall⟩ := h
  intro id hid
  obtain ⟨other, hother, hagrees⟩ := List.any_eq_true.1 (hall id hid)
  have hrow := hasRow_of_existing hfound other hother
  rwa [hdb.eq_of_agrees hc hs hrow hagrees]

/-- What a create has done. -/
theorem created_eq_ok {row object : Object} (h : created schema row r db = .ok (db', object)) :
    ∃ stored, db.insert schema.tableName
        (row.map fun m => (columnName m.1, SqlValue.ofJson m.2)) = .ok (db', stored) ∧
      object = r.decodeStored schema stored := by
  unfold created at h
  obtain ⟨values, hvalues, h⟩ := bind_eq_ok.1 h
  obtain ⟨⟨⟩, -, h⟩ := bind_eq_ok.1 h
  obtain ⟨⟨db₁, stored⟩, hinsert, h⟩ := map_eq_ok.1 h
  obtain ⟨rfl, rfl⟩ := Prod.mk.inj h
  obtain rfl := Statement.assignments_eq_ok (mapError_eq_ok.1 hvalues)
  exact ⟨stored, mapError_eq_ok.1 hinsert, rfl⟩

/-- A created row is stored, and answered as it is told. -/
theorem exists_objectOf_of_created (hc : r.Creatable) (hdb : db.Sound r.tables)
    (hs : schema ∈ r.schemas) {row object : Object}
    (h : created schema row r db = .ok (db', object)) :
    ∃ stored, db.insert schema.tableName
        (row.map fun m => (columnName m.1, SqlValue.ofJson m.2)) = .ok (db', stored) ∧
      object = r.objectOf schema stored := by
  obtain ⟨stored, hinsert, rfl⟩ := created_eq_ok h
  obtain ⟨t, ht, hd⟩ := exists_tableOf hdb.definitions hc.tableNames hs
  exact ⟨stored, hinsert, Registry.decodeStored_eq hc hs (hd ▸ columns_of_insert hinsert ht)⟩

/-- A created row is answered with its identifier. -/
theorem exists_stored_of_created (hc : r.Creatable) (hdb : db.Sound r.tables)
    (hs : schema ∈ r.schemas) {row object : Object}
    (h : created schema row r db = .ok (db', object)) :
    ∃ stored, db.insert schema.tableName
        (row.map fun m => (columnName m.1, SqlValue.ofJson m.2)) = .ok (db', stored) ∧
      object.get? schema.idField = some (schema.idOf stored) := by
  obtain ⟨stored, hinsert, rfl⟩ := exists_objectOf_of_created hc hdb hs h
  exact ⟨stored, hinsert, Registry.get?_objectOf hc hs List.mem_cons_self⟩

end Session

end ResourceApi
