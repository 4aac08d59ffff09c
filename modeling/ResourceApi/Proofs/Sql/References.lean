import ResourceApi.Proofs.Sql.JoinTables
import ResourceApi.Proofs.Store.Proper

/-!
# References to primary keys

A column *refers* to a schema when the database has made it to hold primary keys of that schema's
rows (`Registry.Refers`): derived keys and the keys of join tables do.

**Theorem (`Database.isKeyOf_of_refers`).** Every value in such a column but null is the primary key
of a row: references hold in a sound database, and in a proper one the column and the primary key
that it refers to hold values of the same kind, so that nothing is converted when they are compared.
-/

namespace ResourceApi

variable {schemas : List Schema} {r : Registry} {db : Database} {schema owner : Schema}
  {table column : String}

/-- The column of the table refers to the rows of the schema. -/
structure ColumnDefinition.RefersTo (c : ColumnDefinition) (schema : Schema) : Prop where
  affinity : c.affinity = .ofKey schema.idType
  reference : ∃ onDelete, .references schema.tableName schema.idColumn onDelete ∈ c.constraints

namespace Registry

/-- The registry has a table of the name, with a column of the name that refers to the schema. -/
def Refers (r : Registry) (table column : String) (schema : Schema) : Prop :=
  ∃ d ∈ r.tables, d.name = table ∧ ∃ c ∈ d.columns, c.name = column ∧ c.RefersTo schema

theorem refers_of_foreignKey (ho : owner ∈ r.schemas) {k : ForeignKey}
    (hk : k ∈ r.foreignKeysOf owner) :
    r.Refers owner.tableName (columnName k.field) k.references :=
  ⟨r.tableOf owner, tableOf_mem_tables ho, rfl, foreignKeyDefinition k, foreignKeyDefinition_mem hk,
    rfl, rfl, _, List.mem_cons_self⟩

theorem refers_of_joinTable {a : Association} {join : JoinTable}
    (hj : (a, join) ∈ r.joinAssociations) :
    r.Refers join.table (columnName join.sourceKey) a.source ∧
      r.Refers join.table (columnName join.targetKey) a.target := by
  have hm : joinTableOf a join ∈ r.tables :=
    List.mem_append_right _ (List.mem_map_of_mem (f := fun x => joinTableOf x.1 x.2) hj)
  have refersTo (key : String) (schema : Schema) : (joinColumn key schema).RefersTo schema :=
    ⟨rfl, .cascade, by simp [joinColumn]⟩
  exact ⟨⟨_, hm, rfl, joinColumn join.sourceKey a.source, by simp [joinTableOf], rfl, refersTo _ _⟩,
    _, hm, rfl, joinColumn join.targetKey a.target, by simp [joinTableOf], rfl, refersTo _ _⟩

/-- In the table of a schema, only derived keys refer. -/
theorem Refers.exists_foreignKey (h : r.Refers owner.tableName column schema) (hc : r.Creatable)
    (ho : owner ∈ r.schemas) : ∃ k ∈ r.foreignKeysOf owner, columnName k.field = column := by
  obtain ⟨d, hd, hn, c, hcolumn, rfl, -, onDelete, hreference⟩ := h
  obtain rfl := hc.eq_tableOf ho hd hn
  obtain ⟨k, hk, rfl⟩ := reference_tableOf hcolumn hreference
  exact ⟨k, hk, rfl⟩

/-- The columns of a schema's table: one for each field, then the derived keys. -/
theorem columnNames_tableOf (r : Registry) (schema : Schema) :
    (r.tableOf schema).columns.map (·.name) = schema.allFields.map columnName ++
      (r.foreignKeysOf schema).map fun k => columnName k.field := by
  simp [tableOf, Schema.allFields, Schema.attributeNames, Schema.keyDefinition, Schema.idColumn,
    foreignKeyDefinition, Function.comp_def]

/-- Derived keys have columns of their own. -/
theorem Refers.notMem (h : r.Refers owner.tableName column schema) (hc : r.Creatable)
    (ho : owner ∈ r.schemas) : column ∉ owner.allFields.map columnName := by
  obtain ⟨k, hk, hcolumn⟩ := h.exists_foreignKey hc ho
  have hnames := hc.columnNames _ (tableOf_mem_tables ho)
  rw [columnNames_tableOf, List.nodup_append] at hnames
  exact fun hm => hnames.2.2 column hm column (List.mem_map.2 ⟨k, hk, hcolumn⟩) rfl

theorem Refers.ne_idColumn (h : r.Refers owner.tableName column schema) (hc : r.Creatable)
    (ho : owner ∈ r.schemas) : column ≠ owner.idColumn :=
  fun he => h.notMem hc ho (he ▸ List.mem_map_of_mem (f := columnName) List.mem_cons_self)

end Registry

namespace Database

/-- The value is the primary key of a row of the schema. -/
def IsKeyOf (db : Database) (schema : Schema) (v : SqlValue) : Prop :=
  ∃ row ∈ db.rows schema.tableName, (row.get schema.idColumn).equals v = true

theorem IsKeyOf.congr {v w : SqlValue} (h : db.IsKeyOf schema v) (hv : v.equals w = true) :
    db.IsKeyOf schema w := by
  obtain ⟨row, hrow, hkey⟩ := h
  exact ⟨row, hrow, SqlValue.equals_trans hkey hv⟩

/-- A primary key is stored as its type says. -/
theorem affinity_idColumn (hc : r.Creatable) (hdb : db.Sound r.tables) (hs : schema ∈ r.schemas) :
    db.affinity schema.tableName schema.idColumn = .ofKey schema.idType := by
  obtain ⟨t, ht, hd⟩ := exists_tableOf hdb.definitions hc.tableNames hs
  rw [affinity, ht]
  simp [Table.affinity, column?_idColumn hd, Schema.keyDefinition]

/-- A column is found by its name. -/
theorem affinity_of_mem (hc : r.Creatable) {t : Table} (ht : t.definition ∈ r.tables)
    {c : ColumnDefinition} (hm : c ∈ t.definition.columns) : t.affinity c.name = c.affinity := by
  have hfind : t.column? c.name = some c := find?_eq_some_of_nodup (hc.columnNames _ ht) hm
  rw [Table.affinity, hfind]

/-- The table and the column that refer to a schema, in a database. -/
theorem exists_of_refers (hc : r.Creatable) (hdb : db.Sound r.tables)
    (h : r.Refers table column schema) : ∃ t, db.table? table = some t ∧ t ∈ db.tables ∧
      t.affinity column = .ofKey schema.idType ∧
      ∃ c ∈ t.definition.columns, c.name = column ∧ c.RefersTo schema := by
  obtain ⟨d, hd, rfl, c, hm, rfl, hrefers⟩ := h
  obtain ⟨t, ht, rfl⟩ := exists_table hdb.definitions hc.tableNames hd
  refine ⟨t, ht, mem_of_table? ht, ?_, c, hm, rfl, hrefers⟩
  rw [affinity_of_mem hc hd hm, hrefers.affinity]

theorem affinity_of_refers (hc : r.Creatable) (hdb : db.Sound r.tables)
    (h : r.Refers table column schema) : db.affinity table column = .ofKey schema.idType := by
  obtain ⟨t, ht, -, ha, -⟩ := exists_of_refers hc hdb h
  rw [affinity, ht]
  exact ha

/-- **A reference is a primary key.** -/
theorem isKeyOf_of_refers (hc : r.Creatable) (hdb : db.Sound r.tables) (hp : db.Proper)
    (hs : schema ∈ r.schemas) (h : r.Refers table column schema) {row : Tuple}
    (hrow : row ∈ db.rows table) (hne : row.get column ≠ .null) :
    db.IsKeyOf schema (row.get column) := by
  obtain ⟨t, ht, hm, ha, c, hcolumn, rfl, -, onDelete, hk⟩ := exists_of_refers hc hdb h
  obtain ⟨u, hu, hrow⟩ := mem_rows_iff.1 hrow
  obtain rfl := Option.some.inj (ht.symm.trans hu)
  have hheld := referencesHold_iff.1 hdb.references t hm row hrow c hcolumn _ hk
  unfold referenceHolds at hheld
  rw [Bool.or_eq_true, beq_iff_eq] at hheld
  obtain ⟨target, htarget, hrefers⟩ := List.any_eq_true.1 (hheld.resolve_left hne)
  refine ⟨target, htarget, ?_⟩
  have hkeeps := (((hp.kept t hm).rows row hrow).values c.name).converted
  rw [ha] at hkeeps
  rwa [refers, affinity_idColumn hc hdb hs, hkeeps] at hrefers

/-- Neither key of a join row is null. -/
theorem joinRow_ne_null (hc : r.Creatable) (hdb : db.Sound r.tables) {a : Association}
    {join : JoinTable} (hj : (a, join) ∈ r.joinAssociations) {row : Tuple}
    (hrow : row ∈ db.rows join.table) :
    row.get (columnName join.sourceKey) ≠ .null ∧ row.get (columnName join.targetKey) ≠ .null := by
  have hm : Registry.joinTableOf a join ∈ r.tables :=
    List.mem_append_right _ (List.mem_map_of_mem (f := fun x => Registry.joinTableOf x.1 x.2) hj)
  obtain ⟨t, ht, hd⟩ := exists_table hdb.definitions hc.tableNames hm
  obtain ⟨u, hu, hrow⟩ := mem_rows_iff.1 hrow
  obtain rfl := Option.some.inj (ht.symm.trans hu)
  have hfilled := ((hdb.tables t (mem_of_table? ht)).rows row hrow).filled
  rw [hd] at hfilled
  simpa [ColumnDefinition.acceptsNull, Registry.joinTableOf, Registry.joinColumn] using hfilled

end Database

end ResourceApi
