import ResourceApi.Proofs.Sql.Creation

/-!
# Columns as they are defined and as they are read

The columns of a schema's table are listed twice: in the statement that creates the table
(`Registry.tableOf`), and where values are written and read (`Registry.columns`). Types come from
different tables as well, `Affinity` on the one side and `ColumnType` on the other.

**Theorem (`Registry.columns_defined`).** Both lists are the same, column by column: a column is
created under the name under which it is read, with the type whose values its reader expects. A
derived key and both columns of a join table are those of the primary keys that they refer to, whose
schemas are always found.
-/

namespace ResourceApi

namespace ColumnType

/-- The storage type whose values a column type reads. -/
def affinity : ColumnType → Affinity
  | text => .text
  | integer | boolean => .integer
  | real => .real

@[simp] theorem affinity_ofKey (type : KeyType) : (ofKey type).affinity = .ofKey type := by
  cases type <;> rfl

@[simp] theorem affinity_ofAttribute (type : AttributeType) :
    (ofAttribute type).affinity = .ofAttribute type := by
  cases type <;> rfl

end ColumnType

/-- A column is defined as it is read. -/
structure Column.DefinedBy (c : Column) (d : ColumnDefinition) : Prop where
  name : d.name = c.column
  affinity : d.affinity = c.type.affinity
  /-- The definition begins with the name in quotation marks and the type. -/
  text : ∃ constraints,
    d.sql = " ".intercalate (Sql.name c.column :: c.type.affinity.sql :: constraints)
  /-- No quotation mark in the name ends it early. -/
  unquoted : '"' ∉ c.column.toList

/-- A column refers to the primary key of a schema, and has its type. -/
structure ColumnDefinition.IsKeyOf (d : ColumnDefinition) (r : Registry) (target : Schema) :
    Prop where
  /-- The schema is the one that is found under its name. -/
  registered : r.schema? target.fullName = some target
  references : ∃ onDelete,
    .references target.tableName target.idColumn onDelete ∈ d.constraints
  affinity : ∃ key, (r.tableOf target).columns.head? = some key ∧ key.name = target.idColumn ∧
    d.affinity = key.affinity

/-- A column is read as the primary key of a schema is. -/
def Column.IsReadAsKeyOf (c : Column) (r : Registry) (target : Schema) : Prop :=
  ∃ key, (r.columns target).head? = some key ∧ key.field = target.idField ∧ c.type = key.type

/-- A spelling in snake case holds no quotation mark. -/
theorem quote_notMem_columnName (field : String) : '"' ∉ (columnName field).toList := by
  rw [columnName, Text.Words.snake, String.toList_ofList]
  intro h
  exact (Text.Words.mem_spelling h).elim (by decide) (by decide)

namespace Registry

variable {schemas : List Schema} {r : Registry} {schema : Schema}

theorem definedBy_of_columnName {field : String} {type : ColumnType} {affinity : Affinity}
    {constraints : List Constraint} (ha : type.affinity = affinity) :
    Column.DefinedBy ⟨field, columnName field, type⟩ ⟨columnName field, affinity, constraints⟩ where
  name := rfl
  affinity := ha.symm
  text := by
    subst ha
    exact ⟨_, rfl⟩
  unquoted := quote_notMem_columnName field

theorem definedBy_foreignKeyDefinition (key : ForeignKey) :
    Column.DefinedBy ⟨key.field, columnName key.field, .ofKey key.references.idType⟩
      (foreignKeyDefinition key) :=
  definedBy_of_columnName (ColumnType.affinity_ofKey _)

/-- **Both lists of columns are the same**, in any registry. -/
theorem forall₂_definedBy (r : Registry) (schema : Schema) :
    List.Forall₂ Column.DefinedBy (r.columns schema) (r.tableOf schema).columns := by
  have hattributes : List.Forall₂ Column.DefinedBy
      (schema.attributes.map fun a => ⟨a.name, columnName a.name, .ofAttribute a.type⟩)
      (schema.attributes.map fun a => ⟨columnName a.name, .ofAttribute a.type, a.constraints⟩) := by
    rw [List.forall₂_map_left_iff, List.forall₂_map_right_iff]
    exact List.forall₂_same.2 fun a _ => definedBy_of_columnName (ColumnType.affinity_ofAttribute _)
  have hkeys : List.Forall₂ Column.DefinedBy
      ((r.foreignKeysOf schema).map fun k =>
        ⟨k.field, columnName k.field, .ofKey k.references.idType⟩)
      ((r.foreignKeysOf schema).map foreignKeyDefinition) := by
    rw [List.forall₂_map_left_iff, List.forall₂_map_right_iff]
    exact List.forall₂_same.2 fun key _ => definedBy_foreignKeyDefinition key
  have hkey : Column.DefinedBy ⟨schema.idField, schema.idColumn, .ofKey schema.idType⟩
      schema.keyDefinition :=
    definedBy_of_columnName (ColumnType.affinity_ofKey _)
  exact List.rel_append (.cons hkey hattributes) hkeys

/-- The keys of a schema that is registered are looked up by the name of the schema. -/
theorem isKeyOf_of_mem (hr : r.Coherent) {target : Schema} (ht : target ∈ r.schemas)
    {d : ColumnDefinition} {onDelete : OnDelete} (ha : d.affinity = .ofKey target.idType)
    (hd : .references target.tableName target.idColumn onDelete ∈ d.constraints) :
    d.IsKeyOf r target where
  registered := hr.schema?_fullName ht
  references := ⟨onDelete, hd⟩
  affinity := ⟨target.keyDefinition, rfl, rfl, ha⟩

theorem isKeyOf_joinColumn (hr : r.Coherent) {target : Schema} (ht : target ∈ r.schemas)
    (key : String) : (joinColumn key target).IsKeyOf r target :=
  isKeyOf_of_mem hr ht rfl (List.mem_cons_of_mem _ (List.mem_singleton.2 rfl))

theorem sql_tableOf (r : Registry) (schema : Schema) :
    (r.tableOf schema).sql = "CREATE TABLE IF NOT EXISTS " ++ Sql.name schema.tableName ++ " ("
      ++ ", ".intercalate ((r.tableOf schema).columns.map (·.sql)) ++ ")" := by
  have hkey : (r.tableOf schema).compositeKey.isEmpty = true := rfl
  unfold TableDefinition.sql
  rw [hkey, if_pos rfl]
  dsimp only
  rw [List.append_nil]
  rfl

/-- **Columns are defined as they are read.** -/
theorem columns_defined (h : assemble schemas = .ok r) (schema : Schema) :
    List.Forall₂ Column.DefinedBy (r.columns schema) (r.tableOf schema).columns ∧
      (r.tableOf schema).sql = "CREATE TABLE IF NOT EXISTS " ++ Sql.name schema.tableName ++ " ("
        ++ ", ".intercalate ((r.tableOf schema).columns.map (·.sql)) ++ ")" ∧
      (∀ key ∈ r.foreignKeysOf schema,
        ∃ c ∈ r.columns schema, ∃ d ∈ (r.tableOf schema).columns,
          c.field = key.field ∧ c.DefinedBy d ∧ d.IsKeyOf r key.references ∧
          c.IsReadAsKeyOf r key.references) ∧
      ∀ a join, (a, join) ∈ r.joinAssociations →
        joinTableOf a join ∈ r.tables ∧
        ∃ source target, (joinTableOf a join).columns = [source, target] ∧
          source.name = columnName join.sourceKey ∧ source.IsKeyOf r a.source ∧
          target.name = columnName join.targetKey ∧ target.IsKeyOf r a.target := by
  have hr := coherent_of_assemble h
  refine ⟨forall₂_definedBy r schema, sql_tableOf r schema, ?_, ?_⟩
  · intro key hkey
    have hreferences := references_mem h (List.mem_filter.1 hkey).1
    refine ⟨_, List.mem_append_right _ (List.mem_map_of_mem hkey), foreignKeyDefinition key,
      List.mem_append_right _ (List.mem_map_of_mem hkey), rfl,
      definedBy_foreignKeyDefinition key, ?_, ?_⟩
    · exact isKeyOf_of_mem hr hreferences rfl (List.mem_singleton.2 rfl)
    · exact ⟨_, rfl, rfl, rfl⟩
  · intro a join hj
    obtain ⟨ha, -⟩ := mem_joinAssociations hj
    refine ⟨List.mem_append_right _ (List.mem_map.2 ⟨(a, join), hj, rfl⟩),
      joinColumn join.sourceKey a.source, joinColumn join.targetKey a.target, rfl, rfl, ?_, rfl, ?_⟩
    · exact isKeyOf_joinColumn hr (hr.source a ha) join.sourceKey
    · exact isKeyOf_joinColumn hr (hr.target a ha) join.targetKey

end Registry

/-! ## Shelves -/

/-- Shelves, with keys that the store assigns. -/
def shelf : Schema where
  name := "Shelf"
  idField := "shelfNumber"
  idType := .integer

/-- Volumes on shelves, with a column of every type. -/
def shelvedVolume : Schema where
  name := "Volume"
  attributes := [{ name := "pageCount", type := .integer }, { name := "weight", type := .float },
    { name := "lent", type := .boolean, nullable := false },
    { name := "title", type := .string, unique := true },
    { name := "binding", type := .enum ["cloth", "won't say"] }]
  relationships := [("shelf", .belongsTo "Shelf" none),
    ("sequels", .hasManyThrough "Volume" none none none),
    ("formerShelves", .hasManyThrough "Shelf" none none none)]

/-- The registry of shelves and volumes. -/
def shelves : Registry where
  schemas := [shelf, shelvedVolume]
  associations := [⟨"shelf", shelvedVolume, shelf, .belongsTo "shelfId"⟩,
    ⟨"sequels", shelvedVolume, shelvedVolume,
      .hasManyThrough ⟨"VolumeSequels", "volume_sequels", "volumeId", "sequelsId"⟩⟩,
    ⟨"formerShelves", shelvedVolume, shelf,
      .hasManyThrough ⟨"VolumeFormerShelves", "volume_former_shelves", "volumeId", "shelfId"⟩⟩]
  foreignKeys := [⟨"Volume", "shelfId", shelf⟩]

namespace Registry

/-- Volumes are created with the columns by which they are read; the key of the shelf is an integer
in both lists, and so it is in the join table beside the key of a volume. -/
theorem columns_defined_volumes : assemble [shelf, shelvedVolume] = .ok shelves ∧
    (shelves.columns shelvedVolume).map (fun c => (c.column, c.type)) =
      [("id", .text), ("page_count", .integer), ("weight", .real), ("lent", .boolean),
        ("title", .text), ("binding", .text), ("shelf_id", .integer)] ∧
    (shelves.tableOf shelvedVolume).columns.map (fun d => (d.name, d.affinity)) =
      [("id", .text), ("page_count", .integer), ("weight", .real), ("lent", .integer),
        ("title", .text), ("binding", .text), ("shelf_id", .integer)] ∧
    List.Forall₂ Column.DefinedBy (shelves.columns shelvedVolume)
      (shelves.tableOf shelvedVolume).columns ∧
    (∃ c ∈ shelves.columns shelvedVolume, c.field = "shelfId" ∧ c.IsReadAsKeyOf shelves shelf) ∧
    ∃ a join, (a, join) ∈ shelves.joinAssociations ∧ join.table = "volume_former_shelves" ∧
      ∃ source target, (joinTableOf a join).columns = [source, target] ∧
        source.IsKeyOf shelves shelvedVolume ∧ target.IsKeyOf shelves shelf := by
  have hassemble : assemble [shelf, shelvedVolume] = .ok shelves := by decide +kernel
  obtain ⟨hsame, -, hkeys, hjoins⟩ := columns_defined hassemble shelvedVolume
  refine ⟨hassemble, by decide +kernel, by decide +kernel, hsame, ?_, ?_⟩
  · obtain ⟨c, hc, -, -, hfield, -, -, hread⟩ :=
      hkeys ⟨"Volume", "shelfId", shelf⟩ (by decide +kernel)
    exact ⟨c, hc, hfield, hread⟩
  · obtain ⟨-, source, target, hcolumns, -, hsource, -, htarget⟩ :=
      hjoins ⟨"formerShelves", shelvedVolume, shelf,
        .hasManyThrough ⟨"VolumeFormerShelves", "volume_former_shelves", "volumeId", "shelfId"⟩⟩
        ⟨"VolumeFormerShelves", "volume_former_shelves", "volumeId", "shelfId"⟩ (by decide +kernel)
    exact ⟨_, _, by decide +kernel, rfl, source, target, hcolumns, hsource, htarget⟩

end Registry

end ResourceApi
