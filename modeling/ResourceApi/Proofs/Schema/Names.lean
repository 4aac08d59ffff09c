import Mathlib.Data.Set.Function
import ResourceApi.Proofs.Schema.ForeignKeys
import ResourceApi.Proofs.Text.Words

/-!
# Derived names

Tables, columns and endpoints are named after schemas, fields and plurals, whose words are put in
lower case and joined. Assembly keeps the names apart from which they are derived: full names,
the fields of a table, the keys of a join table. It does not look at the names derived from them,
and `Item` and `item` make the same table.

**Theorem (`Registry.derived_names_apart_iff`).** Derived names are pairwise different exactly when
the conversion of their words identifies none of the names that they are derived from.
-/

namespace ResourceApi

open Text.Words (snake kebab)

/-! ## Names of schemas -/

namespace Schema

/-- The words under which the resource is served: those of its namespace and of its plural. -/
def address (s : Schema) : Option String × String :=
  (s.space.map kebab, kebab (s.plural.getD (s.name ++ "s")))

/-- A name within the namespace of the schema. -/
def qualified (s : Schema) (name : String) : String :=
  match s.space with
  | some space => space ++ "_" ++ name
  | none => name

theorem fullName_eq_qualified (s : Schema) : s.fullName = s.qualified s.name := rfl

/-- Two spellings with a slash between them can be told apart. -/
theorem kebab_slash_inj {first second first' second' : String} :
    kebab first ++ "/" ++ kebab second = kebab first' ++ "/" ++ kebab second' ↔
      kebab first = kebab first' ∧ kebab second = kebab second' := by
  have hsplit := @List.append_cons_inj_of_notMem Char (kebab first).toList (kebab first').toList
    (kebab second).toList (kebab second').toList '/' '/' (Text.Words.slash_notMem_kebab first)
    (Text.Words.slash_notMem_kebab second)
  simpa [← String.toList_inj] using hsplit

/-- An endpoint is its namespace and its plural, with a slash between them that neither holds. -/
theorem endpoint_eq_iff {s t : Schema} : s.endpoint = t.endpoint ↔ s.address = t.address := by
  have hslash {plural space other : String} : kebab plural ≠ kebab space ++ "/" ++ kebab other := by
    intro he
    have hmem : '/' ∈ (kebab space ++ "/" ++ kebab other).toList := by simp
    exact Text.Words.slash_notMem_kebab plural (he ▸ hmem)
  unfold endpoint address
  cases s.space with
  | none =>
    cases t.space with
    | none => simp
    | some space => simpa using hslash
  | some space =>
    cases t.space with
    | none => simpa using hslash.symm
    | some space' => simpa using kebab_slash_inj

end Schema

namespace Registry

/-! ## Join tables -/

/-- A join table is named after its name in the namespace of the source, and its keys differ. -/
theorem joinTable_of_resolve {schemas : List Schema} {source : Schema} {name : String}
    {relationship : Relationship} {a : Association} {join : JoinTable}
    (h : resolve schemas source name relationship = .ok a) (hj : a.join? = some join) :
    join.table = snake (a.source.qualified join.name) ∧ join.sourceKey ≠ join.targetKey := by
  unfold resolve at h
  split at h
  · cases h
  · rename_i target _
    dsimp only at h
    split at h
    · rename_i resolved hkind
      split at h
      · cases h
      · rename_i hkeys
        cases h
        obtain rfl : resolved = join := by simpa [Association.join?, hkind] using hj
        refine ⟨?_, hkeys⟩
        cases relationship with
        | hasManyThrough t joinName sourceKey targetKey =>
          cases hkind
          unfold AssociationKind.joinTable Schema.qualified
          cases source.space <;> rfl
        | _ => cases hkind
    · rename_i hkind
      cases h
      unfold Association.join? at hj
      split at hj
      · exact absurd ‹_› (hkind _)
      · cases hj

theorem joinTable_of_assemble {schemas : List Schema} {r : Registry} (h : assemble schemas = .ok r)
    {a : Association} (ha : a ∈ r.associations) {join : JoinTable} (hj : a.join? = some join) :
    join.table = snake (a.source.qualified join.name) ∧ join.sourceKey ≠ join.targetKey := by
  obtain ⟨-, -, associations, hassoc, rfl⟩ := assemble_eq_ok h
  obtain ⟨lists, hlists, rfl⟩ := flatMapM_eq_ok hassoc
  obtain ⟨list, hlist, ha⟩ := List.mem_flatten.1 ha
  obtain ⟨source, -, hlist⟩ := exists_of_forall₂ hlists hlist
  obtain ⟨⟨name, relationship⟩, -, hr⟩ := exists_of_mapM_eq_ok hlist ha
  exact joinTable_of_resolve hr hj

/-- Every join table belongs to an association that is stored in it. -/
theorem mem_joinAssociations {r : Registry} {a : Association} {join : JoinTable}
    (h : (a, join) ∈ r.joinAssociations) : a ∈ r.associations ∧ a.join? = some join := by
  have hall : ∀ x ∈ r.joinAssociations,
      x.1 ∈ r.schemas.flatMap r.associationsOf ∧ x.1.join? = some x.2 := by
    refine List.foldlRecOn
      (motive := fun found : List (Association × JoinTable) => ∀ x ∈ found,
        x.1 ∈ r.schemas.flatMap r.associationsOf ∧ x.1.join? = some x.2)
      _ _ (by simp) fun found ih b hb => ?_
    split
    · rename_i join' hj
      split
      · exact ih
      · intro x hx
        rcases List.mem_append.1 hx with hx | hx
        · exact ih x hx
        · rw [List.mem_singleton.1 hx]
          exact ⟨hb, hj⟩
    · exact ih
  obtain ⟨ha, hj⟩ := hall _ h
  obtain ⟨s, -, hs⟩ := List.mem_flatMap.1 ha
  exact ⟨(List.mem_filter.1 hs).1, hj⟩

/-! ## Fields of tables -/

/-- The fields that the columns of a schema's table are named after. -/
def fieldsOf (r : Registry) (schema : Schema) : List String :=
  schema.allFields ++ (r.foreignKeysOf schema).map (·.field)

/-- Every table with the fields that its columns are named after. -/
def tableFields (r : Registry) : List (TableDefinition × List String) :=
  r.schemas.map (fun schema => (r.tableOf schema, r.fieldsOf schema))
    ++ r.joinAssociations.map fun (a, join) =>
      (joinTableOf a join, [join.sourceKey, join.targetKey])

theorem map_tableFields (r : Registry) : r.tableFields.map (·.1) = r.tables := by
  simp [tables, tableFields, Function.comp_def]

/-- Columns are named after fields. -/
theorem columnNames_of_tableFields {r : Registry} {t : TableDefinition} {fields : List String}
    (h : (t, fields) ∈ r.tableFields) : t.columns.map (·.name) = fields.map columnName := by
  rcases List.mem_append.1 h with h | h
  · obtain ⟨schema, -, he⟩ := List.mem_map.1 h
    cases he
    simp [tableOf, fieldsOf, Schema.allFields, Schema.attributeNames, Schema.keyDefinition,
      Schema.idColumn, foreignKeyDefinition, Function.comp_def]
  · obtain ⟨⟨a, join⟩, -, he⟩ := List.mem_map.1 h
    cases he
    rfl

/-- The fields of a schema's table are declared or keys that no field provides. -/
theorem fieldsOf_nodup {schemas : List Schema} {r : Registry} (h : assemble schemas = .ok r)
    {schema : Schema} (hs : schema ∈ r.schemas) : (r.fieldsOf schema).Nodup := by
  have hcoherent := coherent_of_assemble h
  refine List.nodup_append'.2 ⟨(hcoherent.names schema hs).fields, ?_, ?_⟩
  · have honce : OncePerColumn (r.foreignKeysOf schema) :=
      (oncePerColumn_of_assemble h).sublist (List.filter_sublist.map _)
    refine (List.nodup_map_iff_inj_on (.of_map _ honce)).2 fun k hk l hl hfield => ?_
    have howner {k : ForeignKey} (hk : k ∈ r.foreignKeysOf schema) : k.owner = schema.fullName := by
      simpa using (List.mem_filter.1 hk).2
    exact List.inj_on_of_nodup_map honce hk hl (by rw [howner hk, howner hl, hfield])
  · intro field hfield hkey
    obtain ⟨k, hk, rfl⟩ := List.mem_map.1 hkey
    obtain ⟨hk, hschema⟩ := List.mem_filter.1 hk
    rw [foreignKeys_of_assemble h] at hk
    rcases exists_keyOn_of_mem_foldl hk with hk | ⟨a, ha, owner, hon, howner, hf⟩
    · cases hk
    · have hsame := hcoherent.eq_of_fullName (hcoherent.mem_of_keyOn ha hon) hs
        (howner.trans (of_decide_eq_true hschema))
      rw [hsame, Schema.hasField_iff.2 hfield] at hf
      cases hf

/-- No table has two columns for the same field. -/
theorem fields_nodup {schemas : List Schema} {r : Registry} (h : assemble schemas = .ok r)
    {t : TableDefinition} {fields : List String} (ht : (t, fields) ∈ r.tableFields) :
    fields.Nodup := by
  rcases List.mem_append.1 ht with ht | ht
  · obtain ⟨schema, hs, he⟩ := List.mem_map.1 ht
    cases he
    exact fieldsOf_nodup h hs
  · obtain ⟨⟨a, join⟩, hm, he⟩ := List.mem_map.1 ht
    cases he
    obtain ⟨ha, hj⟩ := mem_joinAssociations hm
    simpa using (joinTable_of_assemble h ha hj).2

/-! ## Derived names -/

/-- **When derived names are pairwise different.** -/
theorem derived_names_apart_iff {schemas : List Schema} {r : Registry}
    (h : assemble schemas = .ok r) :
    ((r.schemas.map (·.tableName)).Nodup ↔
      Set.InjOn snake {name | name ∈ r.schemas.map (·.fullName)}) ∧
    ((r.schemas.map (·.endpoint)).Nodup ↔ Set.InjOn Schema.address {s | s ∈ r.schemas}) ∧
    ((∀ join ∈ r.joinAssociations, ∀ s ∈ r.schemas,
        (joinTableOf join.1 join.2).name ≠ s.tableName) ↔
      ∀ join ∈ r.joinAssociations, ∀ s ∈ r.schemas,
        snake (join.1.source.qualified join.2.name) ≠ snake s.fullName) ∧
    r.tableFields.map (·.1) = r.tables ∧
    ∀ x ∈ r.tableFields, x.2.Nodup ∧
      ((x.1.columns.map (·.name)).Nodup ↔ Set.InjOn columnName {field | field ∈ x.2}) := by
  have hcoherent := coherent_of_assemble h
  refine ⟨?_, ?_, ?_, map_tableFields r, fun ⟨t, fields⟩ ht => ⟨fields_nodup h ht, ?_⟩⟩
  · have htables : r.schemas.map (·.tableName) = (r.schemas.map (·.fullName)).map snake := by
      rw [List.map_map]
      rfl
    rw [htables]
    exact List.nodup_map_iff_inj_on hcoherent.fullNames
  · rw [List.nodup_map_iff_inj_on (.of_map _ hcoherent.fullNames)]
    simp only [Schema.endpoint_eq_iff]
    rfl
  · have htable : ∀ join ∈ r.joinAssociations,
        (joinTableOf join.1 join.2).name = snake (join.1.source.qualified join.2.name) := by
      intro join hjoin
      obtain ⟨ha, hj⟩ := mem_joinAssociations hjoin
      exact (joinTable_of_assemble h ha hj).1
    constructor
    · intro hne join hjoin s hs
      rw [← htable join hjoin]
      exact hne join hjoin s hs
    · intro hne join hjoin s hs
      rw [htable join hjoin]
      exact hne join hjoin s hs
  · rw [columnNames_of_tableFields ht]
    exact List.nodup_map_iff_inj_on (fields_nodup h ht)

end Registry

/-! ## Names that look alike -/

/-- Items have two attributes and a link to other items whose names differ in their spelling
only. -/
def capitalItem : Schema where
  name := "Item"
  attributes := [{ name := "dueDate", type := .string }, { name := "due_date", type := .string }]
  relationships := [("tags", .hasManyThrough "item" none (some "itemId") (some "item_id"))]

/-- Items with another capital. -/
def item : Schema where
  name := "item"

/-- The name of the items' join resource. -/
def itemTags : Schema where
  name := "ItemTags"

/-- The join table of the items' tags. -/
def itemJoin : JoinTable := ⟨"ItemTags", "item_tags", "itemId", "item_id"⟩

/-- The tags of an item. -/
def tagsOfItem : Association := ⟨"tags", capitalItem, item, .hasManyThrough itemJoin⟩

/-- A registry of names that look alike. -/
def lookalikes : Registry where
  schemas := [capitalItem, item, itemTags]
  associations := [tagsOfItem]
  foreignKeys := []

namespace Registry

theorem assemble_lookalikes : assemble [capitalItem, item, itemTags] = .ok lookalikes := by
  decide +kernel

/-- Where names look alike, some derived names are the same. -/
theorem derived_names_lookalikes :
    assemble [capitalItem, item, itemTags] = .ok lookalikes ∧
    ((lookalikes.schemas.map (·.tableName)).Nodup ↔
      Set.InjOn snake {name | name ∈ lookalikes.schemas.map (·.fullName)}) ∧
    ((lookalikes.schemas.map (·.endpoint)).Nodup ↔
      Set.InjOn Schema.address {s | s ∈ lookalikes.schemas}) ∧
    ((∀ join ∈ lookalikes.joinAssociations, ∀ s ∈ lookalikes.schemas,
        (joinTableOf join.1 join.2).name ≠ s.tableName) ↔
      ∀ join ∈ lookalikes.joinAssociations, ∀ s ∈ lookalikes.schemas,
        snake (join.1.source.qualified join.2.name) ≠ snake s.fullName) ∧
    lookalikes.tableFields.map (·.1) = lookalikes.tables ∧
    ∀ x ∈ lookalikes.tableFields, x.2.Nodup ∧
      ((x.1.columns.map (·.name)).Nodup ↔ Set.InjOn columnName {field | field ∈ x.2}) :=
  ⟨assemble_lookalikes, derived_names_apart_iff assemble_lookalikes⟩

/-- Different schemas with the same table and the same endpoint, a join table with the name of a
schema's table, and tables with two columns of the same name. -/
theorem derived_names_may_coincide :
    assemble [capitalItem, item, itemTags] = .ok lookalikes ∧ capitalItem ≠ item ∧
      capitalItem.tableName = item.tableName ∧ capitalItem.endpoint = item.endpoint ∧
      (joinTableOf tagsOfItem itemJoin).name = itemTags.tableName ∧
      ∀ t ∈ [lookalikes.tableOf capitalItem, joinTableOf tagsOfItem itemJoin],
        t ∈ lookalikes.tables ∧ ¬ (t.columns.map (·.name)).Nodup := by
  decide +kernel

end Registry

end ResourceApi
