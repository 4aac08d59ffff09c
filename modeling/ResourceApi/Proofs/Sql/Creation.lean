import ResourceApi.Proofs.Schema.Names
import ResourceApi.Proofs.Sql.Soundness
import ResourceApi.Store.Session

/-!
# Created tables

A registry is *creatable* when its tables can stand side by side: no two of them have the same name,
no two columns of a table do, and none has too many columns (`Registry.Creatable`).

**Theorem (`Registry.creatable_of_start`).** Only the names of the tables need to be looked at. A
database refuses a table with equal columns or too many of them by itself, but a table that it has
already is not created again, so a schema may silently be left without a table of its own.

**Theorem (`Registry.tablesLinked`).** In the tables of a creatable registry, every reference leads
to the primary key of a schema. Rows of schemas' tables are never deleted along with others.
-/

namespace ResourceApi

/-- The tables of the registry can stand side by side. -/
structure Registry.Creatable (r : Registry) : Prop where
  tableNames : (r.tables.map (·.name)).Nodup
  columnNames : ∀ d ∈ r.tables, (d.columns.map (·.name)).Nodup
  columns : ∀ d ∈ r.tables, d.columns.length ≤ TableDefinition.maxColumns

/-! ## Creating tables -/

theorem TableDefinition.columnsFault?_eq_none {d : TableDefinition} {seen : List String}
    {columns : List ColumnDefinition} (hseen : seen.length ≤ maxColumns)
    (h : d.columnsFault? true seen columns = none) :
    (columns.map (·.name)).Nodup ∧ (∀ c ∈ columns, c.name ∉ seen) ∧
      seen.length + columns.length ≤ maxColumns := by
  induction columns generalizing seen with
  | nil => exact ⟨List.nodup_nil, List.forall_mem_nil _, hseen⟩
  | cons c rest ih =>
    unfold columnsFault? at h
    simp only [Bool.true_and, decide_eq_true_eq, List.contains_iff_mem] at h
    split at h
    · cases h
    rename_i hroom
    split at h
    · cases h
    rename_i hc
    split at h
    · cases h
    have hlength : (c.name :: seen).length = seen.length + 1 := rfl
    obtain ⟨hnodup, hnew, hle⟩ := ih (by omega) h
    refine ⟨?_, ?_, ?_⟩
    · refine List.nodup_cons.2 ⟨fun hm => ?_, hnodup⟩
      obtain ⟨c', hc', hn⟩ := List.mem_map.1 hm
      exact hnew c' hc' (hn ▸ List.mem_cons_self)
    · refine List.forall_mem_cons.2 ⟨hc, fun c' hc' hm => ?_⟩
      exact hnew c' hc' (List.mem_cons_of_mem _ hm)
    · rw [List.length_cons]
      omega

namespace Database

variable {db db' : Database}

/-- A table of a new name is added without rows. -/
theorem create_eq_ok {d : TableDefinition} (h : db.create d = .ok db')
    (hnew : d.name ∉ db.tables.map Table.name) :
    db'.tables = db.tables ++ [{ definition := d }] ∧ (d.columns.map (·.name)).Nodup ∧
      d.columns.length ≤ TableDefinition.maxColumns := by
  have hnone : db.table? d.name = none := by
    refine List.find?_eq_none.2 fun t ht hn => hnew ?_
    rw [← of_decide_eq_true hn]
    exact List.mem_map_of_mem ht
  unfold create at h
  rw [hnone] at h
  simp only [Option.isNone_none, if_true] at h
  split at h
  · cases h
  · rename_i hfault
    obtain rfl := Except.ok.inj h
    unfold TableDefinition.fault? at hfault
    split at hfault
    · cases hfault
    · obtain ⟨hnodup, -, hle⟩ := TableDefinition.columnsFault?_eq_none (Nat.zero_le _) hfault
      exact ⟨rfl, hnodup, by simpa using hle⟩

/-- Tables of different names are all created, without rows. -/
theorem createAll_eq_ok {definitions : List TableDefinition}
    (h : db.createAll definitions = .ok db')
    (hn : (db.tables.map Table.name ++ definitions.map (·.name)).Nodup) :
    db'.tables = db.tables ++ definitions.map ({ definition := · }) ∧
      ∀ d ∈ definitions, (d.columns.map (·.name)).Nodup ∧
        d.columns.length ≤ TableDefinition.maxColumns := by
  unfold createAll at h
  induction definitions generalizing db with
  | nil =>
    obtain rfl := pure_eq_ok.1 h
    exact ⟨by simp, List.forall_mem_nil _⟩
  | cons d rest ih =>
    rw [List.foldlM_cons] at h
    obtain ⟨next, hnext, h⟩ := bind_eq_ok.1 h
    have hnew : d.name ∉ db.tables.map Table.name := fun hm =>
      (List.nodup_append.1 hn).2.2 _ hm _ List.mem_cons_self rfl
    obtain ⟨htables, hd⟩ := create_eq_ok hnext hnew
    obtain ⟨htables', hrest⟩ := ih h (by simpa [htables, Table.name] using hn)
    exact ⟨by simp [htables', htables], List.forall_mem_cons.2 ⟨hd, hrest⟩⟩

end Database

namespace Registry

variable {schemas : List Schema} {r : Registry}

/-- **Tables of different names can stand side by side, or they are refused.** -/
theorem creatable_of_start {s : Session} (hn : (r.tables.map (·.name)).Nodup)
    (h : Session.start r = .ok s) : r.Creatable := by
  unfold Session.start at h
  split at h
  · rename_i db hdb
    have hall := (Database.createAll_eq_ok hdb (by simpa [Database.empty] using hn)).2
    exact ⟨hn, fun d hd => (hall d hd).1, fun d hd => (hall d hd).2⟩
  · cases h

/-! ## References of tables -/

theorem mem_tables {d : TableDefinition} (h : d ∈ r.tables) :
    (∃ schema ∈ r.schemas, d = r.tableOf schema) ∨
      ∃ a join, (a, join) ∈ r.joinAssociations ∧ d = joinTableOf a join := by
  rcases List.mem_append.1 h with h | h
  · obtain ⟨schema, hs, rfl⟩ := List.mem_map.1 h
    exact .inl ⟨schema, hs, rfl⟩
  · obtain ⟨⟨a, join⟩, hj, rfl⟩ := List.mem_map.1 h
    exact .inr ⟨a, join, hj, rfl⟩

theorem tableOf_mem_tables {schema : Schema} (hs : schema ∈ r.schemas) :
    r.tableOf schema ∈ r.tables :=
  List.mem_append_left _ (List.mem_map_of_mem hs)

variable {c : ColumnDefinition} {table column : String} {onDelete : OnDelete}

/-- The references of a schema's table are its derived keys. -/
theorem reference_tableOf {schema : Schema} (hc : c ∈ (r.tableOf schema).columns)
    (hk : .references table column onDelete ∈ c.constraints) :
    ∃ key ∈ r.foreignKeysOf schema, c = foreignKeyDefinition key := by
  rcases List.mem_append.1 hc with hc | hc
  · exfalso
    rcases List.mem_cons.1 hc with rfl | hc
    · unfold Schema.keyDefinition at hk
      dsimp only at hk
      split at hk <;> simp at hk
    · obtain ⟨a, -, rfl⟩ := List.mem_map.1 hc
      simp only [Attribute.constraints, List.mem_append] at hk
      rcases hk with (hk | hk) | hk <;> split at hk <;> simp at hk
  · obtain ⟨key, hkey, rfl⟩ := List.mem_map.1 hc
    exact ⟨key, hkey, rfl⟩

theorem reference_foreignKeyDefinition {key : ForeignKey}
    (hk : .references table column onDelete ∈ (foreignKeyDefinition key).constraints) :
    table = key.references.tableName ∧ column = key.references.idColumn ∧ onDelete = .setNull := by
  simpa [foreignKeyDefinition] using hk

theorem reference_joinTableOf {a : Association} {join : JoinTable}
    (hc : c ∈ (joinTableOf a join).columns)
    (hk : .references table column onDelete ∈ c.constraints) :
    ∃ target, (target = a.source ∨ target = a.target) ∧ table = target.tableName ∧
      column = target.idColumn ∧ onDelete = .cascade := by
  unfold joinTableOf at hc
  rcases List.mem_cons.1 hc with rfl | hc
  · exact ⟨a.source, .inl rfl, by simpa [joinColumn] using hk⟩
  · obtain rfl := List.mem_singleton.1 hc
    exact ⟨a.target, .inr rfl, by simpa [joinColumn] using hk⟩

/-- The schema that a derived key refers to is one of the registry. -/
theorem references_mem (h : assemble schemas = .ok r) {key : ForeignKey}
    (hk : key ∈ r.foreignKeys) : key.references ∈ r.schemas := by
  have hr := coherent_of_assemble h
  rw [foreignKeys_of_assemble h] at hk
  rcases exists_keyOn_of_mem_foldl hk with hk | ⟨a, ha, owner, hon, -, -⟩
  · cases hk
  · generalize key.references = other at hon ⊢
    cases hon with
    | belongsTo => exact hr.target a ha
    | hasOne => exact hr.source a ha
    | hasMany => exact hr.source a ha

/-- **References lead to primary keys.** -/
theorem reference_target (h : assemble schemas = .ok r) {d : TableDefinition} (hd : d ∈ r.tables)
    (hc : c ∈ d.columns) (hk : .references table column onDelete ∈ c.constraints) :
    ∃ target ∈ r.schemas, table = target.tableName ∧ column = target.idColumn := by
  rcases mem_tables hd with ⟨schema, hs, rfl⟩ | ⟨a, join, hj, rfl⟩
  · obtain ⟨key, hkey, rfl⟩ := reference_tableOf hc hk
    obtain ⟨htable, hcolumn, -⟩ := reference_foreignKeyDefinition hk
    exact ⟨key.references, references_mem h (List.mem_filter.1 hkey).1, htable, hcolumn⟩
  · obtain ⟨target, htarget, htable, hcolumn, -⟩ := reference_joinTableOf hc hk
    have hr := coherent_of_assemble h
    have ha := (mem_joinAssociations hj).1
    refine ⟨target, ?_, htable, hcolumn⟩
    rcases htarget with rfl | rfl
    · exact hr.source a ha
    · exact hr.target a ha

/-- The table that a reference leads to. -/
theorem Creatable.eq_tableOf (hc : r.Creatable) {schema : Schema} (hs : schema ∈ r.schemas)
    {d : TableDefinition} (hd : d ∈ r.tables) (hn : d.name = schema.tableName) :
    d = r.tableOf schema :=
  List.inj_on_of_nodup_map hc.tableNames hd (tableOf_mem_tables hs) hn

/-- Schemas have tables of their own. -/
theorem Creatable.eq_of_tableName (hc : r.Creatable) {schema other : Schema}
    (hs : schema ∈ r.schemas) (ho : other ∈ r.schemas) (hn : other.tableName = schema.tableName) :
    other = schema := by
  have hnames : (r.schemas.map (·.tableName)).Nodup := by
    have htables := hc.tableNames
    rw [tables, List.map_append, List.map_map] at htables
    exact (List.nodup_append.1 htables).1
  exact List.inj_on_of_nodup_map hnames ho hs hn

/-- **The tables of a creatable registry are linked.** -/
theorem tablesLinked (h : assemble schemas = .ok r) (hr : r.Creatable) : TablesLinked r.tables where
  tableNames := hr.tableNames
  columnNames := hr.columnNames
  releasable := by
    intro d hd c hc table column hk
    rcases mem_tables hd with ⟨schema, hs, rfl⟩ | ⟨a, join, hj, rfl⟩
    · obtain ⟨key, -, rfl⟩ := reference_tableOf hc hk
      simp [foreignKeyDefinition]
    · obtain ⟨-, -, -, -, hcascade⟩ := reference_joinTableOf hc hk
      cases hcascade
  kept := by
    intro d hd c hc table column onDelete hk target htarget hn c' hc' table' column' onDelete' hk'
    obtain ⟨schema, hs, rfl, rfl⟩ := reference_target h hd hc hk
    obtain rfl := hr.eq_tableOf hs htarget hn
    obtain ⟨key, -, rfl⟩ := reference_tableOf hc' hk'
    refine ⟨(reference_foreignKeyDefinition hk').2.2, fun hname => ?_⟩
    have hkey : schema.keyDefinition ∈ (r.tableOf schema).columns := List.mem_cons_self
    have hsame := List.inj_on_of_nodup_map (hr.columnNames _ htarget) hc' hkey hname
    have hconstraints := congrArg ColumnDefinition.constraints hsame
    unfold Schema.keyDefinition foreignKeyDefinition at hconstraints
    dsimp only at hconstraints
    split at hconstraints <;> cases hconstraints

end Registry

end ResourceApi
