import ResourceApi.Proofs.Sql.Meaning
import ResourceApi.Sql.Names

/-!
# Names in rendered queries

A database *stores* a registry when it has the registry's tables, each under a name of its own, with
the key columns of every association among them (`Database.Stores`).

**Theorems (`Statement.finds_ofPlan`, `Rendering.finds_keys`).** There every name in the query of a
plan, and in the query that counts, stands for a column of the table behind its alias. Rows may be
anything: only the definitions of the tables are looked at.

The proof goes through the rendering once more. A part of a statement may refer to the aliases
around it, so what is shown of a part is relative to the tables *around* it (`Database.Finds`).
-/

namespace ResourceApi

/-! ## Stored registries -/

/-- The columns that hold the keys of the association are there. -/
def Association.HasKeys (db : Database) (a : Association) : Prop :=
  match a.kind with
  | .belongsTo key => db.hasColumn a.source.tableName (columnName key) = true
  | .hasOne key | .hasMany key => db.hasColumn a.target.tableName (columnName key) = true
  | .hasManyThrough join => db.hasColumn join.table (columnName join.sourceKey) = true ∧
      db.hasColumn join.table (columnName join.targetKey) = true

/-- The database has the tables of the registry, with any rows. -/
structure Database.Stores (db : Database) (r : Registry) : Prop where
  definitions : db.tables.map (·.definition) = r.tables
  /-- No two tables have the same name. -/
  tableNames : (r.tables.map (·.name)).Nodup
  keys : ∀ a ∈ r.associations, a.HasKeys db

/-- A table has the columns of its schema. -/
theorem Registry.names_tableOf (r : Registry) (schema : Schema) :
    (r.tableOf schema).columns.map (·.name) = (r.columns schema).map (·.column) := by
  simp [Registry.tableOf, Registry.columns, Schema.keyDefinition, Registry.foreignKeyDefinition,
    Function.comp_def]

namespace Database

variable {db : Database} {r : Registry} {schema : Schema}

/-- Where tables have names of their own, they are found under their names. -/
theorem exists_table (hd : db.tables.map (·.definition) = r.tables)
    (hn : (r.tables.map (·.name)).Nodup) {d : TableDefinition} (hm : d ∈ r.tables) :
    ∃ t, db.table? d.name = some t ∧ t.definition = d := by
  obtain ⟨t, ht, rfl⟩ := List.mem_map.1 (hd ▸ hm)
  have hnames : (db.tables.map Table.name).Nodup := by
    rwa [← hd, List.map_map] at hn
  exact ⟨t, find?_eq_some_of_nodup hnames ht, rfl⟩

/-- A schema's table is found under the schema's name for it. -/
theorem exists_tableOf (hd : db.tables.map (·.definition) = r.tables)
    (hn : (r.tables.map (·.name)).Nodup) (hs : schema ∈ r.schemas) :
    ∃ t, db.table? schema.tableName = some t ∧ t.definition = r.tableOf schema := by
  have hm : r.tableOf schema ∈ r.tables := List.mem_append_left _ (List.mem_map_of_mem hs)
  obtain ⟨t, ht, hdefinition⟩ := exists_table hd hn hm
  exact ⟨t, ht, hdefinition⟩

theorem hasColumn_of_tableOf {t : Table} (ht : db.table? schema.tableName = some t)
    (hd : t.definition = r.tableOf schema) {c : Column} (hc : c ∈ r.columns schema) :
    db.hasColumn schema.tableName c.column = true := by
  have hm : c.column ∈ t.definition.columns.map (·.name) := by
    rw [hd, Registry.names_tableOf]
    exact List.mem_map_of_mem hc
  obtain ⟨d, hd, hn⟩ := List.mem_map.1 hm
  rw [hasColumn, ht, Option.bind_some, Table.column?, List.find?_isSome]
  exact ⟨d, hd, decide_eq_true hn⟩

namespace Stores

theorem hasColumn_of_mem (h : db.Stores r) (hs : schema ∈ r.schemas) {c : Column}
    (hc : c ∈ r.columns schema) : db.hasColumn schema.tableName c.column = true := by
  obtain ⟨t, ht, hd⟩ := exists_tableOf h.definitions h.tableNames hs
  exact hasColumn_of_tableOf ht hd hc

theorem hasColumn_idColumn (h : db.Stores r) (hs : schema ∈ r.schemas) :
    db.hasColumn schema.tableName schema.idColumn = true := by
  have hm : ⟨schema.idField, schema.idColumn, .ofKey schema.idType⟩ ∈ r.columns schema := by
    unfold Registry.columns
    exact List.mem_append_left _ List.mem_cons_self
  have hc := h.hasColumn_of_mem hs hm
  exact hc

end Stores

end Database

/-! ## Found names -/

theorem Names.append_assoc (a b c : Names) : a ++ b ++ c = a ++ (b ++ c) := by
  show Names.mk _ _ = Names.mk _ _
  exact congrArg₂ Names.mk (List.append_assoc _ _ _) (List.append_assoc _ _ _)

namespace Database

variable {db : Database} {around wider : List (Nat × String)} {a b : Names}

/-- A column of a table that is known by an alias. -/
def FindsColumn (db : Database) (tables : List (Nat × String)) (c : ColumnRef) : Prop :=
  ∃ table, (c.table, table) ∈ tables ∧ db.hasColumn table c.column = true

/-- Every column that is named belongs to the table behind its alias. The alias is introduced by the
names themselves or around them. -/
def Finds (db : Database) (around : List (Nat × String)) (names : Names) : Prop :=
  ∀ c ∈ names.columns, db.FindsColumn (around ++ names.tables) c

theorem FindsColumn.mono {c : ColumnRef} (h : db.FindsColumn around c) (hw : around ⊆ wider) :
    db.FindsColumn wider c := by
  obtain ⟨table, hm, hc⟩ := h
  exact ⟨table, hw hm, hc⟩

theorem finds_none : db.Finds around .none := nofun

theorem finds_ofColumns {columns : List ColumnRef}
    (h : ∀ c ∈ columns, db.FindsColumn around c) : db.Finds around (.ofColumns columns) :=
  fun c hc => (h c hc).mono (List.subset_append_left _ _)

theorem Finds.append (ha : db.Finds around a) (hb : db.Finds around b) :
    db.Finds around (a ++ b) := by
  intro c hc
  rcases List.mem_append.1 hc with hc | hc
  · refine (ha c hc).mono (List.append_subset.2 ⟨List.subset_append_left _ _, ?_⟩)
    exact List.subset_append_of_subset_right _ (List.subset_append_left _ _)
  · refine (hb c hc).mono (List.append_subset.2 ⟨List.subset_append_left _ _, ?_⟩)
    exact List.subset_append_of_subset_right _ (List.subset_append_right _ _)

/-- What is found with a table around it is found along with the table. -/
theorem Finds.below {aliasId : Nat} {table : String} (h : db.Finds ((aliasId, table) :: around) a) :
    db.Finds around (.ofTable aliasId table ++ a) := by
  intro c hc
  refine (h c hc).mono ?_
  intro entry hm
  simp only [List.cons_append, List.mem_cons, List.mem_append] at hm
  show entry ∈ around ++ ([(aliasId, table)] ++ a.tables)
  simp only [List.mem_append, List.mem_singleton]
  tauto

theorem finds_foldl {start : Names} {parts : List Names} (hs : db.Finds around start)
    (h : ∀ part ∈ parts, db.Finds around part) :
    db.Finds around (parts.foldl (· ++ ·) start) := by
  induction parts generalizing start with
  | nil => exact hs
  | cons part rest ih =>
    exact ih (hs.append (h part (by simp))) fun p hp => h p (by simp [hp])

/-- A statement is not refused for its names where all of them are found. -/
theorem checkNames_eq_ok (h : db.Finds [] a) (sql : String) : db.checkNames a sql = .ok () := by
  have hnone : a.columns.find? (!db.resolves a ·) = none := by
    rw [List.find?_eq_none]
    intro c hc
    obtain ⟨table, hm, hcolumn⟩ := h c hc
    have hresolves : db.resolves a c = true :=
      List.any_eq_true.2 ⟨(c.table, table), hm, by simp [hcolumn]⟩
    simp [hresolves]
  rw [checkNames, hnone]

end Database

/-! ## Rendering -/

namespace Rendering

variable {db : Database} {r : Registry} {schema : Schema} {around : List (Nat × String)}

/-- The rows around an association stay known below it. -/
theorem mem_below {a : Association} {name : String} (hr : r.Coherent)
    (ha : r.association? schema name = some a) (hs : schema ∈ r.schemas) {table : Nat}
    (ht : (table, schema.tableName) ∈ around) (inner : Nat) :
    (inner, a.target.tableName) ∈ (inner, a.target.tableName) :: around ∧
      (table, a.source.tableName) ∈ (inner, a.target.tableName) :: around ∧
      a.target ∈ r.schemas ∧ a ∈ r.associations := by
  obtain ⟨rfl, htarget⟩ := hr.of_association? hs ha
  exact ⟨List.mem_cons_self, List.mem_cons_of_mem _ ht, htarget,
    (Registry.mem_of_association? ha).1⟩

theorem finds_compare {c : ColumnRef} {operator : Operator} {value : Json}
    {condition : RowCondition} (h : compare c operator value = .ok condition)
    (hc : db.FindsColumn around c) : db.Finds around condition.names := by
  have hcolumn : db.Finds around (.ofColumns [c]) :=
    Database.finds_ofColumns (by simpa using hc)
  unfold compare at h
  split at h <;> cases h <;> first | exact hcolumn | exact Database.finds_none

-- the linter does not see what mutual theorems use
set_option linter.unusedSectionVars false

variable (hr : r.Coherent) (hdb : db.Stores r)
include hdb

theorem finds_column (hs : schema ∈ r.schemas) {table : Nat}
    (ht : (table, schema.tableName) ∈ around) {field : String} {c : Column}
    (h : column r schema field = .ok c) : db.FindsColumn around ⟨table, c.column⟩ := by
  unfold column at h
  split at h
  · rename_i c' hc
    cases h
    exact ⟨_, ht, hdb.hasColumn_of_mem hs (List.mem_of_find?_eq_some hc)⟩
  · cases h

include hr

theorem yields_join {a : Association} (ha : a ∈ r.associations) {inner table : Nat}
    (hi : (inner, a.target.tableName) ∈ around) (ht : (table, a.source.tableName) ∈ around) :
    Yields (join a inner table) fun joined => db.Finds around joined.names := by
  have hkeys := hdb.keys a ha
  have hsource : db.FindsColumn around ⟨table, a.source.idColumn⟩ :=
    ⟨_, ht, hdb.hasColumn_idColumn (hr.source a ha)⟩
  have htarget : db.FindsColumn around ⟨inner, a.target.idColumn⟩ :=
    ⟨_, hi, hdb.hasColumn_idColumn (hr.target a ha)⟩
  unfold join
  unfold Association.HasKeys at hkeys
  cases hk : a.kind with
  | belongsTo key =>
    rw [hk] at hkeys
    refine yields_pure (Database.finds_ofColumns ?_)
    simp only [List.mem_cons, List.not_mem_nil, or_false, forall_eq_or_imp, forall_eq]
    exact ⟨htarget, _, ht, hkeys⟩
  | hasOne key | hasMany key =>
    rw [hk] at hkeys
    refine yields_pure (Database.finds_ofColumns ?_)
    simp only [List.mem_cons, List.not_mem_nil, or_false, forall_eq_or_imp, forall_eq]
    exact ⟨⟨_, hi, hkeys⟩, hsource⟩
  | hasManyThrough j =>
    rw [hk] at hkeys
    refine (yields_trivial aliasId).bind fun link _ => yields_pure ?_
    refine Database.Finds.below (Database.finds_ofColumns ?_)
    have hlink : (link, j.table) ∈ (link, j.table) :: around := List.mem_cons_self
    simp only [List.mem_cons, List.not_mem_nil, or_false, forall_eq_or_imp, forall_eq]
    exact ⟨⟨_, hlink, hkeys.2⟩, ⟨_, hlink, hkeys.1⟩, hsource.mono (List.subset_cons_self _ _),
      htarget.mono (List.subset_cons_self _ _)⟩

/-! ## Parts of statements -/

theorem yields_pathCondition {field : String} {operator : Operator} {value : Json}
    {names : List String} (hs : schema ∈ r.schemas) {table : Nat}
    (ht : (table, schema.tableName) ∈ around) :
    Yields (pathCondition r field operator value schema table names) fun c =>
      db.Finds around c.names := by
  induction names generalizing schema table around with
  | nil =>
    refine (yields_lift fun c hc => finds_column hdb hs ht hc).bind fun c hc => ?_
    exact yields_lift fun condition h => finds_compare h hc
  | cons name rest ih =>
    refine (yields_lift fun a ha => association_eq_ok.1 ha).bind fun a ha => ?_
    refine (yields_trivial aliasId).bind fun inner _ => ?_
    obtain ⟨hinner, hsource, htarget, hm⟩ := mem_below hr ha hs ht inner
    refine (yields_join hr hdb hm hinner hsource).bind fun joined hj => ?_
    refine (ih htarget hinner).bind fun condition hc => yields_pure ?_
    rw [RowCondition.names, Names.append_assoc]
    exact (hj.append hc).below

mutual

theorem yields_condition (hs : schema ∈ r.schemas) {table : Nat}
    (ht : (table, schema.tableName) ∈ around) : ∀ p : Predicate,
    Yields (condition r schema table p) fun c => db.Finds around c.names
  | .condition c => by
    unfold condition
    exact yields_pathCondition hr hdb hs ht
  | .all [] | .any [] => by
    unfold condition
    exact yields_pure Database.finds_none
  | .all (child :: rest) | .any (child :: rest) => by
    unfold condition
    exact (yields_conditions hs ht (child :: rest)).bind fun _ h => yields_pure h

theorem yields_conditions (hs : schema ∈ r.schemas) {table : Nat}
    (ht : (table, schema.tableName) ∈ around) : ∀ children : List Predicate,
    Yields (conditions r schema table children) fun cs => db.Finds around (RowCondition.namesOf cs)
  | [] => by
    unfold conditions
    exact yields_pure Database.finds_none
  | child :: rest => by
    unfold conditions
    exact (yields_condition hs ht child).bind fun _ hc =>
      (yields_conditions hs ht rest).bind fun _ hcs => yields_pure (hc.append hcs)

end

theorem yields_filter (hs : schema ∈ r.schemas) {table : Nat}
    (ht : (table, schema.tableName) ∈ around) (p : Predicate) :
    Yields (filter r schema table p) fun c => db.Finds around ((c.map (·.names)).getD .none) := by
  unfold filter
  split
  · exact yields_pure Database.finds_none
  · exact (yields_condition hr hdb hs ht p).bind fun _ h => yields_pure h

theorem yields_sortValue {field : String} {names : List String} (hs : schema ∈ r.schemas)
    {table : Nat} (ht : (table, schema.tableName) ∈ around) :
    Yields (sortValue r field schema table names) fun v => db.Finds around v.names := by
  induction names generalizing schema table around with
  | nil =>
    refine (yields_lift fun c hc => finds_column hdb hs ht hc).bind fun c hc => yields_pure ?_
    exact Database.finds_ofColumns (by simpa using hc)
  | cons name rest ih =>
    refine (yields_lift fun a ha => association_eq_ok.1 ha).bind fun a ha => ?_
    refine (yields_trivial aliasId).bind fun inner _ => ?_
    obtain ⟨hinner, hsource, htarget, hm⟩ := mem_below hr ha hs ht inner
    refine (ih htarget hinner).bind fun value hv => ?_
    refine (yields_join hr hdb hm hinner hsource).bind fun joined hj => yields_pure ?_
    rw [SortValue.names, Names.append_assoc]
    exact (hv.append hj).below

mutual

theorem yields_related {schema : Schema} {around : List (Nat × String)} (hs : schema ∈ r.schemas)
    {table : Nat} (ht : (table, schema.tableName) ∈ around) : ∀ node : IncludeNode,
    Yields (related r schema table node) fun q => db.Finds around q.names
  | .mk relationship target selection nested => by
    unfold related
    refine (yields_lift fun a ha => association_eq_ok.1 ha).bind fun a ha => ?_
    refine (yields_trivial aliasId).bind fun inner _ => ?_
    obtain ⟨hinner, hsource, htarget, hm⟩ := mem_below hr ha hs ht inner
    refine (yields_mapM (P := fun member => ∀ c, member.2.column? = some c →
      db.FindsColumn ((inner, a.target.tableName) :: around) c) fun field _ => ?_).bind
      fun fields hfields => ?_
    · refine (yields_lift fun c hc => finds_column hdb htarget hinner hc).bind
        fun c hc => yields_pure ?_
      rintro _ ⟨⟩
      exact hc
    refine (yields_relatedMembers htarget hinner nested).bind fun members hn => ?_
    refine (yields_join hr hdb hm hinner hsource).bind fun joined hj => yields_pure ?_
    rw [RelatedQuery.names, Names.append_assoc, Names.append_assoc]
    refine Database.Finds.below (Database.Finds.append ?_ (hn.append hj))
    refine Database.finds_ofColumns ?_
    intro c hc
    obtain ⟨member, hmem, hcolumn⟩ := List.mem_filterMap.1 hc
    exact hfields member hmem c hcolumn

theorem yields_relatedMembers {schema : Schema} {around : List (Nat × String)}
    (hs : schema ∈ r.schemas) {table : Nat} (ht : (table, schema.tableName) ∈ around) :
    ∀ nodes : List IncludeNode, Yields (relatedMembers r schema table nodes) fun members =>
      db.Finds around (RelatedQuery.namesOf members)
  | [] => by
    unfold relatedMembers
    exact yields_pure Database.finds_none
  | node :: rest => by
    unfold relatedMembers
    exact (yields_related hs ht node).bind fun _ hq =>
      (yields_relatedMembers hs ht rest).bind fun _ hn => yields_pure (hq.append hn)

end

/-! ## Statements -/

/-- **Every name in the query that counts is found.** -/
theorem finds_keys (hs : schema ∈ r.schemas) {p : Predicate} {q : KeyQuery}
    (h : Rendering.start (keys r schema p) = .ok q) : db.Finds [] q.names := by
  refine Yields.start (P := fun q => db.Finds [] q.names) ?_ h
  refine (yields_trivial aliasId).bind fun table _ => ?_
  have ht : (table, schema.tableName) ∈ [(table, schema.tableName)] := List.mem_cons_self
  refine (yields_filter hr hdb hs ht p).bind fun condition hc => yields_pure ?_
  rw [KeyQuery.names, Names.append_assoc]
  refine Database.Finds.below (Database.Finds.append (Database.finds_ofColumns ?_) hc)
  intro c hm
  obtain rfl := List.mem_singleton.1 hm
  exact ⟨_, ht, hdb.hasColumn_idColumn hs⟩

/-- **Every name in the query of a plan is found.** -/
theorem finds_ofPlan (hs : schema ∈ r.schemas) {plan : Plan} {q : SelectQuery}
    {outputs : List Output} (h : Statement.ofPlan r schema plan = .ok (q, outputs)) :
    db.Finds [] q.names := by
  refine Yields.start (P := fun out => db.Finds [] out.1.names) ?_ h
  refine (yields_trivial aliasId).bind fun table _ => ?_
  have ht : (table, schema.tableName) ∈ [(table, schema.tableName)] := List.mem_cons_self
  refine (yields_mapM fun field _ => yields_lift fun c hc =>
    finds_column hdb hs ht hc).bind fun columns hcolumns => ?_
  refine (yields_mapM (P := fun out => db.Finds [(table, schema.tableName)] out.1.names)
    fun node _ => ?_).bind fun related hrelated => ?_
  · refine (yields_trivial _).bind fun a _ => ?_
    exact (yields_related hr hdb hs ht node).bind fun _ hq => yields_pure hq
  refine (yields_filter hr hdb hs ht plan.filter).bind fun condition hc => ?_
  refine (yields_mapM (P := fun out => db.Finds [(table, schema.tableName)] out.1.names)
    fun key _ => ?_).bind fun order horder => yields_pure ?_
  · exact (yields_sortValue hr hdb hs ht).bind fun _ hv => yields_pure hv
  simp only [SelectQuery.names, Names.append_assoc]
  refine Database.Finds.below (Database.Finds.append ?_ (Database.Finds.append ?_ (hc.append ?_)))
  · refine Database.finds_ofColumns ?_
    intro c hm
    obtain ⟨column, hcolumn, rfl⟩ := List.mem_map.1 hm
    exact hcolumns column hcolumn
  · refine Database.finds_foldl Database.finds_none ?_
    intro names hm
    simp only [List.map_map, List.mem_map] at hm
    obtain ⟨out, hout, rfl⟩ := hm
    exact hrelated out hout
  · refine Database.finds_foldl Database.finds_none ?_
    intro names hm
    obtain ⟨out, hout, rfl⟩ := List.mem_map.1 hm
    exact horder out hout

end Rendering

end ResourceApi
