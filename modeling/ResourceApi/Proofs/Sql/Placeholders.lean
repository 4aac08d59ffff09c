import ResourceApi.Proofs.Schema.Names
import ResourceApi.Proofs.Sql.Marks
import ResourceApi.Proofs.Sql.Runs

/-!
# Placeholders of rendered statements

**Theorem (`Statement.placed_of_rendered`).** In a registry whose names hold no question mark, a
statement that is rendered has a question mark for each of the values that it is rendered with, in
their order, and no other.

The values of a predicate are those of its comparisons from left to right (`Predicate.values`).
Names of tables and columns are spelled in snake case and hold no question mark anyway; the names
that are written as they are, are the keys of included objects.
-/

namespace ResourceApi

open Sql (Unmarked)

/-! ## Values -/

/-- The values that a comparison binds. A comparison with null binds none, one with a list its
items. -/
def Operator.bound : Operator → Json → List Json
  | .eq, .null | .ne, .null => []
  | .among, .arr items | .notAmong, .arr items => items
  | _, value => [value]

namespace Predicate

mutual

/-- The values of a predicate, from left to right. -/
def values : Predicate → List Json
  | condition c => c.operator.bound c.value
  | all children | any children => valuesOf children

/-- The values of several predicates. -/
def valuesOf : List Predicate → List Json
  | [] => []
  | child :: rest => values child ++ valuesOf rest

end

end Predicate

/-! ## Names -/

/-- No name that a rendered statement can hold has a question mark. -/
structure Registry.NamesUnmarked (r : Registry) : Prop where
  fields : ∀ schema ∈ r.schemas, ∀ field ∈ r.fieldsOf schema, Unmarked field
  relationships : ∀ schema ∈ r.schemas, ∀ name ∈ schema.relationshipNames, Unmarked name

theorem unmarked_columnName (field : String) : Unmarked (columnName field) :=
  Text.Words.mark_notMem_snake field

theorem Schema.unmarked_tableName (schema : Schema) : Unmarked schema.tableName :=
  Text.Words.mark_notMem_snake _

theorem Schema.unmarked_idColumn (schema : Schema) : Unmarked schema.idColumn :=
  unmarked_columnName _

theorem Registry.unmarked_joinTable {schemas : List Schema} {r : Registry}
    (h : assemble schemas = .ok r) {a : Association} (ha : a ∈ r.associations) {join : JoinTable}
    (hj : a.kind = .hasManyThrough join) : Unmarked join.table := by
  rw [(joinTable_of_assemble h ha (by rw [Association.join?, hj])).1]
  exact Text.Words.mark_notMem_snake _

theorem Registry.mem_fieldsOf {r : Registry} {schema : Schema} {c : Column}
    (h : c ∈ r.columns schema) : c.field ∈ r.fieldsOf schema := by
  unfold columns at h
  rw [fieldsOf, Schema.allFields, Schema.attributeNames]
  rcases List.mem_append.1 h with h | h
  · rcases List.mem_cons.1 h with rfl | h
    · simp
    · obtain ⟨a, ha, rfl⟩ := List.mem_map.1 h
      exact List.mem_append_left _ (List.mem_cons_of_mem _ (List.mem_map_of_mem ha))
  · obtain ⟨k, hk, rfl⟩ := List.mem_map.1 h
    exact List.mem_append_right _ (List.mem_map_of_mem hk)

namespace Rendering

variable {schemas : List Schema} {r : Registry}

theorem unmarked_column {schema : Schema} {field : String} {c : Column}
    (h : column r schema field = .ok c) : Unmarked c.column := by
  rw [column_eq_ok h]
  exact unmarked_columnName field

theorem mem_of_association_eq_ok {schema : Schema} {name : String} {a : Association}
    (h : association r schema name = .ok a) : a ∈ r.associations ∧ a.name = name := by
  obtain ⟨ha, -, hname⟩ := Registry.mem_of_association? (association_eq_ok.1 h)
  exact ⟨ha, hname⟩

section

variable (hr : Registry.assemble schemas = .ok r)
include hr

/-- A join condition has no marks. -/
theorem unmarked_join {a : Association} (ha : a ∈ r.associations) (target source : Nat) :
    Yields (join a target source) fun j => Unmarked j.sql := by
  have hequal {left right : ColumnRef} (hl : Unmarked left.column) (hr : Unmarked right.column) :
      Unmarked (JoinCondition.equal left right).sql := by
    simp only [JoinCondition.sql, Sql.unmarked_append, ColumnRef.unmarked_sql hl,
      ColumnRef.unmarked_sql hr]
    decide
  unfold join
  split
  · exact yields_pure (hequal (Schema.unmarked_idColumn _) (unmarked_columnName _))
  · exact yields_pure (hequal (unmarked_columnName _) (Schema.unmarked_idColumn _))
  · exact yields_pure (hequal (unmarked_columnName _) (Schema.unmarked_idColumn _))
  · rename_i join hkind
    have htable : Unmarked join.table := Registry.unmarked_joinTable hr ha hkind
    refine (yields_trivial _).bind fun link _ => yields_pure ?_
    have hid (schema : Schema) (table : Nat) : Unmarked (ColumnRef.mk table schema.idColumn).sql :=
      ColumnRef.unmarked_sql (Schema.unmarked_idColumn schema)
    have hkey (key : String) : Unmarked (ColumnRef.mk link (columnName key)).sql :=
      ColumnRef.unmarked_sql (unmarked_columnName key)
    simp only [JoinCondition.sql, Sql.unmarked_append, hid, hkey, Sql.unmarked_aliased htable]
    decide

end

/-! ## Conditions -/

theorem placed_compare {c : ColumnRef} {operator : Operator} {value : Json}
    {condition : RowCondition} (hc : Unmarked c.column)
    (h : compare c operator value = .ok condition) :
    condition.Placed ∧ condition.params = (operator.bound value).map .ofJson := by
  unfold compare at h
  split at h <;> cases h
  · exact ⟨RowCondition.placed_isNull hc, rfl⟩
  · exact ⟨RowCondition.placed_isNotNull hc, rfl⟩
  · exact ⟨RowCondition.placed_never, rfl⟩
  · exact ⟨RowCondition.placed_among hc _, rfl⟩
  · exact ⟨RowCondition.placed_always, rfl⟩
  · exact ⟨RowCondition.placed_notAmong hc _, rfl⟩
  · exact ⟨RowCondition.placed_ilike hc _, rfl⟩
  · refine ⟨RowCondition.placed_compare hc _ _, ?_⟩
    cases operator <;> cases value <;> first | rfl | simp_all

variable (hr : Registry.assemble schemas = .ok r)
include hr

/-- A condition on a field at the end of a chain of relationships. -/
theorem placed_pathCondition (field : String) (operator : Operator) (value : Json) :
    ∀ (names : List String) (schema : Schema) (table : Nat),
      Yields (pathCondition r field operator value schema table names) fun c =>
        c.Placed ∧ c.params = (operator.bound value).map .ofJson
  | [], schema, table => by
    unfold pathCondition
    refine (yields_lift fun c hc => unmarked_column hc).bind fun c hc => ?_
    exact yields_lift fun condition hcondition => placed_compare hc hcondition
  | relationship :: rest, schema, table => by
    unfold pathCondition
    refine (yields_lift fun a ha => (mem_of_association_eq_ok ha).1).bind fun a ha => ?_
    refine (yields_trivial _).bind fun inner _ => ?_
    refine (unmarked_join hr ha inner table).bind fun j hj => ?_
    refine (placed_pathCondition field operator value rest a.target inner).bind fun c hc => ?_
    exact yields_pure
      ⟨RowCondition.placed_hasRelated (Schema.unmarked_tableName _) hj hc.1, hc.2⟩

omit hr

mutual

/-- The condition of a predicate holds its values from left to right. -/
theorem placed_condition (hr : Registry.assemble schemas = .ok r) (schema : Schema) (table : Nat) :
    ∀ p : Predicate, Yields (condition r schema table p) fun c =>
      c.Placed ∧ c.params = p.values.map .ofJson
  | .condition c => by
    unfold condition
    exact placed_pathCondition hr _ _ _ _ _ _
  | .all [] => by
    unfold condition
    exact yields_pure ⟨RowCondition.placed_always, rfl⟩
  | .any [] => by
    unfold condition
    exact yields_pure ⟨RowCondition.placed_never, rfl⟩
  | .all (child :: rest) => by
    unfold condition
    refine (placed_conditions hr schema table (child :: rest)).bind fun cs hcs => yields_pure ?_
    exact ⟨RowCondition.placed_all hcs.1, hcs.2⟩
  | .any (child :: rest) => by
    unfold condition
    refine (placed_conditions hr schema table (child :: rest)).bind fun cs hcs => yields_pure ?_
    exact ⟨RowCondition.placed_any hcs.1, hcs.2⟩

theorem placed_conditions (hr : Registry.assemble schemas = .ok r) (schema : Schema) (table : Nat) :
    ∀ children : List Predicate, Yields (conditions r schema table children) fun cs =>
      (∀ c ∈ cs, c.Placed) ∧
        RowCondition.paramsOf cs = (Predicate.valuesOf children).map .ofJson
  | [] => by
    unfold conditions
    exact yields_pure ⟨by simp, rfl⟩
  | child :: rest => by
    unfold conditions
    refine (placed_condition hr schema table child).bind fun c hc => ?_
    refine (placed_conditions hr schema table rest).bind fun cs hcs => yields_pure ?_
    refine ⟨List.forall_mem_cons.2 ⟨hc.1, hcs.1⟩, ?_⟩
    rw [RowCondition.paramsOf, Predicate.valuesOf, List.map_append, hc.2, hcs.2]

end

include hr

/-- The condition of a filter holds its values. An empty one has none. -/
theorem placed_filter (schema : Schema) (table : Nat) (p : Predicate) :
    Yields (filter r schema table p) fun condition =>
      (∀ c ∈ condition, c.Placed) ∧
        (condition.map (·.params)).getD [] = p.values.map .ofJson := by
  unfold filter
  split
  -- an empty predicate is no condition at all, and has no values either
  · rename_i hempty
    have hvalues : p.values = [] := by
      cases p with
      | condition c => cases hempty
      | all children | any children =>
        obtain rfl := List.isEmpty_iff.1 hempty
        rfl
    exact yields_pure ⟨by simp, by rw [hvalues]; rfl⟩
  · refine (placed_condition hr schema table p).bind fun c hc => yields_pure ⟨?_, hc.2⟩
    intro d hd
    cases hd
    exact hc.1

/-- The query for the keys of the rows that a filter selects. -/
theorem placed_keys (schema : Schema) (p : Predicate) :
    Yields (keys r schema p) fun q => (Unmarked q.table ∧ Unmarked q.column) ∧
      (∀ c ∈ q.condition, c.Placed) ∧
        (q.condition.map (·.params)).getD [] = p.values.map .ofJson := by
  unfold keys
  refine (yields_trivial _).bind fun table _ => ?_
  refine (placed_filter hr schema table p).bind fun condition hcondition => yields_pure ?_
  exact ⟨⟨Schema.unmarked_tableName _, Schema.unmarked_idColumn _⟩, hcondition⟩

/-! ## Related rows and sort values -/

/-- A value to sort by has no marks. -/
theorem unmarked_sortValue (field : String) :
    ∀ (names : List String) (schema : Schema) (table : Nat),
    Yields (sortValue r field schema table names) fun v => Unmarked v.sql
  | [], schema, table => by
    unfold sortValue
    refine (yields_lift fun c hc => unmarked_column hc).bind fun c hc => yields_pure ?_
    exact ColumnRef.unmarked_sql hc
  | relationship :: rest, schema, table => by
    unfold sortValue
    refine (yields_lift fun a ha => (mem_of_association_eq_ok ha).1).bind fun a ha => ?_
    refine (yields_trivial _).bind fun inner _ => ?_
    refine (unmarked_sortValue field rest a.target inner).bind fun v hv => ?_
    refine (unmarked_join hr ha inner table).bind fun j hj => yields_pure ?_
    simp only [SortValue.sql, Sql.unmarked_append, hv, hj,
      Sql.unmarked_aliased (Schema.unmarked_tableName _)]
    decide

omit hr in
/-- The key of an included object that a column is written under. -/
theorem unmarked_field (hc : r.Coherent) (hu : r.NamesUnmarked) {a : Association}
    (ha : a ∈ r.associations) {field : String} {c : Column}
    (h : column r a.target field = .ok c) : Unmarked field := by
  obtain ⟨hcolumn, rfl⟩ := of_column_eq_ok h
  exact hu.fields _ (hc.target a ha) _ (Registry.mem_fieldsOf (List.mem_of_find?_eq_some hcolumn))

omit hr in
theorem unmarked_relationship (hc : r.Coherent) (hu : r.NamesUnmarked) {schema : Schema}
    {name : String} {a : Association} (h : association r schema name = .ok a) : Unmarked name := by
  obtain ⟨ha, rfl⟩ := mem_of_association_eq_ok h
  exact hu.relationships _ (hc.source a ha) _ (hc.declared a ha)

end Rendering

namespace RelatedQuery

theorem sqls_eq_map (members : List (String × RelatedQuery)) :
    sqls members = members.map fun m => "'" ++ m.1 ++ "', json(" ++ m.2.sql ++ ")" := by
  induction members with
  | nil => rfl
  | cons m members ih => rw [sqls, ih, List.map_cons]

/-- A query for related rows has no marks if none of its names has one. -/
theorem unmarked_sql {many : Bool} {fields : List (String × MemberValue)}
    {nested : List (String × RelatedQuery)} {fault : Option ObjectFault} {table : String}
    {aliasId : Nat} {join : JoinCondition}
    (hfields : ∀ f ∈ fields, Unmarked f.1 ∧ Unmarked f.2.sql)
    (hnested : ∀ m ∈ nested, Unmarked m.1 ∧ Unmarked m.2.sql) (ht : Unmarked table)
    (hj : Unmarked join.sql) : Unmarked (mk many fields nested fault table aliasId join).sql := by
  have hmembers : Unmarked (", ".intercalate
      (fields.map (fun f => "'" ++ f.1 ++ "', " ++ f.2.sql) ++ sqls nested)) := by
    refine Sql.unmarked_intercalate (by decide) fun t hmem => ?_
    rw [sqls_eq_map] at hmem
    rcases List.mem_append.1 hmem with hmem | hmem
    · obtain ⟨f, hf, rfl⟩ := List.mem_map.1 hmem
      simp only [Sql.unmarked_append, hfields f hf]
      decide
    · obtain ⟨m, hm, rfl⟩ := List.mem_map.1 hmem
      simp only [Sql.unmarked_append, hnested m hm]
      decide
  have hopening : Unmarked (opening many) := by cases many <;> decide
  have hclosing : Unmarked (closing many table aliasId join) := by
    unfold closing
    cases many <;> simp only [Sql.unmarked_append, Sql.unmarked_aliased ht, hj] <;> decide
  show Unmarked (opening many ++ _ ++ ")" ++ closing many table aliasId join)
  simp only [Sql.unmarked_append, hopening, hclosing, hmembers]
  decide

end RelatedQuery

namespace Rendering

variable {schemas : List Schema} {r : Registry}

mutual

/-- A query for related rows has no marks, and neither has the key that it is a member under. -/
theorem unmarked_related (hr : Registry.assemble schemas = .ok r) (hu : r.NamesUnmarked)
    (schema : Schema) (table : Nat) : ∀ node : IncludeNode,
    Yields (related r schema table node) fun q => Unmarked node.relationship ∧ Unmarked q.sql
  | .mk relationship _ selection nested => by
    have hc := Registry.coherent_of_assemble hr
    unfold related
    refine (yields_lift fun a ha => (⟨(mem_of_association_eq_ok ha).1,
      unmarked_relationship hc hu ha⟩ : a ∈ r.associations ∧ Unmarked relationship)).bind ?_
    rintro a ⟨ha, hname⟩
    refine (yields_trivial _).bind fun inner _ => ?_
    refine (yields_mapM (P := fun f => Unmarked f.1 ∧ Unmarked f.2.sql)
      fun field _ => ?_).bind fun fields hfields => ?_
    · refine (yields_lift fun c hcolumn => (⟨unmarked_field hc hu ha hcolumn,
        unmarked_column hcolumn⟩ : Unmarked field ∧ Unmarked c.column)).bind fun c hcolumn => ?_
      exact yields_pure ⟨hcolumn.1, ColumnRef.unmarked_sql hcolumn.2⟩
    refine (unmarked_relatedMembers hr hu a.target inner nested).bind fun members hmembers => ?_
    refine (unmarked_join hr ha inner table).bind fun j hj => yields_pure ?_
    exact ⟨hname, RelatedQuery.unmarked_sql hfields hmembers (Schema.unmarked_tableName _) hj⟩

theorem unmarked_relatedMembers (hr : Registry.assemble schemas = .ok r) (hu : r.NamesUnmarked)
    (schema : Schema) (table : Nat) : ∀ nodes : List IncludeNode,
    Yields (relatedMembers r schema table nodes) fun members =>
      ∀ m ∈ members, Unmarked m.1 ∧ Unmarked m.2.sql
  | [] => by
    unfold relatedMembers
    exact yields_pure (by simp)
  | node :: rest => by
    unfold relatedMembers
    refine (unmarked_related hr hu schema table node).bind fun q hq => ?_
    refine (unmarked_relatedMembers hr hu schema table rest).bind fun members hmembers => ?_
    exact yields_pure (List.forall_mem_cons.2 ⟨hq, hmembers⟩)

end

end Rendering

/-! ## Statements -/

namespace Statement

open Rendering

variable {schemas : List Schema} {r : Registry}

section

variable (hr : Registry.assemble schemas = .ok r)
include hr

theorem placed_of_ofPlan (hu : r.NamesUnmarked) {schema : Schema} {plan : Plan}
    {out : SelectQuery × List Output} (h : ofPlan r schema plan = .ok out) :
    (select out.1).Placed ∧ (select out.1).params = plan.filter.values.map .ofJson := by
  unfold ofPlan at h
  refine Yields.start (P := fun out : SelectQuery × List Output =>
    (select out.1).Placed ∧ (select out.1).params = plan.filter.values.map .ofJson) ?_ h
  refine (yields_trivial _).bind fun table _ => ?_
  refine (yields_mapM (P := fun c : Column => Unmarked c.column) fun field _ =>
    yields_lift fun c hc => unmarked_column hc).bind fun columns hcolumns => ?_
  refine (yields_mapM (P := fun out : RelatedQuery × Output => Unmarked out.1.sql)
    fun node _ => ?_).bind fun related hrelated => ?_
  · refine (yields_trivial _).bind fun a _ => ?_
    exact (unmarked_related hr hu schema table node).bind fun q hq => yields_pure hq.2
  refine (placed_filter hr schema table plan.filter).bind fun condition hcondition => ?_
  refine (yields_mapM (P := fun key : SortValue × Direction => Unmarked key.1.sql)
    fun key _ => ?_).bind fun order horder => ?_
  · exact (unmarked_sortValue hr _ _ schema table).bind fun v hv => yields_pure hv
  refine yields_pure ⟨placed_select ?_ ?_ ?_ hcondition.1 horder, hcondition.2⟩
  · exact schema.unmarked_tableName
  · exact List.forall_mem_map.2 hcolumns
  · exact List.forall_mem_map.2 hrelated

theorem placed_of_ofCount {schema : Schema} {p : Predicate} {s : Statement}
    (h : ofCount r schema p = .ok s) : s.Placed ∧ s.params = p.values.map .ofJson := by
  obtain ⟨rows, hrows, hs⟩ := bind_eq_ok.1 h
  obtain rfl := pure_eq_ok.1 hs
  obtain ⟨⟨ht, hc⟩, hcondition, hparams⟩ := (placed_keys hr schema p).start hrows
  exact ⟨placed_count ht hc hcondition, hparams⟩

theorem placed_of_ofDelete {schema : Schema} {p : Predicate} {s : Statement}
    (h : ofDelete r schema p = .ok s) : s.Placed ∧ s.params = p.values.map .ofJson := by
  obtain ⟨rows, hrows, hs⟩ := bind_eq_ok.1 h
  obtain rfl := pure_eq_ok.1 hs
  obtain ⟨⟨ht, hc⟩, hcondition, hparams⟩ := (placed_keys hr schema p).start hrows
  exact ⟨placed_delete ht hc hcondition, hparams⟩

end

/-- The values of a row go into columns without marks, in the order of the row. -/
theorem unmarked_assignments {schema : Schema} {row : Object} {values : List (String × SqlValue)}
    (h : assignments r schema row = .ok values) :
    (∀ v ∈ values, Unmarked v.1) ∧ values.map (·.2) = (row.map (·.2)).map .ofJson := by
  obtain rfl := assignments_eq_ok h
  refine ⟨List.forall_mem_map.2 fun m _ => unmarked_columnName _, ?_⟩
  rw [List.map_map, List.map_map]
  rfl

theorem placed_of_ofInsert {schema : Schema} {row : Object} {s : Statement}
    (h : ofInsert r schema row = .ok s) : s.Placed ∧ s.params = (row.map (·.2)).map .ofJson := by
  obtain ⟨values, hvalues, hs⟩ := bind_eq_ok.1 h
  obtain rfl := pure_eq_ok.1 hs
  obtain ⟨hcolumns, hparams⟩ := unmarked_assignments hvalues
  exact ⟨placed_insert (Schema.unmarked_tableName _) hcolumns, hparams⟩

theorem placed_of_ofUpdate (hr : Registry.assemble schemas = .ok r) {schema : Schema}
    {row : Object} {p : Predicate} {s : Statement} (h : ofUpdate r schema row p = .ok s) :
    s.Placed ∧ s.params = (row.map (·.2) ++ p.values).map .ofJson := by
  obtain ⟨values, hvalues, h⟩ := bind_eq_ok.1 h
  obtain ⟨rows, hrows, hs⟩ := bind_eq_ok.1 h
  obtain rfl := pure_eq_ok.1 hs
  obtain ⟨hcolumns, hvalues⟩ := unmarked_assignments hvalues
  obtain ⟨⟨ht, hc⟩, hcondition, hparams⟩ := (placed_keys hr schema p).start hrows
  refine ⟨placed_update ht hc hcondition hcolumns, ?_⟩
  rw [params, hvalues, hparams, List.map_append]

/-! ## Links -/

/-- The values of the statements that link rows to a parent. -/
def linkValues (a : Association) (parent : Json) (ids : List Json) (replace : Bool) :
    List (List Json) :=
  match a.kind with
  | .belongsTo _ => if ids.isEmpty && !replace then [] else [[ids.head?.getD .null, parent]]
  | .hasOne _ | .hasMany _ =>
    (if replace then [parent :: ids] else []) ++ if ids.isEmpty then [] else [parent :: ids]
  | .hasManyThrough _ =>
    (if replace then [[parent]] else [])
      ++ if ids.isEmpty then [] else [ids.flatMap fun id => [parent, id]]

/-- The statements that a key in the target's rows is set by. -/
theorem placed_held {table key id : String} (ht : Unmarked table) (hk : Unmarked key)
    (hid : Unmarked id) (parent : Json) (ids : List Json) (replace : Bool) :
    List.Forall₂ (fun (s : Statement) values => s.Placed ∧ s.params = values.map .ofJson)
      ((if replace then
        [.setKey table key none (.equals key (.ofJson parent) ::
          if ids.isEmpty then [] else [.notAmong id (ids.map .ofJson)])]
      else [])
        ++ if ids.isEmpty then []
          else [.setKey table key (some (.ofJson parent)) [.among id (ids.map .ofJson)]])
      ((if replace then [parent :: ids] else [])
        ++ if ids.isEmpty then [] else [parent :: ids]) := by
  refine List.rel_append ?_ ?_
  · split
    · refine .cons ⟨placed_setKey ht hk _ (List.forall_mem_cons.2 ⟨hk, ?_⟩), ?_⟩ .nil
      · split
        · simp
        · simpa [Guard.column] using hid
      · split
        · rename_i hempty
          rw [List.isEmpty_iff.1 hempty]
          rfl
        · simp [params, Guard.params]
    · exact .nil
  · split
    · exact .nil
    · refine .cons ⟨placed_setKey ht hk _ (by simpa [Guard.column] using hid), ?_⟩ .nil
      simp [params, Guard.params]

theorem placed_of_ofLinks (hr : Registry.assemble schemas = .ok r) {a : Association}
    (ha : a ∈ r.associations) (parent : Json) (ids : List Json) (replace : Bool) :
    List.Forall₂ (fun s values => s.Placed ∧ s.params = values.map .ofJson)
      (ofLinks a parent ids replace) (linkValues a parent ids replace) := by
  unfold ofLinks linkValues
  dsimp only
  rw [List.isEmpty_map]
  cases hkind : a.kind with
  | belongsTo key =>
    dsimp only
    split
    · exact .nil
    · have htable := Schema.unmarked_tableName a.source
      refine .cons ⟨placed_setKey htable (unmarked_columnName _) _ ?_, ?_⟩ .nil
      · simpa [Guard.column] using Schema.unmarked_idColumn _
      · cases ids <;> rfl
  | hasOne key | hasMany key =>
    exact placed_held (Schema.unmarked_tableName _) (unmarked_columnName _)
      (Schema.unmarked_idColumn _) parent ids replace
  | hasManyThrough join =>
    have htable : Unmarked join.table := Registry.unmarked_joinTable hr ha hkind
    have hkey (key : String) : Unmarked (columnName key) := unmarked_columnName key
    refine List.rel_append ?_ ?_
    · split
      · exact .cons ⟨placed_deleteLinks htable (hkey _) _, rfl⟩ .nil
      · exact .nil
    · split
      · exact .nil
      · refine .cons ⟨placed_insertLinks htable (hkey _) (hkey _) _ _, ?_⟩ .nil
        simp [params, List.map_flatMap, List.flatMap_map]

/-! ## What is rendered -/

/-- A statement that is rendered, with the values that it is rendered with, from left to right. -/
inductive Rendered (r : Registry) : Statement → List Json → Prop
  | select {schema : Schema} {plan : Plan} {out : SelectQuery × List Output} :
      ofPlan r schema plan = .ok out → Rendered r (.select out.1) plan.filter.values
  | count {schema : Schema} {p : Predicate} {s : Statement} :
      ofCount r schema p = .ok s → Rendered r s p.values
  | insert {schema : Schema} {row : Object} {s : Statement} :
      ofInsert r schema row = .ok s → Rendered r s (row.map (·.2))
  | update {schema : Schema} {row : Object} {p : Predicate} {s : Statement} :
      ofUpdate r schema row p = .ok s → Rendered r s (row.map (·.2) ++ p.values)
  | delete {schema : Schema} {p : Predicate} {s : Statement} :
      ofDelete r schema p = .ok s → Rendered r s p.values
  | ids (schema : Schema) (ids : List Json) : Rendered r (ofIds schema ids) ids
  | link {a : Association} {parent : Json} {ids : List Json} {replace : Bool} {s : Statement}
      {values : List Json} : a ∈ r.associations →
      (s, values) ∈ (ofLinks a parent ids replace).zip (linkValues a parent ids replace) →
      Rendered r s values

/-- **Placeholders.** A rendered statement binds the values that it is rendered with, and each of
them stands at the place of its mark. -/
theorem placed_of_rendered (hr : Registry.assemble schemas = .ok r) (hu : r.NamesUnmarked)
    {s : Statement} {values : List Json} (h : Rendered r s values) :
    s.Placed ∧ s.params = values.map .ofJson := by
  cases h with
  | select h => exact placed_of_ofPlan hr hu h
  | count h => exact placed_of_ofCount hr h
  | insert h => exact placed_of_ofInsert h
  | update h => exact placed_of_ofUpdate hr h
  | delete h => exact placed_of_ofDelete hr h
  | ids schema ids =>
    exact ⟨placed_present schema.unmarked_tableName schema.unmarked_idColumn _, rfl⟩
  | link ha hmem => exact (List.forall₂_iff_zip.1 (placed_of_ofLinks hr ha _ _ _)).2 hmem

end Statement

end ResourceApi
