import ResourceApi.Proofs.Engine.Finding
import ResourceApi.Proofs.Sql.Addressed
import ResourceApi.Proofs.Store.Effects
import ResourceApi.Proofs.Write.Attributes

/-!
# Operations on one row

What a database answers to the operations that address a row by its identifier, where the name of
the primary key has no dots. Their statements are small and name columns of the schema, so a sound
database refuses none of them for its text; what is left is whether there is such a row.

**Theorem (`Session.updated_idIs_of_none`, `Session.updated_idIs`).** An update with declared
attributes succeeds and changes nothing where no row has the identifier. Otherwise, if it succeeds,
it counts a row and there is still a row with the identifier, which can be read
(`Session.exists_found_reloadPlan`).
-/

namespace ResourceApi

variable {schemas : List Schema} {r : Registry} {db db' : Database} {schema : Schema} {id : Json}

/-! ## Sizes -/

theorem Depth.largest_le {ns : List Nat} {bound : Nat} (h : ∀ n ∈ ns, n ≤ bound) :
    Depth.largest ns ≤ bound :=
  List.foldlRecOn ns max (motive := (· ≤ bound)) (Nat.zero_le bound)
    fun _ hm n hn => Nat.max_le.2 ⟨hm, h n hn⟩

namespace RowCondition

theorem params_idIs (schema : Schema) (id : Json) (table : Nat) :
    (idIs schema id table).params.length ≤ 1 := by
  cases id <;> exact Nat.le_of_ble_eq_true rfl

theorem names_idIs (schema : Schema) (id : Json) (table : Nat) :
    (idIs schema id table).names = .ofColumns [⟨table, schema.idColumn⟩] := by
  cases id <;> rfl

end RowCondition

theorem KeyQuery.fits_idIs (schema : Schema) (id : Json) : (KeyQuery.idIs schema id).Fits := by
  constructor
  · cases id <;> exact Nat.le_of_ble_eq_true rfl
  · cases id <;> exact Nat.le_of_ble_eq_true rfl

/-- An update of an addressed row is small if it sets no more columns than a table can have. -/
theorem Statement.checkSize_update {values : Tuple} (h : values.length ≤ maxTerms)
    (sql : String) : (update (.idIs schema id) values).checkSize sql = .ok () := by
  have hparams : (update (.idIs schema id) values).params.length ≤ maxValues := by
    have hone := RowCondition.params_idIs schema id 0
    have hmax : maxTerms + 1 ≤ maxValues := by decide
    show (values.map (·.2) ++ (RowCondition.idIs schema id 0).params).length ≤ _
    rw [List.length_append, List.length_map]
    omega
  have hdepth : (update (.idIs schema id) values).depth ≤ Depth.maximum := by
    cases id <;> exact Nat.le_of_ble_eq_true rfl
  unfold checkSize checkLists
  rw [if_neg (Nat.not_lt.2 hparams), if_neg (Nat.not_lt.2 hdepth)]
  dsimp only
  rw [if_neg (Nat.not_lt.2 h)]
  rfl

/-- The columns of a creatable table can be selected and set all at once. -/
theorem Registry.Creatable.length_columns (hc : r.Creatable) (hs : schema ∈ r.schemas) :
    (schema.allFields ++ (r.foreignKeysOf schema).map (·.field)).length ≤ Statement.maxTerms := by
  have hle := hc.columns _ (tableOf_mem_tables hs)
  have hlength : (schema.allFields ++ (r.foreignKeysOf schema).map (·.field)).length =
      (r.tableOf schema).columns.length := by
    simp [Registry.tableOf, Schema.allFields, Schema.attributeNames]
  exact hlength ▸ hle

/-! ## Assigned columns -/

/-- Declared attributes have columns. -/
theorem Schema.Declares.exists_column {row : Object} (h : schema.Declares row) (r : Registry) :
    ∀ field ∈ row.keys, ∃ c, r.column? schema field = some c := by
  intro field hm
  obtain ⟨c, hc, -⟩ := r.column?_of_hasField
    (Schema.hasField_iff.2 (List.mem_cons_of_mem schema.idField (h.names hm)))
  exact ⟨c, hc⟩

namespace Statement

/-- A row can be stored if its fields have columns. -/
theorem exists_assignments_iff {row : Object} :
    (∃ values, assignments r schema row = .ok values) ↔
      ∀ field ∈ row.keys, ∃ c, r.column? schema field = some c := by
  unfold assignments
  rw [exists_mapM_eq_ok_iff, Object.keys, List.forall_mem_map]
  refine forall₂_congr fun m _ => ?_
  obtain ⟨field, value⟩ := m
  show (∃ v, Rendering.column r schema field >>= (fun c => pure (c.column, SqlValue.ofJson value)) =
    .ok v) ↔ _
  rw [exists_bind_eq_ok_iff, Rendering.column]
  cases r.column? schema field with
  | none => simp
  | some c => exact ⟨fun _ => ⟨c, rfl⟩, fun _ => ⟨c, rfl, _, rfl⟩⟩

/-- Declared attributes are stored in their columns. -/
theorem assignments_of_declares {row : Object} (h : schema.Declares row) :
    ∃ values, assignments r schema row = .ok values ∧
      values.map (·.1) = row.keys.map columnName := by
  obtain ⟨values, hvalues⟩ := exists_assignments_iff.2 (h.exists_column r)
  refine ⟨values, hvalues, ?_⟩
  rw [assignments_eq_ok hvalues, Object.keys, List.map_map, List.map_map]
  rfl

end Statement

/-- No attribute is stored in the column of the primary key. -/
theorem Registry.Creatable.idColumn_notMem (hc : r.Creatable) (hs : schema ∈ r.schemas)
    {fields : List String} (h : fields ⊆ schema.attributeNames) :
    schema.idColumn ∉ fields.map columnName := by
  intro hm
  obtain ⟨field, hfield, hcolumn⟩ := List.mem_map.1 hm
  obtain ⟨a, ha, rfl⟩ := List.mem_map.1 (h hfield)
  have hnames := hc.columnNames _ (tableOf_mem_tables hs)
  rw [Registry.tableOf, List.cons_append, List.map_cons] at hnames
  refine (List.nodup_cons.1 hnames).1 ?_
  rw [List.map_append, List.map_map]
  exact List.mem_append_left _ (List.mem_map.2 ⟨a, ha, hcolumn⟩)

namespace Session

open Database

section

variable (hc : r.Creatable) (hdb : db.Sound r.tables) (hs : schema ∈ r.schemas)
include hc hdb hs

/-- Every column of the schema is found. -/
theorem hasColumn_of_sound {c : Column} (hm : c ∈ r.columns schema) :
    db.hasColumn schema.tableName c.column = true := by
  obtain ⟨t, ht, hd⟩ := exists_tableOf hdb.definitions hc.tableNames hs
  exact hasColumn_of_tableOf ht hd hm

/-- Columns of the schema are found behind the alias of its table. -/
theorem finds_columns (table : Nat) {columns : List Column} (h : columns ⊆ r.columns schema) :
    db.Finds [(table, schema.tableName)] (.ofColumns (columns.map (⟨table, ·.column⟩))) := by
  refine finds_ofColumns fun c hm => ?_
  obtain ⟨column, hcolumn, rfl⟩ := List.mem_map.1 hm
  exact ⟨_, List.mem_cons_self, hasColumn_of_sound hc hdb hs (h hcolumn)⟩

theorem finds_idColumn (table : Nat) :
    db.Finds [(table, schema.tableName)] (.ofColumns [⟨table, schema.idColumn⟩]) := by
  have hid : [⟨schema.idField, schema.idColumn, .ofKey schema.idType⟩] ⊆ r.columns schema :=
    List.cons_subset.2 ⟨List.mem_append_left _ List.mem_cons_self, List.nil_subset _⟩
  exact finds_columns hc hdb hs table hid

theorem finds_condition (table : Nat) :
    db.Finds [(table, schema.tableName)] (RowCondition.idIs schema id table).names := by
  rw [RowCondition.names_idIs]
  exact finds_idColumn hc hdb hs table

theorem finds_idIs : db.Finds [] (KeyQuery.idIs schema id).names := by
  rw [KeyQuery.names, Names.append_assoc]
  exact ((finds_idColumn hc hdb hs 0).append (finds_condition hc hdb hs 0)).below

/-! ## Counting -/

/-- A sound database counts the rows with an identifier. -/
theorem counted_idIs (hk : schema.Addressable) : counted schema (.idIs schema id) r db =
    .ok ((db.rows schema.tableName).filter (db.hasId schema id)).length := by
  have hverified : verified db (.count (.idIs schema id))
      (Statement.count (.idIs schema id)).sql = .ok () := by
    refine verified_eq_ok (Statement.checkSize_count (KeyQuery.fits_idIs schema id) _) ?_ rfl rfl
    exact Database.checkNames_eq_ok (finds_idIs hc hdb hs) _
  refine bind_eq_ok.2 ⟨_, mapError_eq_ok.2 (Rendering.keys_idIs hk),
    bind_eq_ok.2 ⟨(), hverified, ?_⟩⟩
  rw [Database.keys_idIs hc hdb hs, List.length_map]
  rfl

end

/-! ## Looking for keys -/

/-- A database finds an identifier where a row has it. -/
theorem existing_id (db : Database) (schema : Schema) (id : Json) :
    ∃ found, existing schema [id] db = .ok found ∧
      (found = [] ↔ ∀ row ∈ db.rows schema.tableName, db.hasId schema id row = false) := by
  have hverified : verified db (Statement.ofIds schema [id])
      (Statement.ofIds schema [id]).sql = .ok () := rfl
  refine ⟨_, bind_eq_ok.2 ⟨(), hverified, rfl⟩, ?_⟩
  rw [List.map_eq_nil_iff]
  exact Database.present_eq_nil_iff

/-! ## Updates -/

section

variable {row : Object}

/-- The columns of declared attributes are found. -/
theorem checkAssigned_of_declares (hc : r.Creatable) (hdb : db.Sound r.tables)
    (hs : schema ∈ r.schemas) (hrow : schema.Declares row) :
    db.checkAssigned schema.tableName (row.keys.map columnName) = .ok () := by
  have hnone : (row.keys.map columnName).find? (!db.hasColumn schema.tableName ·) = none := by
    rw [List.find?_eq_none]
    intro column hm
    obtain ⟨field, hfield, rfl⟩ := List.mem_map.1 hm
    obtain ⟨c, hcolumn, hc', -⟩ := Rendering.column_of_hasField (r := r)
      (Schema.hasField_iff.2 (List.mem_cons_of_mem _ (hrow.names hfield)))
    rw [← Rendering.column_eq_ok hcolumn,
      hasColumn_of_sound hc hdb hs (List.mem_of_find?_eq_some hc')]
    simp
  rw [checkAssigned, hnone]

/-- The statement that sets declared attributes is accepted. -/
theorem verified_update (h : Registry.assemble schemas = .ok r) (hc : r.Creatable)
    (hdb : db.Sound r.tables) (hs : schema ∈ r.schemas) (hrow : schema.Declares row)
    {values : Tuple} (hvalues : values.map (·.1) = row.keys.map columnName) (sql : String) :
    verified db (.update (.idIs schema id) values) sql = .ok () := by
  have hlength : values.length ≤ Statement.maxTerms := by
    have hcount := congrArg List.length hvalues
    rw [List.length_map, Object.keys, List.length_map, List.length_map] at hcount
    have hle := hc.length_columns hs
    have hattributes := hrow.length_le
    simp only [Schema.allFields, Schema.attributeNames, List.length_append, List.length_cons,
      List.length_map] at hle
    omega
  have hassigned : db.checkAssigned schema.tableName (values.map (·.1)) = .ok () :=
    hvalues ▸ checkAssigned_of_declares hc hdb hs hrow
  refine verified_eq_ok (Statement.checkSize_update hlength sql) ?_ rfl ?_
  · exact bind_eq_ok.2 ⟨(), hassigned, checkNames_eq_ok (finds_idIs hc hdb hs) sql⟩
  · exact db.checkTargets_eq_ok (isAstray_eq_false h hc hdb.definitions) _

/-- An update of an addressed row is an update of rows in the database. -/
theorem updated_idIs_eq (h : Registry.assemble schemas = .ok r) (hc : r.Creatable)
    (hdb : db.Sound r.tables) (hs : schema ∈ r.schemas) (hk : schema.Addressable)
    (hrow : schema.Declares row) (hne : row.isEmpty = false) (id : Json) :
    ∃ values, values.map (·.1) = row.keys.map columnName ∧
      updated schema row (.idIs schema id) r db =
        (db.updateRows schema.tableName (db.hasKeyOf (.idIs schema id)) values).mapError
          Violation.toStoreError := by
  obtain ⟨values, hassignments, hvalues⟩ := Statement.assignments_of_declares (r := r) hrow
  have hstatement : Statement.ofUpdate r schema row (.idIs schema id) =
      .ok (.update (.idIs schema id) values) :=
    bind_eq_ok.2 ⟨values, hassignments, bind_eq_ok.2 ⟨_, Rendering.keys_idIs hk, rfl⟩⟩
  refine ⟨values, hvalues, ?_⟩
  unfold updated executed
  rw [hne, hstatement]
  show (verified db (.update (.idIs schema id) values)
    (Statement.update (.idIs schema id) values).sql >>= fun _ => _) = _
  rw [verified_update h hc hdb hs hrow hvalues]
  rfl

/-- **An update of a row that is not there changes nothing.** -/
theorem updated_idIs_of_none (h : Registry.assemble schemas = .ok r) (hc : r.Creatable)
    (hdb : db.Sound r.tables) (hs : schema ∈ r.schemas) (hk : schema.Addressable)
    (hrow : schema.Declares row)
    (hnone : ∀ row ∈ db.rows schema.tableName, db.hasId schema id row = false) :
    updated schema row (.idIs schema id) r db = .ok (db, 0) := by
  cases hempty : row.isEmpty with
  | true =>
    have hfiltered : (db.rows schema.tableName).filter (db.hasId schema id) = [] :=
      List.filter_eq_nil_iff.2 (by simpa using hnone)
    unfold updated
    rw [if_pos hempty, counted_idIs hc hdb hs hk, hfiltered]
    rfl
  | false =>
    obtain ⟨values, -, hupdated⟩ := updated_idIs_eq h hc hdb hs hk hrow hempty id
    obtain ⟨t, ht, -⟩ := exists_tableOf hdb.definitions hc.tableNames hs
    rw [hupdated, updateRows_of_none hc.tableNames hdb ht
      (fun row _ => hasKeyOf_eq_false hc hdb hs hnone row) values]
    rfl

/-- **An update of a row counts it and leaves it addressable.** To set nothing succeeds and changes
nothing. -/
theorem updated_idIs (h : Registry.assemble schemas = .ok r) (hc : r.Creatable)
    (hdb : db.Sound r.tables) (hs : schema ∈ r.schemas) (hk : schema.Addressable)
    (hrow : schema.Declares row) {stored : Tuple} (hm : stored ∈ db.rows schema.tableName)
    (hid : db.hasId schema id stored = true) :
    (row.isEmpty = true → ∃ n, updated schema row (.idIs schema id) r db = .ok (db, n)) ∧
      ∀ db' n, updated schema row (.idIs schema id) r db = .ok (db', n) →
        n ≠ 0 ∧ db'.Sound r.tables ∧
          ∃ row ∈ db'.rows schema.tableName, db'.hasId schema id row = true := by
  cases hempty : row.isEmpty with
  | true =>
    have hpos : ((db.rows schema.tableName).filter (db.hasId schema id)).length ≠ 0 :=
      (List.length_pos_of_mem (List.mem_filter.2 ⟨hm, hid⟩)).ne'
    have hupdated : updated schema row (.idIs schema id) r db =
        .ok (db, ((db.rows schema.tableName).filter (db.hasId schema id)).length) := by
      unfold updated
      rw [if_pos hempty, counted_idIs hc hdb hs hk]
      rfl
    refine ⟨fun _ => ⟨_, hupdated⟩, fun db' n hok => ?_⟩
    obtain ⟨rfl, rfl⟩ := Prod.mk.injEq .. ▸ Except.ok.inj (hupdated.symm.trans hok)
    exact ⟨hpos, hdb, stored, hm, hid⟩
  | false =>
    obtain ⟨values, hvalues, hupdated⟩ := updated_idIs_eq h hc hdb hs hk hrow hempty id
    refine ⟨nofun, fun db' n hok => ?_⟩
    have hrows := mapError_eq_ok.1 (hupdated ▸ hok)
    have hnot : schema.idColumn ∉ values.map (·.1) :=
      hvalues ▸ hc.idColumn_notMem hs hrow.names
    obtain ⟨hn, hleft⟩ := exists_hasId_updateRows hc hdb hs hrows hnot hm hid
    exact ⟨hn, sound_updateRows (Registry.tablesLinked h hc) hdb hrows, hleft⟩

end

/-! ## Reading a row again -/

/-- The fields that are read again are those of the columns. -/
theorem fields_eq (r : Registry) (schema : Schema) :
    schema.allFields ++ (r.foreignKeysOf schema).map (·.field) =
      (r.columns schema).map (·.field) := by
  simp [Registry.columns, Schema.allFields, Schema.attributeNames, Function.comp_def]

/-- Every field that is read again has a column. -/
theorem exists_column_of_reload {field : String}
    (h : field ∈ schema.allFields ++ (r.foreignKeysOf schema).map (·.field)) :
    ∃ c, r.column? schema field = some c := by
  refine Option.isSome_iff_exists.1 (List.find?_isSome.2 ?_)
  rw [fields_eq] at h
  obtain ⟨c, hc, he⟩ := List.mem_map.1 h
  exact ⟨c, hc, decide_eq_true he⟩

/-- The query reads the rows that have the identifier, and nothing along with them. -/
structure Addresses (schema : Schema) (id : Json) (q : SelectQuery) : Prop where
  table : q.table = schema.tableName
  condition : q.condition = some (.all [.idIs schema id q.aliasId])
  order : q.order = []
  related : q.related = []
  limit : q.limit = none
  offset : q.offset = none

/-- The filter on an identifier is rendered under whatever alias. -/
theorem run_filter_idIs (r : Registry) (hk : schema.Addressable) (id : Json) (table n : Nat) :
    (Rendering.filter r schema table (.all [.idIs schema id])).run n =
      .ok (some (.all [.idIs schema id table]), n) := by
  have hconditions : (Rendering.conditions r schema table [.idIs schema id]).run n =
      .ok ([.idIs schema id table], n) := by
    unfold Rendering.conditions Rendering.conditions
    exact Rendering.run_bind_eq_ok.2 ⟨_, n, Rendering.condition_idIs hk table n, rfl⟩
  refine Rendering.run_bind_eq_ok.2 ⟨_, n, ?_, rfl⟩
  unfold Rendering.condition
  exact Rendering.run_bind_eq_ok.2 ⟨_, n, hconditions, rfl⟩

/-- A plan for one row has a query, whichever columns it selects. -/
theorem exists_addresses (r : Registry) (hk : schema.Addressable) {plan : Plan}
    (hplan : plan = { Plan.forId schema id with attributes := plan.attributes })
    (hcolumns : ∀ field ∈ plan.attributes.names schema, ∃ c, r.column? schema field = some c) :
    ∃ q, Statement.ofPlan r schema plan = .ok (q, plan.outputs r schema) ∧
      q.Renders r schema plan ∧ Addresses schema id q := by
  have hfilter : plan.filter = .all [.idIs schema id] := congrArg Plan.filter hplan
  have hincludes : plan.includes = [] := congrArg Plan.includes hplan
  have hsort : plan.sort = [] := congrArg Plan.sort hplan
  have hrun (table n : Nat) : (Rendering.filter r schema table plan.filter).run n =
      .ok (some (.all [.idIs schema id table]), n) := hfilter ▸ run_filter_idIs r hk id table n
  obtain ⟨q, hq⟩ := Statement.ofPlan_of_columns hcolumns
    (fun table n => ⟨_, n, hrun table n, trivial⟩) (hincludes ▸ trivial) (hsort ▸ nofun)
  obtain ⟨hrenders, -⟩ := Statement.renders_ofPlan hq
  refine ⟨q, hq, hrenders, hrenders.table, ?_, ?_, ?_, ?_, ?_⟩
  · obtain ⟨n, m, -, hcondition⟩ := hrenders.condition
    have h := (hrun q.aliasId n).symm.trans hcondition
    exact (congrArg Prod.fst (Except.ok.inj h)).symm
  · have h := hrenders.order
    rw [hsort] at h
    exact List.forall₂_nil_left_iff.1 h
  · have h := hrenders.related
    rw [hincludes] at h
    exact List.forall₂_nil_left_iff.1 h
  · exact hrenders.limit.trans (congrArg Plan.limit hplan)
  · exact hrenders.offset.trans (congrArg Plan.offset hplan)

namespace Addresses

variable {q : SelectQuery}

/-- The query is small. -/
theorem fits (h : Addresses schema id q) (hlength : q.columns.length ≤ Statement.maxTerms) :
    q.Fits where
  values := by
    show ((q.condition.map (·.params)).getD []).length ≤ _
    rw [h.condition]
    cases id <;> exact Nat.le_of_ble_eq_true rfl
  depth := by
    show q.depth.inner ≤ _
    unfold SelectQuery.depth
    rw [h.related, h.condition, h.order]
    refine Depth.largest_le fun n hn => ?_
    obtain ⟨part, hpart, rfl⟩ := List.mem_map.1 hn
    simp only [List.map_nil, List.append_nil, Option.map_some, Option.toList_some,
      List.mem_append, List.mem_map, List.mem_singleton] at hpart
    rcases hpart with ⟨_, -, rfl⟩ | rfl
    · exact Nat.le_of_ble_eq_true rfl
    · cases id <;> exact Nat.le_of_ble_eq_true rfl
  results := by
    rw [h.related]
    exact hlength
  terms := by
    rw [h.order]
    exact Nat.zero_le _
  arguments := by
    rw [h.related]
    exact List.forall_mem_nil _
  plain := by
    rw [h.related]
    exact List.forall_mem_nil _

/-- The query names columns of the schema. -/
theorem finds (h : Addresses schema id q) (hc : r.Creatable) (hdb : db.Sound r.tables)
    (hs : schema ∈ r.schemas) {columns : List Column} (hsub : columns ⊆ r.columns schema)
    (hcolumns : q.columns = columns.map (⟨q.aliasId, ·.column⟩)) : db.Finds [] q.names := by
  have hselected : db.Finds [(q.aliasId, q.table)] (.ofColumns q.columns) := by
    rw [hcolumns, h.table]
    exact finds_columns hc hdb hs q.aliasId hsub
  have hcondition : db.Finds [(q.aliasId, q.table)]
      (RowCondition.all [.idIs schema id q.aliasId]).names := by
    unfold RowCondition.names RowCondition.namesOf RowCondition.namesOf
    rw [h.table]
    exact (finds_condition hc hdb hs q.aliasId).append finds_none
  unfold SelectQuery.names
  rw [h.related, h.condition, h.order]
  simp only [Names.append_assoc]
  exact (hselected.append (finds_none.append (hcondition.append finds_none))).below

/-- The query looks for the rows that have the identifier. -/
theorem filtered_eq (h : Addresses schema id q) (hc : r.Creatable) (hdb : db.Sound r.tables)
    (hs : schema ∈ r.schemas) : db.filtered q.table q.aliasId q.condition =
      (db.rows schema.tableName).filter (db.hasId schema id) := by
  rw [h.table, h.condition]
  refine List.filter_congr fun row hrow => ?_
  unfold Database.holds Database.allHold Database.allHold
  rw [holds_idIs (idColumn_ne_null hc hdb hs hrow), Bool.and_true]

/-- The query answers them all. -/
theorem window_eq (h : Addresses schema id q) (rows : List Tuple) :
    window q.limit q.offset rows = rows := by
  rw [h.limit, h.offset]
  rfl

/-- The query selects the row that has the identifier. -/
theorem select_ne_nil (h : Addresses schema id q) (hc : r.Creatable) (hdb : db.Sound r.tables)
    (hs : schema ∈ r.schemas) {stored : Tuple} (hm : stored ∈ db.rows schema.tableName)
    (hid : db.hasId schema id stored = true) : db.select q ≠ [] := by
  have hfiltered : stored ∈ db.filtered q.table q.aliasId q.condition := by
    rw [h.filtered_eq hc hdb hs]
    exact List.mem_filter.2 ⟨hm, hid⟩
  have hsorted : stored ∈ db.sorted q := (db.sorted_perm q).symm.subset hfiltered
  unfold Database.select Database.selected
  rw [h.window_eq]
  exact List.ne_nil_of_mem (List.mem_map_of_mem (List.mem_map_of_mem hsorted))

end Addresses

/-- The query that reads a row again: the columns of its table, where it has the identifier. -/
structure Reloads (r : Registry) (schema : Schema) (id : Json) (q : SelectQuery) : Prop where
  renders : q.Renders r schema (Engine.reloadPlan r schema id)
  condition : q.condition = some (.all [.idIs schema id q.aliasId])
  order : q.order = []
  related : q.related = []

theorem exists_reloads (r : Registry) (hk : schema.Addressable) (id : Json) :
    ∃ q, Statement.ofPlan r schema (Engine.reloadPlan r schema id) =
        .ok (q, (Engine.reloadPlan r schema id).outputs r schema) ∧ Reloads r schema id q := by
  have hcolumns : ∀ field ∈ (Engine.reloadPlan r schema id).attributes.names schema,
      ∃ c, r.column? schema field = some c :=
    fun field hf => exists_column_of_reload hf
  obtain ⟨q, hq, hrenders, haddresses⟩ := exists_addresses r hk rfl hcolumns
  exact ⟨q, hq, hrenders, haddresses.condition, haddresses.order, haddresses.related⟩

namespace Reloads

variable {q : SelectQuery}

theorem addresses (h : Reloads r schema id q) : Addresses schema id q :=
  ⟨h.renders.table, h.condition, h.order, h.related, h.renders.limit, h.renders.offset⟩

/-- The query has all columns of the table. -/
theorem columns (h : Reloads r schema id q) : q.columns =
    (schema.allFields ++ (r.foreignKeysOf schema).map (·.field)).map
      fun field => ⟨q.aliasId, columnName field⟩ :=
  h.renders.columns

/-- The query runs as it was written. -/
theorem prepared_eq (h : Reloads r schema id q) (hc : r.Creatable) (hdb : db.Sound r.tables)
    (hs : schema ∈ r.schemas) : prepared q db = .ok q := by
  have hcolumns : q.columns = (r.columns schema).map (⟨q.aliasId, ·.column⟩) := by
    rw [h.columns]
    simp [Registry.columns, Schema.allFields, Schema.attributeNames, Schema.idColumn,
      Function.comp_def]
  have hlength : q.columns.length ≤ Statement.maxTerms := by
    rw [h.columns, List.length_map]
    exact hc.length_columns hs
  refine prepared_of_fits (h.addresses.finds hc hdb hs (List.Subset.refl _) hcolumns)
    (h.addresses.fits hlength) ?_
  rw [h.columns]
  exact List.cons_ne_nil _ _

end Reloads

/-- **A row can be read again in the form in which it is answered.** -/
theorem exists_found_reloadPlan (hc : r.Creatable) (hdb : db.Sound r.tables)
    (hs : schema ∈ r.schemas) (hk : schema.Addressable) {stored : Tuple}
    (hm : stored ∈ db.rows schema.tableName) (hid : db.hasId schema id stored = true) :
    ∃ object rest, found schema (Engine.reloadPlan r schema id) r db = .ok (object :: rest) := by
  obtain ⟨q, hq, hreloads⟩ := exists_reloads r hk id
  obtain ⟨objects, hfound, hlength⟩ :=
    exists_found_of_prepared hq (hreloads.prepared_eq hc hdb hs) fun _ => .inl rfl
  have hselected := List.length_pos_iff.2 (hreloads.addresses.select_ne_nil hc hdb hs hm hid)
  rw [← hlength] at hselected
  obtain ⟨object, rest, rfl⟩ := List.exists_cons_of_length_pos hselected
  exact ⟨object, rest, hfound⟩

end Session

end ResourceApi
