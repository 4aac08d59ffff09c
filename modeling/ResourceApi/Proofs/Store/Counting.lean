import ResourceApi.Proofs.Engine.Addressing
import ResourceApi.Proofs.Sql.Deletion
import ResourceApi.Proofs.Store.Selecting

/-!
# Numbers of changed rows

Updates and deletions answer how many rows they have changed.

**Theorem (`Session.count_agrees`).** This is the number that a count answers to the same filter
before them; the count is not refused where they are accepted. An update sets the named columns of
the rows that the filter concerned beforehand (`Database.Sets`), even if it reads these columns: the
keys of these rows are looked up before any of them is changed. A deletion leaves the rows that the
filter did not concern (`Database.Drops`).

The three statements share a query for keys. That its keys lead back to the rows that they were
taken from is all that is asked of the content of the table (`Database.Keyed`). Where two schemas
share a table, it may not hold, and the numbers differ (`Session.count_may_differ`).
-/

namespace ResourceApi

variable {r : Registry} {db db' : Database} {schema : Schema} {p : Predicate} {row : Tuple}

/-! ## Concerned rows -/

/-- Whether operations with a filter concern a row. An empty filter concerns every row. -/
def Predicate.concerns (r : Registry) (db : Database) (schema : Schema) (p : Predicate)
    (row : Tuple) : Bool :=
  p.isEmpty || p.selects r db schema row

/-- The rows that operations with a filter concern. -/
def Predicate.concerned (r : Registry) (db : Database) (schema : Schema) (p : Predicate) :
    List Tuple :=
  (db.rows schema.tableName).filter (p.concerns r db schema)

theorem Predicate.concerns_of_ne (h : p ≠ .any []) :
    p.concerns r db schema = p.selects r db schema := by
  funext row
  unfold concerns
  cases p with
  | condition c => rfl
  | all children =>
    cases children with
    | nil => rfl
    | cons child rest => rfl
  | any children =>
    cases children with
    | nil => exact absurd rfl h
    | cons child rest => rfl

/-- The query for the keys of a filter answers those of the rows that the filter concerns. -/
theorem Rendering.concerned_of_keys {q : KeyQuery} (db : Database)
    (h : start (keys r schema p) = .ok q) : (q.table = schema.tableName ∧
      q.column = schema.idColumn) ∧
        db.filtered q.table q.aliasId q.condition = p.concerned r db schema := by
  by_cases hany : p = .any []
  · -- no condition is rendered for it, as for the conjunction of nothing
    subst hany
    have hall : start (keys r schema (.all [])) = .ok q := h
    exact selected_of_keys db (by nofun) hall
  · unfold Predicate.concerned
    rw [Predicate.concerns_of_ne hany]
    exact selected_of_keys db hany h

/-! ## Keys of rows -/

/-- The tables are those of the registry, and each row of the schema has a primary key of its
own. -/
structure Database.Keyed (r : Registry) (schema : Schema) (db : Database) : Prop where
  definitions : db.tables.map (·.definition) = r.tables
  filled : ∀ row ∈ db.rows schema.tableName, row.get schema.idColumn ≠ .null
  distinct : Table.Distinct [schema.idColumn] (db.rows schema.tableName)

theorem Database.Regular.keyed (hdb : db.Regular r) (hc : r.Creatable) (hs : schema ∈ r.schemas) :
    db.Keyed r schema where
  definitions := hdb.sound.definitions
  filled _ hrow := hdb.idColumn_ne_null hc hs hrow
  distinct := hdb.distinct_idColumn hc hs

/-- A row has one of the keys of the rows that a filter concerns if it is one of them. -/
theorem Database.Keyed.hasKeyOf_eq_concerns (hdb : db.Keyed r schema) {query : KeyQuery}
    (hquery : Rendering.start (Rendering.keys r schema p) = .ok query)
    (hrow : row ∈ db.rows schema.tableName) :
    db.hasKeyOf query row = p.concerns r db schema row := by
  obtain ⟨⟨-, hcolumn⟩, hconcerned⟩ := Rendering.concerned_of_keys db hquery
  rw [Bool.eq_iff_iff]
  unfold hasKeyOf keys
  rw [hconcerned, hcolumn, List.any_map, List.any_eq_true]
  constructor
  · rintro ⟨other, hother, hequals⟩
    obtain ⟨hmem, hconcerns⟩ := List.mem_filter.1 hother
    obtain rfl := hdb.distinct.eq hrow hmem (by rwa [Table.sameKey_singleton])
    exact hconcerns
  · intro hconcerns
    exact ⟨row, List.mem_filter.2 ⟨hrow, hconcerns⟩, SqlValue.equals_self (hdb.filled row hrow)⟩

/-! ## Numbers -/

namespace Session

/-- Where a statement on the rows of a filter is accepted, so is the one that counts them: it has
no more values, and is no deeper. -/
theorem verified_count {statement : KeyQuery → Statement} (hs : KeyQuery.Serves statement)
    {query : KeyQuery} {sql sql' : String} (h : verified db (statement query) sql = .ok ()) :
    verified db (.count query) sql' = .ok () := by
  rw [verified_eq_ok_iff, Statement.checkSize_eq_ok_iff] at h ⊢
  obtain ⟨⟨hvalues, -, hdepth⟩, hcheck, -, -⟩ := h
  have hinner : query.depth.inner ≤ (Depth.node [.leaf, query.depth]).total := by
    simp [Depth.node, Depth.total, Depth.leaf, Depth.largest]
  cases hs with
  | count =>
    exact ⟨⟨hvalues, rfl, hdepth⟩,
      Database.checkNames_eq_ok_iff.2 (Database.checkNames_eq_ok_iff.1 hcheck), rfl, rfl⟩
  | delete =>
    exact ⟨⟨hvalues, rfl, hinner.trans hdepth⟩,
      Database.checkNames_eq_ok_iff.2 (Database.checkNames_eq_ok_iff.1 hcheck), rfl, rfl⟩
  | update values =>
    obtain ⟨⟨⟩, -, hcheck⟩ := bind_eq_ok.1 hcheck
    have hfewer : (Statement.count query).params.length ≤
        (Statement.update query values).params.length := by
      simp [Statement.params]
    exact ⟨⟨hfewer.trans hvalues, rfl, hinner.trans hdepth⟩,
      Database.checkNames_eq_ok_iff.2 (Database.checkNames_eq_ok_iff.1 hcheck), rfl, rfl⟩

/-- **The rows of an accepted statement are counted.** -/
theorem counted_of_onRows {statement : KeyQuery → Statement} (hs : KeyQuery.Serves statement)
    {P : KeyQuery → Prop} (h : OnRows r db schema p statement P) :
    counted schema p r db = .ok (p.concerned r db schema).length := by
  obtain ⟨query, hquery, hverified, -⟩ := h
  have hlength : (db.keys query).length = (p.concerned r db schema).length := by
    rw [Database.keys, List.length_map, (Rendering.concerned_of_keys db hquery).2]
  exact counted_eq_ok_iff.2 ⟨query, hquery, verified_count hs hverified, hlength⟩

theorem counted_eq_ok {n : Nat} (h : counted schema p r db = .ok n) :
    n = (p.concerned r db schema).length :=
  Except.ok.inj (h.symm.trans (counted_of_onRows .count (counted_eq_ok_iff.1 h)))

end Session

/-! ## Updates -/

/-- The row with the named columns set, each to what it stores of its value. -/
def Database.assigned (db : Database) (schema : Schema) (row : Object) (before : Tuple) : Tuple :=
  before.map fun (column, v) => (column,
    match row.find? (columnName ·.1 = column) with
    | some (_, value) => (db.affinity schema.tableName column).store (.ofJson value)
    | none => v)

/-- The second database is the first one with the named columns set in the rows that the filter
concerns. Rows may change their places. -/
structure Database.Sets (r : Registry) (schema : Schema) (p : Predicate) (row : Object)
    (db db' : Database) : Prop where
  frame : db'.frame = db.frame
  others : ∀ table ≠ schema.tableName, db'.rows table = db.rows table
  rows : (db'.rows schema.tableName).Perm ((db.rows schema.tableName).map fun before =>
    if p.concerns r db schema before then db.assigned schema row before else before)

/-- To set columns one after the other is to look for a value for each. -/
theorem Table.assign_eq_map (t : Table) {values : Tuple} (hn : (values.map (·.1)).Nodup)
    (row : Tuple) : t.assign values row = row.map fun m => (m.1,
      match values.find? (·.1 = m.1) with
      | some x => (t.affinity m.1).store x.2
      | none => m.2) := by
  unfold assign
  induction values generalizing row with
  | nil => simp
  | cons x rest ih =>
    obtain ⟨hx, hrest⟩ := List.nodup_cons.1 hn
    rw [List.foldl_cons, ih hrest]
    unfold Tuple.set
    rw [List.map_map]
    refine List.map_congr_left fun m _ => ?_
    by_cases hm : m.1 = x.1
    · -- the column is not set once more
      have hnone : rest.find? (·.1 = x.1) = none := by
        rw [List.find?_eq_none]
        intro y hy he
        exact hx (List.mem_map.2 ⟨y, hy, of_decide_eq_true he⟩)
      simp [hm, hnone]
    · simp [hm, Ne.symm hm]

namespace Database

/-- An update of rows leaves the frame as it is. -/
theorem frame_updateRows {table : String} {picked : Tuple → Bool} {values : Tuple} {n : Nat}
    (hn : (db.tables.map Table.name).Nodup)
    (h : db.updateRows table picked values = .ok (db', n)) : db'.frame = db.frame := by
  obtain ⟨t, t', hwrites, hupdate⟩ := writes_updateRows h
  obtain ⟨hdefinition, hlast, -⟩ := Table.rows_update hupdate
  rw [frame, hwrites.after, modify, List.map_map]
  refine List.map_congr_left fun u hu => ?_
  rw [Function.comp_apply]
  split
  · rename_i hname
    obtain rfl := List.inj_on_of_nodup_map hn hu (mem_of_table? hwrites.before)
      (hname.trans (name_of_table? hwrites.before).symm)
    rw [hdefinition, hlast]
  · rfl

/-- An update answers the number of the rows that are picked. -/
theorem length_updateRows {table : String} {picked : Tuple → Bool} {values : Tuple} {n : Nat}
    (h : db.updateRows table picked values = .ok (db', n)) :
    n = ((db.rows table).filter picked).length := by
  unfold updateRows at h
  obtain ⟨t, ht, h⟩ := bind_eq_ok.1 h
  obtain ⟨_, -, h⟩ := bind_eq_ok.1 h
  obtain ⟨_, -, h⟩ := bind_eq_ok.1 h
  obtain ⟨-, rfl⟩ := Prod.mk.injEq .. ▸ pure_eq_ok.1 h
  rw [rows, tableFor_eq_ok ht]

end Database

namespace Session

section

variable (hc : r.Creatable) (hs : schema ∈ r.schemas)
include hc hs

/-- Different fields that can be stored have different columns. -/
theorem nodup_assignments {row : Object} {values : Tuple} (hrow : row.keys.Nodup)
    (hvalues : Statement.assignments r schema row = .ok values) :
    (row.map (columnName ·.1)).Nodup := by
  have hcolumn := Statement.exists_assignments_iff.1 ⟨values, hvalues⟩
  have hkeys : (row.keys.map columnName).Nodup := by
    refine hrow.map_on fun field hfield other hother he => ?_
    obtain ⟨c, hc₁⟩ := hcolumn field hfield
    obtain ⟨d, hd₁⟩ := hcolumn other hother
    have hcm := List.mem_of_find?_eq_some hc₁
    have hdm := List.mem_of_find?_eq_some hd₁
    have hcf : c.field = field := by simpa using List.find?_some hc₁
    have hdf : d.field = other := by simpa using List.find?_some hd₁
    have hsame : c.column = d.column := by
      rw [Registry.column_of_mem hcm, Registry.column_of_mem hdm, hcf, hdf, he]
    rw [← hcf, ← hdf, List.inj_on_of_nodup_map (hc.nodup_columns hs) hcm hdm hsame]
  rwa [Object.keys, List.map_map] at hkeys

variable (hdb : db.Keyed r schema)
include hdb

/-- **What an update of the rows of a filter does.** -/
theorem sets_of_updated {row : Object} {n : Nat}
    (h : updated schema row p r db = .ok (db', n)) :
    counted schema p r db = .ok n ∧ n = (p.concerned r db schema).length ∧
      (row.keys.Nodup → db.Sets r schema p row db') := by
  cases hempty : row.isEmpty with
  | true =>
    unfold updated at h
    rw [if_pos hempty] at h
    obtain ⟨count, hcount, he⟩ := map_eq_ok.1 h
    obtain ⟨rfl, rfl⟩ := Prod.mk.inj he
    refine ⟨hcount, counted_eq_ok hcount, fun _ => ⟨rfl, fun _ _ => rfl, ?_⟩⟩
    obtain rfl := List.isEmpty_iff.1 hempty
    have hassigned : db.assigned schema [] = id := by
      funext before
      exact List.map_id before
    simp [hassigned]
  | false =>
    obtain ⟨values, hvalues, honRows⟩ := (updated_eq_ok_iff_onRows hempty).1 h
    have hcount := counted_of_onRows (.update values) honRows
    obtain ⟨query, hquery, -, hupdate⟩ := honRows
    rw [(Rendering.concerned_of_keys db hquery).1.1,
      Database.updateRows_congr fun row hrow => hdb.hasKeyOf_eq_concerns hquery hrow] at hupdate
    have hn : n = (p.concerned r db schema).length := Database.length_updateRows hupdate
    refine ⟨hn ▸ hcount, hn, fun hrow => ?_⟩
    obtain ⟨t, ht, hrows, hothers⟩ := Database.rows_updateRows hupdate
    have hframe := Database.frame_updateRows (Database.nodup_names hdb.definitions hc) hupdate
    refine ⟨hframe, hothers, ?_⟩
    have hassign : t.assign values = db.assigned schema row := by
      obtain rfl := Statement.assignments_eq_ok hvalues
      have hcolumns :
          ((row.map fun m => (columnName m.1, SqlValue.ofJson m.2)).map (·.1)).Nodup := by
        rw [List.map_map]
        exact nodup_assignments hc hs hrow hvalues
      have haffinity (column : String) :
          db.affinity schema.tableName column = t.affinity column := by
        rw [Database.affinity, ht]
      funext before
      rw [t.assign_eq_map hcolumns]
      refine List.map_congr_left fun m _ => ?_
      dsimp only
      rw [List.find?_map, haffinity]
      simp only [Function.comp_def]
      cases row.find? (columnName ·.1 = m.1) <;> rfl
    unfold Table.changed at hrows
    rwa [hassign] at hrows

end

end Session

/-! ## Deletions -/

/-- The second database has those rows of the schema, by their primary keys, that the filter does
not concern in the first one. -/
structure Database.Drops (r : Registry) (schema : Schema) (p : Predicate) (db db' : Database) :
    Prop where
  left : (db'.rows schema.tableName).map (·.get schema.idColumn) =
    ((db.rows schema.tableName).filter fun row => !p.concerns r db schema row).map
      (·.get schema.idColumn)
  gone : ∀ row ∈ p.concerned r db schema, ¬db'.IsKeyOf schema (row.get schema.idColumn)

section

variable (hc : r.Creatable) (hs : schema ∈ r.schemas)
include hc hs

/-- A row of a schema that is not deleted stays with its primary key. -/
theorem Database.exists_release_idColumn (db : Database) {t : Table}
    (ht : t.definition = r.tableOf schema) (table : String) (deleted : List Tuple) (row : Tuple) :
    ∃ row', db.release table deleted t row = some row' ∧
      row'.get schema.idColumn = row.get schema.idColumn := by
  have hkey {c : ColumnDefinition} (hm : c ∈ t.definition.columns) {target column : String}
      {onDelete : OnDelete} (hk : .references target column onDelete ∈ c.constraints) :
      onDelete = .setNull ∧ c.name ≠ schema.idColumn := by
    obtain ⟨k, hforeign, rfl⟩ := Registry.reference_tableOf (ht ▸ hm) hk
    exact ⟨(Registry.reference_foreignKeyDefinition hk).2.2,
      (Registry.refers_of_foreignKey hs hforeign).ne_idColumn hc hs⟩
  obtain ⟨row', hrelease⟩ : ∃ row', db.release table deleted t row = some row' :=
    exists_release (fun c hm _ _ _ hk => (hkey hm hk).1) row
  refine ⟨row', hrelease, ?_⟩
  rcases (released_of_release hrelease).1 schema.idColumn with he | ⟨-, c, hm, hname, _, _, hk⟩
  · exact he
  · exact absurd hname (hkey hm hk).2

/-- The primary keys of the rows that a deletion leaves. -/
theorem Database.idColumn_deleteRows (hd : db.tables.map (·.definition) = r.tables)
    (picked : Tuple → Bool) :
    ((db.deleteRows schema.tableName picked).1.rows schema.tableName).map (·.get schema.idColumn) =
      ((db.rows schema.tableName).filter (!picked ·)).map (·.get schema.idColumn) := by
  obtain ⟨t, ht, hdefinition⟩ := exists_tableOf hd hc.tableNames hs
  have hrows : db.rows schema.tableName = t.rows := by rw [rows, ht]
  rw [rows, table?_deleteRows, ht]
  dsimp only [Option.map_some]
  unfold survivors
  simp only [name_of_table? ht, decide_true, Bool.true_and]
  rw [List.map_filterMap, hrows]
  refine List.filterMap_eq_map_iff_forall_eq_some.2 fun row _ => ?_
  obtain ⟨row', hrelease, hid⟩ := exists_release_idColumn hc hs db hdefinition schema.tableName
    (t.rows.filter picked) row
  rw [hrelease, Option.map_some, hid]

namespace Session

/-- **What a deletion of the rows of a filter does.** -/
theorem drops_of_destroyed (hdb : db.Keyed r schema) {n : Nat}
    (h : destroyed schema p r db = .ok (db', n)) :
    counted schema p r db = .ok n ∧ n = (p.concerned r db schema).length ∧
      db.Drops r schema p db' := by
  have honRows := destroyed_eq_ok_iff.1 h
  have hcount := counted_of_onRows .delete honRows
  obtain ⟨query, hquery, -, hdelete⟩ := honRows
  rw [(Rendering.concerned_of_keys db hquery).1.1,
    Database.deleteRows_congr (Database.nodup_names hdb.definitions hc)
      fun row hrow => hdb.hasKeyOf_eq_concerns hquery hrow] at hdelete
  have hn : (p.concerned r db schema).length = n := congrArg Prod.snd hdelete
  obtain rfl : _ = db' := congrArg Prod.fst hdelete
  have hleft := Database.idColumn_deleteRows hc hs hdb.definitions (p.concerns r db schema)
  refine ⟨hn ▸ hcount, hn.symm, hleft, fun row hrow => ?_⟩
  rintro ⟨row', hrow', hequals⟩
  obtain ⟨hrow, hconcerns⟩ := List.mem_filter.1 hrow
  have hmem := List.mem_map_of_mem (f := (·.get schema.idColumn)) hrow'
  rw [hleft] at hmem
  obtain ⟨other, ho, he⟩ := List.mem_map.1 hmem
  obtain ⟨ho, hnot⟩ := List.mem_filter.1 ho
  obtain rfl : other = row := by
    refine hdb.distinct.eq ho hrow ?_
    rw [Table.sameKey_singleton]
    exact he ▸ hequals
  rw [hconcerns] at hnot
  cases hnot

end Session

end

/-! ## Operations -/

namespace Session

/-- **Updates and deletions answer what a count has answered before**, and change what it has
counted. -/
theorem count_agrees {s : Session} (hc : s.registry.Creatable) (hs : schema ∈ s.registry.schemas)
    (hdb : s.database.Keyed s.registry schema) (p : Predicate) :
    (∀ row (n : Nat) db, row.keys.Nodup → s.Does (perform (.update schema row p)) n db →
      s.Does (perform (.count schema p)) n s.database ∧
        n = (p.concerned s.registry s.database schema).length ∧
        s.database.Sets s.registry schema p row db) ∧
      ∀ (n : Nat) db, s.Does (perform (.destroy schema p)) n db →
        s.Does (perform (.count schema p)) n s.database ∧
          n = (p.concerned s.registry s.database schema).length ∧
          s.database.Drops s.registry schema p db := by
  constructor
  · intro row n db hrow hdoes
    obtain ⟨hcount, hn, hsets⟩ :=
      sets_of_updated hc hs hdb ((changes_update schema row p).does_iff.1 hdoes)
    exact ⟨(computes_count schema p).does_iff.2 ⟨hcount, rfl⟩, hn, hsets hrow⟩
  · intro n db hdoes
    obtain ⟨hcount, hn, hdrops⟩ :=
      drops_of_destroyed hc hs hdb ((changes_destroy schema p).does_iff.1 hdoes)
    exact ⟨(computes_count schema p).does_iff.2 ⟨hcount, rfl⟩, hn, hdrops⟩

/-- The filter on a name counts one of two nodes, whose name an update and a deletion change. -/
theorem count_agrees_second : tree.Creatable ∧ treeNode ∈ tree.schemas ∧
    twoNodes.database.Keyed tree treeNode ∧
    (∃ db, twoNodes.Does (perform (.update treeNode [("name", .str "x")] namedY)) (1 : Nat) db ∧
      twoNodes.Does (perform (.count treeNode namedY)) (1 : Nat) twoNodes.database ∧
      twoNodes.database.Sets tree treeNode namedY [("name", .str "x")] db) ∧
    ∃ db, twoNodes.Does (perform (.destroy treeNode namedY)) (1 : Nat) db ∧
      twoNodes.Does (perform (.count treeNode namedY)) (1 : Nat) twoNodes.database ∧
      twoNodes.database.Drops tree treeNode namedY db := by
  obtain ⟨hc, hregular⟩ := regular_of_reachable assemble_node (by decide) reachable_twoNodes
  have hs : treeNode ∈ tree.schemas := by decide
  have hdb : twoNodes.database.Keyed tree treeNode := hregular.database.keyed hc hs
  obtain ⟨hupdates, hdestroys⟩ := count_agrees (s := twoNodes) hc hs hdb namedY
  have hupdate : twoNodes.Does (perform (.update treeNode [("name", .str "x")] namedY))
      (1 : Nat) _ := ⟨by decide +kernel, rfl⟩
  have hdestroy : twoNodes.Does (perform (.destroy treeNode namedY)) (1 : Nat) _ :=
    ⟨by decide +kernel, rfl⟩
  obtain ⟨hcount, -, hsets⟩ := hupdates _ _ _ (by decide) hupdate
  obtain ⟨-, -, hdrops⟩ := hdestroys _ _ hdestroy
  exact ⟨hc, hs, hdb, ⟨_, hupdate, hcount, hsets⟩, _, hdestroy, hcount, hdrops⟩

/-- **The numbers may differ** where two schemas share a table. An item of the one schema is counted
by its rank, and both items that have its name are changed. -/
theorem count_may_differ : Registry.assemble [numberedItem, namedItem] = .ok items ∧
    (∀ d ∈ items.tables, (d.columns.map (·.name)).Nodup) ∧ Reachable items twoItems ∧
    firstRank.Resolves items namedItem ∧
    twoItems.Does (perform (.count namedItem firstRank)) (1 : Nat) twoItems.database ∧
    ∃ db,
      twoItems.Does (perform (.update namedItem [("rank", .int 3)] firstRank)) (2 : Nat) db := by
  have hresolves : firstRank.Resolves items namedItem :=
    ⟨⟨namedItem, .here _, by decide⟩, nofun, nofun⟩
  refine ⟨by decide +kernel, by decide +kernel, ?_, hresolves, ⟨?_, ?_⟩, _, ?_, rfl⟩
  case refine_1 => exact .run _ _ (.start (Registry.start_unused (by decide +kernel)))
  all_goals decide +kernel

end Session

end ResourceApi
