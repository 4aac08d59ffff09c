import ResourceApi.Proofs.Sql.Joining
import ResourceApi.Proofs.Store.Success

/-!
# Rows that stay and rows that are new

A create, an update that sets no identifier and the writing of links leave every row in place, under
its identifier (`Database.RowsStay`). What is counted with a derived key stays as it is when a row
without this key is created.

**Theorem (`Database.not_refers_of_insert`).** No row refers to a row that was just inserted: what
referred to it before would have referred to a row with the same primary key.
-/

namespace ResourceApi

variable {schemas : List Schema} {r : Registry} {db mid db' : Database} {schema other : Schema}
  {table column : String} {pattern values stored : Tuple}

namespace Tuple

/-- The values give a column one value. -/
def Gives (values : Tuple) (column : String) (v : SqlValue) : Prop :=
  (column, v) ∈ values ∧ ∀ c ∈ values, c.1 = column → c.2 = v

theorem Gives.get_eq {v : SqlValue} (h : values.Gives column v) : values.get column = v := by
  obtain ⟨hm, hall⟩ := h
  unfold get
  cases hf : values.find? (·.1 = column) with
  | none => exact absurd (decide_eq_true rfl) (List.find?_eq_none.1 hf _ hm)
  | some c => exact hall c (List.mem_of_find?_eq_some hf) (by simpa using List.find?_some hf)

end Tuple

/-- A column that is assigned one value stores it. -/
theorem Table.get_assign_of_gives {t : Table} {row : Tuple} {v : SqlValue}
    (h : values.Gives column v) (hm : column ∈ row.map (·.1)) :
    (t.assign values row).get column = (t.affinity column).store v := by
  obtain ⟨hgiven, hall⟩ := h
  have go (values : Tuple) (row : Tuple) (hall : ∀ c ∈ values, c.1 = column → c.2 = v)
      (hm : column ∈ row.map (·.1)) (h : column ∈ values.map (·.1) ∨
        row.get column = (t.affinity column).store v) :
      (t.assign values row).get column = (t.affinity column).store v := by
    unfold assign
    induction values generalizing row with
    | nil => simpa using h
    | cons c rest ih =>
      refine ih _ (fun c hc => hall c (List.mem_cons_of_mem _ hc))
        (by rwa [Tuple.columns_set]) ?_
      rw [Tuple.get_set]
      by_cases hc : column = c.1
      · rw [if_pos ⟨hc, hc ▸ hm⟩, hall c List.mem_cons_self hc.symm, hc]
        exact .inr rfl
      · rw [if_neg fun h => hc h.1]
        refine h.imp_left fun h => ?_
        exact (List.mem_cons.1 h).resolve_left hc
  exact go values row hall hm (.inl (List.mem_map_of_mem hgiven))

namespace Database

/-! ## Rows that stay -/

/-- Every row of a schema is there afterwards, under its identifier. -/
def RowsStay (r : Registry) (db db' : Database) : Prop :=
  ∀ schema ∈ r.schemas, ∀ id, db.HasRow schema id → db'.HasRow schema id

theorem RowsStay.refl (r : Registry) (db : Database) : RowsStay r db db := fun _ _ _ h => h

theorem RowsStay.trans (h : RowsStay r db mid) (h' : RowsStay r mid db') : RowsStay r db db' :=
  fun schema hs id hid => h' schema hs id (h schema hs id hid)

/-- Rows stay where primary keys are counted alike. -/
theorem Regular.rowsStay (hdb : db.Regular r) (hdb' : db'.Regular r) (hc : r.Creatable)
    (h : ∀ schema ∈ r.schemas, ∀ v, db'.tally schema.tableName [(schema.idColumn, v)] =
      db.tally schema.tableName [(schema.idColumn, v)]) : RowsStay r db db' := by
  rintro schema hs _ ⟨row, hrow, rfl⟩
  have hself := SqlValue.equals_self (hdb.idColumn_ne_null hc hs hrow)
  have hpos : 0 < db.tally schema.tableName [(schema.idColumn, row.get schema.idColumn)] :=
    tally_pos_iff.2 ⟨row, hrow, by simp [Tuple.meets, hself]⟩
  rw [← h schema hs] at hpos
  obtain ⟨row', hrow', hmeets⟩ := tally_pos_iff.1 hpos
  have hequals : (row'.get schema.idColumn).equals (row.get schema.idColumn) = true := by
    simpa [Tuple.meets] using hmeets
  refine ⟨row', hrow', ?_⟩
  rw [Schema.idOf, Schema.idOf,
    (hdb'.holdsKey hc hs hrow').eq_of_equals (hdb.holdsKey hc hs hrow) hequals]

/-- To write links is to leave all rows in place. -/
theorem Executes.rowsStay {a : Association} {parent : Json} {ids : List Json} {replace : Bool}
    (h : Registry.assemble schemas = .ok r) (hc : r.Creatable)
    (he : db.Executes (Statement.ofLinks a parent ids replace) db') (ha : a ∈ r.associations)
    (hr : a.RefersToEnds r) (hdb : db.Regular r) : RowsStay r db db' := by
  refine hdb.rowsStay (he.regular_ofLinks (List.Subset.refl _) (Registry.tablesLinked h hc) hdb) hc
    fun schema hs v => ?_
  exact he.tally_of_spares h hc ha hdb (a.spares_idColumn h hc ha hr hs v)

/-! ## Inserted rows -/

/-- Only the primary key is assigned by the store. -/
theorem eq_idColumn_of_assignedKey? {t : Table} (hd : t.definition = r.tableOf schema)
    (h : t.assignedKey? = some column) : column = schema.idColumn := by
  obtain ⟨c, hfind, rfl⟩ := Option.map_eq_some_iff.1 h
  have hassigned : .assignedKey ∈ c.constraints := by simpa using List.find?_some hfind
  rw [Registry.eq_keyDefinition_of_assignedKey (hd ▸ List.mem_of_find?_eq_some hfind) hassigned]
  rfl

section

variable (hc : r.Creatable) (hdb : db.Regular r) (hs : schema ∈ r.schemas)
  (h : db.insert schema.tableName values = .ok (db', stored))
include hc hdb hs h

/-- The values of an inserted row are stored as the columns ask for. -/
theorem get_of_insert (hne : column ≠ schema.idColumn) :
    stored.get column =
      if column ∈ (r.tableOf schema).columns.map (·.name)
        then (db.affinity schema.tableName column).store (values.get column) else .null := by
  obtain ⟨t, t', hwrites, hinsert⟩ := writes_insert h
  obtain ⟨u, hu, hd⟩ := exists_tableOf hdb.sound.definitions hc.tableNames hs
  obtain rfl := Option.some.inj (hwrites.before.symm.trans hu)
  obtain ⟨hkey, -, -⟩ := Table.insert_eq_ok hinsert
  rw [Table.get_of_assignKey hkey fun ha => hne (eq_idColumn_of_assignedKey? hd ha),
    Table.get_rowOf, hd, affinity, hu]

/-- A column that is not given is null. -/
theorem get_eq_null_of_insert (hne : column ≠ schema.idColumn)
    (hm : column ∉ values.map (·.1)) : stored.get column = .null := by
  rw [get_of_insert hc hdb hs h hne, Tuple.get_of_notMem hm, Affinity.store_null, ite_self]

/-- A key is stored as the primary key that it refers to. -/
theorem get_of_insert_of_refers (hr : r.Refers schema.tableName column other) :
    stored.get column = (Affinity.ofKey other.idType).store (values.get column) := by
  have hm : column ∈ (r.tableOf schema).columns.map (·.name) := by
    obtain ⟨d, hd, hn, c, hcolumn, rfl, -⟩ := hr
    obtain rfl := hc.eq_tableOf hs hd hn
    exact List.mem_map_of_mem hcolumn
  rw [get_of_insert hc hdb hs h (hr.ne_idColumn hc hs), if_pos hm,
    affinity_of_refers hc hdb.sound hr]

/-- A row without a key counts for nothing that is counted with this key. -/
theorem tally_insert_of_refers {c : String × SqlValue} (hm : c ∈ pattern)
    (hr : r.Refers table c.1 other)
    (hnot : table = schema.tableName → c.1 ∉ values.map (·.1)) :
    db'.tally table pattern = db.tally table pattern := by
  rw [tally_insert h, if_neg, Nat.add_zero]
  rintro ⟨rfl, hmeets⟩
  have hnull := get_eq_null_of_insert hc hdb hs h (hr.ne_idColumn hc hs) (hnot rfl)
  rw [Tuple.meets_eq_false_of_null hm hnull] at hmeets
  cases hmeets

/-- **No row refers to a row that was just inserted.** -/
theorem not_refers_of_insert (hdb' : db'.Regular r) (hr : r.Refers table column schema)
    (hnot : table = schema.tableName → column ∉ values.map (·.1)) :
    ∀ row ∈ db'.rows table, (row.get column).equals (stored.get schema.idColumn) = false := by
  obtain ⟨hrows, hothers⟩ := rows_insert h
  intro row hrow
  refine Bool.eq_false_iff.2 fun hequals => ?_
  have hne := (SqlValue.equals_iff.1 hequals).1
  have hbefore : row ∈ db.rows table := by
    by_cases ht : table = schema.tableName
    · subst ht
      rcases List.mem_cons.1 (hrows.subset hrow) with rfl | hrow
      · exact absurd (get_eq_null_of_insert hc hdb hs h (hr.ne_idColumn hc hs) (hnot rfl)) hne
      · exact hrow
    · rwa [hothers table ht] at hrow
  obtain ⟨target, htarget, hkey⟩ :=
    (isKeyOf_of_refers hc hdb.sound hdb.proper hs hr hbefore hne).congr hequals
  -- the inserted row and the row that is referred to have the same primary key
  have hdistinct := (hdb'.distinct_idColumn hc hs).perm hrows.symm
  have hdiffers := (Table.distinct_cons.1 hdistinct).1 target htarget
  rw [Table.sameKey_singleton, SqlValue.equals_comm, hkey] at hdiffers
  cases hdiffers

end

end Database

/-! ## Created rows -/

namespace Session

open Database

variable {row object : Object} {rows objects : List Object}

/-- The columns that a row sets are named after its members. -/
theorem columns_of_row (row : Object) :
    (row.map fun m => (columnName m.1, SqlValue.ofJson m.2)).map (·.1) =
      row.keys.map columnName := by
  rw [Object.keys, List.map_map, List.map_map]
  rfl

theorem regular_of_created (hl : TablesLinked r.tables) (hdb : db.Regular r)
    (h : created schema row r db = .ok (db', object)) : db'.Regular r := by
  obtain ⟨stored, hinsert, -⟩ := created_eq_ok h
  refine ⟨sound_insert hl hdb.sound hinsert, hdb.proper.insert ?_ hinsert⟩
  exact List.forall_mem_map.2 fun m _ => SqlValue.isWritten_ofJson m.2

/-- Rows stay as they are when a row is created. -/
theorem mem_rows_of_created (h : created schema row r db = .ok (db', object)) {table : String}
    {other : Tuple} (ho : other ∈ db.rows table) : other ∈ db'.rows table := by
  obtain ⟨stored, hinsert, -⟩ := created_eq_ok h
  obtain ⟨hrows, hothers⟩ := rows_insert hinsert
  by_cases ht : table = schema.tableName
  · subst ht
    exact hrows.symm.subset (List.mem_cons_of_mem _ ho)
  · rwa [hothers table ht]

theorem rowsStay_of_created (h : created schema row r db = .ok (db', object)) :
    RowsStay r db db' :=
  fun _ _ _ ⟨row, hrow, hid⟩ => ⟨row, mem_rows_of_created h hrow, hid⟩

/-- The identifier of a created row is new. -/
theorem not_hasRow_of_created (hc : r.Creatable) (hdb : db.Regular r) (hdb' : db'.Regular r)
    (hs : schema ∈ r.schemas) (h : created schema row r db = .ok (db', object)) {id : Json}
    (hid : object.get? schema.idField = some id) : ¬db.HasRow schema id := by
  obtain ⟨stored, hinsert, hget⟩ := exists_stored_of_created hc hdb.sound hs h
  obtain rfl := Option.some.inj (hget.symm.trans hid)
  have hrows := (rows_insert hinsert).1
  have hdistinct := (hdb'.distinct_idColumn hc hs).perm hrows.symm
  rintro ⟨other, ho, he⟩
  have hstored : stored ∈ db'.rows schema.tableName := hrows.symm.subset List.mem_cons_self
  have hother : other ∈ db'.rows schema.tableName :=
    hrows.symm.subset (List.mem_cons_of_mem _ ho)
  have hdiffers := (Table.distinct_cons.1 hdistinct).1 other ho
  rw [Table.sameKey_singleton, ← hdb'.ofJson_idOf hc hs hother, he, hdb'.ofJson_idOf hc hs hstored,
    SqlValue.equals_self (hdb'.idColumn_ne_null hc hs hstored)] at hdiffers
  cases hdiffers

namespace Creates

section

variable (hc : r.Creatable) (hs : schema ∈ r.schemas) (hl : TablesLinked r.tables)
  (hdb : db.Regular r) (h : Creates r schema db rows objects db')
include hc hs hl hdb h

omit hc hs in
theorem regular : db'.Regular r := by
  induction h with
  | nil db => exact hdb
  | cons h _ ih => exact ih (regular_of_created hl hdb h)

omit hc hs hl hdb in
theorem mem_rows {table : String} {other : Tuple} (ho : other ∈ db.rows table) :
    other ∈ db'.rows table := by
  induction h with
  | nil db => exact ho
  | cons h _ ih => exact ih (mem_rows_of_created h ho)

omit hc hs hl hdb in
theorem rowsStay : RowsStay r db db' :=
  fun _ _ _ ⟨row, hrow, hid⟩ => ⟨row, h.mem_rows hrow, hid⟩

omit hc hs hl hdb in
theorem length_eq : objects.length = rows.length := by
  induction h with
  | nil db => rfl
  | cons _ _ ih => rw [List.length_cons, List.length_cons, ih]

/-- Each created row is there under the identifier that is answered. -/
theorem hasRow : ∀ object ∈ objects, ∀ id, object.get? schema.idField = some id →
    db'.HasRow schema id := by
  induction h with
  | nil db => exact List.forall_mem_nil _
  | cons hcreated hrest ih =>
    obtain ⟨stored, hinsert, hid⟩ := exists_stored_of_created hc hdb.sound hs hcreated
    refine List.forall_mem_cons.2 ⟨fun id hget => ?_, ih (regular_of_created hl hdb hcreated)⟩
    obtain rfl := Option.some.inj (hid.symm.trans hget)
    exact hrest.rowsStay schema hs _
      ⟨stored, (rows_insert hinsert).1.symm.subset List.mem_cons_self, rfl⟩

/-- The identifiers of created rows are new. -/
theorem not_hasRow : ∀ object ∈ objects, ∀ id, object.get? schema.idField = some id →
    ¬db.HasRow schema id := by
  induction h with
  | nil db => exact List.forall_mem_nil _
  | cons hcreated _ ih =>
    have hmid := regular_of_created hl hdb hcreated
    refine List.forall_mem_cons.2 ⟨fun id hid => ?_, fun object hobject id hid hrow => ?_⟩
    · exact not_hasRow_of_created hc hdb hmid hs hcreated hid
    · exact ih hmid object hobject id hid (rowsStay_of_created hcreated _ hs id hrow)

/-- Rows without a key count for nothing that is counted with this key. -/
theorem tally_eq {c : String × SqlValue} (hm : c ∈ pattern) (hr : r.Refers table c.1 other)
    (hnot : table = schema.tableName → ∀ row ∈ rows, c.1 ∉ row.keys.map columnName) :
    db'.tally table pattern = db.tally table pattern := by
  induction h with
  | nil db => rfl
  | cons hcreated hrest ih =>
    rw [ih (regular_of_created hl hdb hcreated) fun ht row hrow =>
      hnot ht row (List.mem_cons_of_mem _ hrow)]
    obtain ⟨stored, hinsert, -⟩ := created_eq_ok hcreated
    refine tally_insert_of_refers hc hdb hs hinsert hm hr fun ht => ?_
    rw [columns_of_row]
    exact hnot ht _ List.mem_cons_self

end

end Creates

/-! ## Updated rows -/

theorem table_of_keys {filter : Predicate} {rows : KeyQuery}
    (h : (Rendering.keys r schema filter).start = .ok rows) : rows.table = schema.tableName :=
  Rendering.Yields.start (P := fun rows => rows.table = schema.tableName)
    ((Rendering.yields_trivial _).bind fun _ _ => (Rendering.yields_trivial _).bind fun _ _ =>
      Rendering.yields_pure rfl) h

/-- An update sets the given values in the rows that its filter is rendered for. -/
theorem updateRows_of_updated {filter : Predicate} {n : Nat} (hne : row.isEmpty = false)
    (h : updated schema row filter r db = .ok (db', n)) :
    ∃ rows : KeyQuery, (Rendering.keys r schema filter).start = .ok rows ∧
      db.updateRows schema.tableName (db.hasKeyOf rows)
        (row.map fun m => (columnName m.1, SqlValue.ofJson m.2)) = .ok (db', n) := by
  unfold updated at h
  rw [if_neg (by simp [hne])] at h
  obtain ⟨statement, hstatement, h⟩ := bind_eq_ok.1 h
  obtain ⟨values, hvalues, hrows⟩ := bind_eq_ok.1 (mapError_eq_ok.1 hstatement)
  obtain ⟨rows, hkeys, hpure⟩ := bind_eq_ok.1 hrows
  obtain rfl := pure_eq_ok.1 hpure
  obtain rfl := Statement.assignments_eq_ok hvalues
  obtain ⟨⟨⟩, -, hexecute⟩ := bind_eq_ok.1 h
  exact ⟨rows, hkeys, table_of_keys hkeys ▸ mapError_eq_ok.1 hexecute⟩

/-- An update by an identifier sets the given values in the row with the identifier. -/
theorem updateRows_of_idIs (hk : schema.Addressable) {id : Json} {n : Nat}
    (hne : row.isEmpty = false) (h : updated schema row (.idIs schema id) r db = .ok (db', n)) :
    db.updateRows schema.tableName (db.hasKeyOf (.idIs schema id))
      (row.map fun m => (columnName m.1, SqlValue.ofJson m.2)) = .ok (db', n) := by
  obtain ⟨rows, hkeys, hupdate⟩ := updateRows_of_updated hne h
  obtain rfl := Except.ok.inj (hkeys.symm.trans (Rendering.keys_idIs hk))
  exact hupdate

end Session

namespace Database

variable {picked : Tuple → Bool} {n : Nat}

theorem rowsStay_of_updateRows (hc : r.Creatable) (hs : schema ∈ r.schemas) (hdb : db.Regular r)
    (hdb' : db'.Regular r) (h : db.updateRows schema.tableName picked values = .ok (db', n))
    (hid : schema.idColumn ∉ values.map (·.1)) : RowsStay r db db' := by
  refine hdb.rowsStay hdb' hc fun owner ho v => tally_updateRows h fun ht c hm => ?_
  obtain rfl := List.mem_singleton.1 hm
  have hsame := hc.eq_tableOf hs (Registry.tableOf_mem_tables ho) ht
  have hcolumns : owner.idColumn = schema.idColumn := by
    have hfirst := congrArg (fun d : TableDefinition => d.columns.head?.map (·.name)) hsame
    simpa [Registry.tableOf, Schema.keyDefinition] using hfirst
  rwa [hcolumns]

end Database

end ResourceApi
