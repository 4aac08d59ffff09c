import ResourceApi.Proofs.Sql.Updates
import ResourceApi.Proofs.Store.Created

/-!
# Databases on the way to another

To run statements again on what they have led to is to follow two runs side by side. Databases are
*parallel* when they differ in values only: they have the same frame, and the rows of schemas have
the same primary keys, in the same order (`Database.Parallel`). The second run is *between* the
first one and its end when each of its values is final already or, in a column of an attribute that
may hold a value twice, the same as in the first run (`Database.Between`).

**Theorem (`Database.Between.referencesHold`).** Its references hold, as they do at the end.

**Theorem (`Database.Between.updateRows`).** An update of the first run succeeds in the second run
as well, if there it leads to such values.

**Theorem (`Database.Between.eq`).** Where the first run is at its end, so is the second one.
-/

namespace ResourceApi

variable {schemas : List Schema} {r : Registry} {schema : Schema} {column : String} {t : Table}

/-- Rows of the same columns with the same values are the same. -/
theorem Tuple.ext_get {row row' : Tuple} (hn : (row.map (·.1)).Nodup)
    (hc : row.map (·.1) = row'.map (·.1)) (h : ∀ column, row.get column = row'.get column) :
    row = row' := by
  calc row = (row.map (·.1)).map fun column => (column, row.get column) := eq_map_get hn
    _ = (row'.map (·.1)).map fun column => (column, row'.get column) := by simp only [hc, h]
    _ = row' := (eq_map_get (hc ▸ hn)).symm

/-! ## Columns that repeat values -/

namespace Schema

/-- The column holds an attribute of which several rows may have the same value. -/
def Repeats (schema : Schema) (column : String) : Prop :=
  ∃ a ∈ schema.attributes, columnName a.name = column ∧ a.unique = false

namespace Repeats

variable (h : schema.Repeats column) (hc : r.Creatable) (hs : schema ∈ r.schemas)
  {c : ColumnDefinition} (hm : c ∈ (r.tableOf schema).columns) (hn : c.name = column)
include h hc hs hm hn

theorem exists_attribute : ∃ a ∈ schema.attributes, a.unique = false ∧
    c = ⟨columnName a.name, .ofAttribute a.type, a.constraints⟩ := by
  obtain ⟨a, ha, rfl, hu⟩ := h
  have hcolumn : (⟨columnName a.name, .ofAttribute a.type, a.constraints⟩ : ColumnDefinition) ∈
      (r.tableOf schema).columns :=
    List.mem_append_left _ (List.mem_cons_of_mem _ (List.mem_map_of_mem
      (f := fun a : Attribute => (⟨columnName a.name, .ofAttribute a.type, a.constraints⟩ :
        ColumnDefinition)) ha))
  exact ⟨a, ha, hu, List.inj_on_of_nodup_map
    (hc.columnNames _ (Registry.tableOf_mem_tables hs)) hm hcolumn hn⟩

/-- The column identifies no rows. -/
theorem isIdentifying_eq_false : c.isIdentifying = false := by
  obtain ⟨a, -, hu, rfl⟩ := h.exists_attribute hc hs hm hn
  unfold ColumnDefinition.isIdentifying ColumnDefinition.isKey Attribute.constraints
  cases a.nullable <;> cases a.type <;> simp [hu]

/-- The column is no reference. -/
theorem not_references {table target : String} {onDelete : OnDelete} :
    .references table target onDelete ∉ c.constraints := by
  obtain ⟨a, -, hu, rfl⟩ := h.exists_attribute hc hs hm hn
  unfold Attribute.constraints
  cases a.nullable <;> cases a.type <;> simp [hu]

end Repeats

/-- Columns that repeat values are in no key. -/
theorem Repeats.notMem_uniqueKeys (h : schema.Repeats column) (hc : r.Creatable)
    (hs : schema ∈ r.schemas) (hd : t.definition = r.tableOf schema) :
    ∀ key ∈ t.uniqueKeys, column ∉ key := by
  have hnot (c : ColumnDefinition) (hm : c ∈ t.definition.columns)
      (hi : c.isIdentifying = true) : column ≠ c.name := by
    intro hn
    rw [h.isIdentifying_eq_false hc hs (hd ▸ hm) hn.symm] at hi
    cases hi
  intro key hkey
  simp only [Table.uniqueKeys] at hkey
  have hcomposite : t.definition.compositeKey = [] := by
    rw [hd]
    rfl
  rw [hcomposite, List.isEmpty_nil, if_pos rfl, List.append_nil] at hkey
  rcases List.mem_append.1 hkey with hkey | hkey
  · obtain ⟨name, hname, rfl⟩ := List.mem_map.1 hkey
    obtain ⟨c, hfind, rfl⟩ := Option.map_eq_some_iff.1 (Option.mem_toList.1 hname)
    have hassigned : .assignedKey ∈ c.constraints := by simpa using List.find?_some hfind
    rw [List.mem_singleton]
    have hidentifying : c.isIdentifying = true := by
      simp [ColumnDefinition.isIdentifying, hassigned]
    exact hnot c (List.mem_of_find?_eq_some hfind) hidentifying
  · obtain ⟨c, hm, rfl⟩ := List.mem_map.1 (List.mem_reverse.1 hkey)
    obtain ⟨hm, hi⟩ := List.mem_filter.1 hm
    rw [List.mem_singleton]
    exact hnot c hm (by simp [ColumnDefinition.isIdentifying, hi])

theorem Repeats.ne_idColumn (h : schema.Repeats column) (hc : r.Creatable)
    (hs : schema ∈ r.schemas) : column ≠ schema.idColumn := by
  have hd : (⟨r.tableOf schema, [], 0⟩ : Table).definition = r.tableOf schema := rfl
  have hnot := h.notMem_uniqueKeys hc hs hd _ (Database.idColumn_mem_uniqueKeys hd)
  simpa using hnot

end Schema

/-- The column of the schema's table, if there is one, accepts the value. -/
def Registry.AcceptsCell (r : Registry) (schema : Schema) (column : String) (v : SqlValue) : Prop :=
  ∀ c ∈ (r.tableOf schema).columns, c.name = column →
    c.acceptsNull v = true ∧ c.acceptsValue v = true

namespace Database

variable {db mid db' d d' e z : Database} {name : String} {row : Tuple}

/-! ## Parallel databases -/

/-- The databases have the same frame, and rows of the same primary keys in the same order. -/
structure Parallel (r : Registry) (db db' : Database) : Prop where
  frame : db'.frame = db.frame
  ids : ∀ schema ∈ r.schemas, (db'.rows schema.tableName).map (·.get schema.idColumn) =
    (db.rows schema.tableName).map (·.get schema.idColumn)

namespace Parallel

theorem refl (r : Registry) (db : Database) : Parallel r db db := ⟨rfl, fun _ _ => rfl⟩

theorem symm (h : Parallel r db db') : Parallel r db' db :=
  ⟨h.frame.symm, fun schema hs => (h.ids schema hs).symm⟩

theorem trans (h : Parallel r db mid) (h' : Parallel r mid db') : Parallel r db db' :=
  ⟨h'.frame.trans h.frame, fun schema hs => (h'.ids schema hs).trans (h.ids schema hs)⟩

/-- Every row has a counterpart. -/
theorem exists_row (h : Parallel r db db') (hs : schema ∈ r.schemas)
    (hrow : row ∈ db.rows schema.tableName) :
    ∃ row' ∈ db'.rows schema.tableName, row'.get schema.idColumn = row.get schema.idColumn := by
  have hid := List.mem_map_of_mem (f := (·.get schema.idColumn)) hrow
  rw [← h.ids schema hs] at hid
  exact List.mem_map.1 hid

/-- A reference holds alike. -/
theorem referenceHolds (h : Parallel r db db') (hs : schema ∈ r.schemas) (v : SqlValue)
    (onDelete : OnDelete) :
    db'.referenceHolds v (.references schema.tableName schema.idColumn onDelete) =
      db.referenceHolds v (.references schema.tableName schema.idColumn onDelete) := by
  have hany (db : Database) : (db.rows schema.tableName).any
      (db.refers v schema.tableName schema.idColumn) =
        ((db.rows schema.tableName).map (·.get schema.idColumn)).any
          (·.equals ((db.affinity schema.tableName schema.idColumn).convert v)) := by
    rw [List.any_map]
    rfl
  simp only [Database.referenceHolds]
  rw [hany, hany, h.ids schema hs, affinity_of_frame h.frame]

/-- Rows are mapped to rows with the same primary keys. -/
theorem mapRows (hc : r.Creatable) (hs : schema ∈ r.schemas) {f : Tuple → Tuple}
    (hf : ∀ row ∈ db.rows schema.tableName,
      (f row).get schema.idColumn = row.get schema.idColumn) :
    Parallel r db (db.mapRows schema.tableName f) := by
  refine ⟨frame_mapRows db _ f, fun other ho => ?_⟩
  by_cases hn : other.tableName = schema.tableName
  · obtain rfl := hc.eq_of_tableName hs ho hn
    rw [rows_mapRows_self, List.map_map]
    exact List.map_congr_left hf
  · rw [rows_mapRows_of_ne db f hn]

end Parallel

/-! ## Intact databases -/

/-- The database is regular, and its values are those that its columns enumerate. -/
structure Intact (r : Registry) (db : Database) : Prop where
  regular : db.Regular r
  enumerated : db.Enumerated

/-- Tables have names of their own. -/
theorem nodup_names (hd : db.tables.map (·.definition) = r.tables) (hc : r.Creatable) :
    (db.tables.map Table.name).Nodup := by
  have hn := hc.tableNames
  rwa [← hd, List.map_map] at hn

/-- A row has the columns of its table. -/
theorem Intact.columns_of_mem (h : db.Intact r) (hc : r.Creatable) (hs : schema ∈ r.schemas)
    (hrow : row ∈ db.rows schema.tableName) :
    row.map (·.1) = (r.tableOf schema).columns.map (·.name) := by
  obtain ⟨t, ht, hd⟩ := exists_tableOf h.regular.sound.definitions hc.tableNames hs
  rw [rows, ht] at hrow
  rw [← hd]
  exact ((h.regular.proper.kept t (mem_of_table? ht)).rows row hrow).columns

/-- Every value is accepted by its column. -/
theorem Intact.acceptsCell (h : db.Intact r) (hc : r.Creatable) (hs : schema ∈ r.schemas) :
    ∀ row ∈ db.rows schema.tableName, ∀ column, r.AcceptsCell schema column (row.get column) := by
  obtain ⟨t, ht, hd⟩ := exists_tableOf h.regular.sound.definitions hc.tableNames hs
  have hm := mem_of_table? ht
  intro row hrow column c hcolumn hn
  subst hn
  rw [rows, ht] at hrow
  exact ⟨((h.regular.sound.tables t hm).rows row hrow).filled c (hd ▸ hcolumn),
    h.enumerated t hm row hrow c (hd ▸ hcolumn)⟩

/-! ## The way to a database -/

/-- The second database is on the way of the first one to the third: each of its values is as there,
or else as in the first database, in a column that repeats values. -/
structure Between (r : Registry) (d e z : Database) : Prop where
  first : Parallel r d z
  second : Parallel r e z
  cells : ∀ schema ∈ r.schemas, ∀ a ∈ d.rows schema.tableName, ∀ b ∈ e.rows schema.tableName,
    ∀ c ∈ z.rows schema.tableName, a.get schema.idColumn = c.get schema.idColumn →
      b.get schema.idColumn = c.get schema.idColumn → ∀ column,
        b.get column = c.get column ∨ schema.Repeats column ∧ b.get column = a.get column
  joins : ∀ name, name ∉ r.schemas.map (·.tableName) → e.rows name = z.rows name

namespace Between

/-- A run begins at its end when it is repeated. -/
theorem start (hd : Parallel r d z) (hz : z.Regular r) (hc : r.Creatable) : Between r d z z where
  first := hd
  second := .refl r z
  cells schema hs a _ b hb c hcz _ hid column := .inl (by rw [hz.eq_of_get hc hs hb hcz hid])
  joins _ _ := rfl

variable (hb : Between r d e z)
include hb

/-- A row of the second database has counterparts in the other two. -/
theorem exists_rows (hs : schema ∈ r.schemas) {b : Tuple} (hrow : b ∈ e.rows schema.tableName) :
    ∃ a ∈ d.rows schema.tableName, ∃ c ∈ z.rows schema.tableName,
      a.get schema.idColumn = c.get schema.idColumn ∧
        b.get schema.idColumn = c.get schema.idColumn := by
  obtain ⟨c, hcz, hcb⟩ := hb.second.exists_row hs hrow
  obtain ⟨a, had, hac⟩ := hb.first.symm.exists_row hs hcz
  exact ⟨a, had, c, hcz, hac, hcb.symm⟩

/-- What holds of the values of the other two databases holds of the second. -/
theorem forall_cells (hs : schema ∈ r.schemas) {P : String → SqlValue → Prop}
    (hd : ∀ row ∈ d.rows schema.tableName, ∀ column, P column (row.get column))
    (hz : ∀ row ∈ z.rows schema.tableName, ∀ column, P column (row.get column)) :
    ∀ row ∈ e.rows schema.tableName, ∀ column, P column (row.get column) := by
  intro b hrow column
  obtain ⟨a, had, c, hcz, hac, hbc⟩ := hb.exists_rows hs hrow
  rcases hb.cells schema hs a had b hrow c hcz hac hbc column with he | ⟨-, he⟩
  · rw [he]
    exact hz c hcz column
  · rw [he]
    exact hd a had column

/-- **References hold on the way.** -/
theorem referencesHold (h : Registry.assemble schemas = .ok r) (hc : r.Creatable)
    (he : e.tables.map (·.definition) = r.tables) (hz : z.Intact r) : e.referencesHold = true := by
  have hnames := nodup_names he hc
  refine referencesHold_iff.2 fun t ht row hrow c hcolumn k hk => ?_
  cases k with
  | references table column onDelete =>
    have hm : t.definition ∈ r.tables := he ▸ List.mem_map_of_mem ht
    obtain ⟨target, htarget, rfl, rfl⟩ := Registry.reference_target h hm hcolumn hk
    have hfind : e.table? t.name = some t := find?_eq_some_of_nodup hnames ht
    have hrows : e.rows t.name = t.rows := by rw [rows, hfind]
    obtain ⟨u, hu, hd, -⟩ := exists_table?_of_frame hb.second.frame hfind
    have hend (other : Tuple) (ho : other ∈ z.rows t.name) :
        z.referenceHolds (other.get c.name)
          (.references target.tableName target.idColumn onDelete) = true := by
      have ho : other ∈ u.rows := by rwa [rows, hu] at ho
      exact referencesHold_iff.1 hz.regular.sound.references u (mem_of_table? hu) other ho c
        (hd ▸ hcolumn) _ hk
    rw [← hb.second.referenceHolds htarget]
    rcases Registry.mem_tables hm with ⟨schema, hs, hschema⟩ | ⟨a, join, hj, hjoin⟩
    · have hname : t.name = schema.tableName := congrArg TableDefinition.name hschema
      rw [hname] at hrows hend
      rw [← hrows] at hrow
      obtain ⟨a, had, b, hbz, hab, hrb⟩ := hb.exists_rows hs hrow
      rcases hb.cells schema hs a had row hrow b hbz hab hrb c.name with hsame | ⟨hrepeats, -⟩
      · rw [hsame]
        exact hend b hbz
      · exact absurd hk (hrepeats.not_references hc hs (hschema ▸ hcolumn) rfl)
    · have hother : t.name ∉ r.schemas.map (·.tableName) := by
        intro hname
        obtain ⟨schema, hs, hn⟩ := List.mem_map.1 hname
        have hsame := hc.eq_tableOf hs hm hn.symm
        rw [hjoin] at hsame
        have hcomposite := congrArg TableDefinition.compositeKey hsame
        simp [Registry.joinTableOf, Registry.tableOf] at hcomposite
      refine hend row ?_
      rwa [← hb.joins _ hother, hrows]
  | _ => rfl

end Between

/-! ## Updates -/

section

variable {picked : Tuple → Bool} {values : Tuple} {n : Nat} (hc : r.Creatable)
  (hs : schema ∈ r.schemas) (ht : t.definition = r.tableOf schema)
include hc hs ht

/-- An update that keeps primary keys maps the rows of its table. -/
theorem Intact.eq_mapRows (hdb : db.Intact r)
    (hid : ∀ row ∈ db.rows schema.tableName,
      (t.changed picked values row).get schema.idColumn = row.get schema.idColumn)
    (h : db.updateRows schema.tableName picked values = .ok (db', n)) :
    db' = db.mapRows schema.tableName (t.changed picked values) := by
  obtain ⟨u, hu, hd⟩ := exists_tableOf hdb.regular.sound.definitions hc.tableNames hs
  rw [← Table.changed_of_definition (hd.trans ht.symm)] at hid ⊢
  refine Database.eq_mapRows (nodup_names hdb.regular.sound.definitions hc) hu
    (hdb.regular.sound.tables u (mem_of_table? hu)) (fun key hkey row hrow => ?_) h
  obtain rfl := eq_idColumn_of_assignedKey? hd hkey
  exact hid row (by rwa [rows, hu])

omit ht in
/-- Rows are mapped in both runs, and every other table is as it was. -/
theorem Between.mapRows (hb : Between r d e z) {f : Tuple → Tuple}
    (hid : ∀ row, row ∈ d.rows schema.tableName ∨ row ∈ e.rows schema.tableName →
      (f row).get schema.idColumn = row.get schema.idColumn)
    (hcells : ∀ a ∈ d.rows schema.tableName, ∀ b ∈ e.rows schema.tableName,
      ∀ c ∈ z.rows schema.tableName, a.get schema.idColumn = c.get schema.idColumn →
        b.get schema.idColumn = c.get schema.idColumn → ∀ column,
          (f b).get column = c.get column ∨
            schema.Repeats column ∧ (f b).get column = (f a).get column) :
    Between r (d.mapRows schema.tableName f) (e.mapRows schema.tableName f) z where
  first := (Parallel.mapRows hc hs fun row hrow => hid row (.inl hrow)).symm.trans hb.first
  second := (Parallel.mapRows hc hs fun row hrow => hid row (.inr hrow)).symm.trans hb.second
  cells := by
    intro other ho
    by_cases hn : other.tableName = schema.tableName
    · obtain rfl := hc.eq_of_tableName hs ho hn
      rw [rows_mapRows_self, rows_mapRows_self]
      refine List.forall_mem_map.2 fun a had => List.forall_mem_map.2 fun b hbe => ?_
      rw [hid a (.inl had), hid b (.inr hbe)]
      exact hcells a had b hbe
    · rw [rows_mapRows_of_ne d _ hn, rows_mapRows_of_ne e _ hn]
      exact hb.cells other ho
  joins := by
    intro name hname
    rw [rows_mapRows_of_ne e _ fun hn => hname (List.mem_map.2 ⟨schema, hs, hn.symm⟩)]
    exact hb.joins name hname

/-- **An update of the first run succeeds in the second run**, if both keep primary keys and it
leads to values that are on the way. -/
theorem Between.updateRows (h : Registry.assemble schemas = .ok r) (hb : Between r d e z)
    (hd : d.Intact r) (hd' : d'.Intact r) (he : e.Intact r) (hz : z.Intact r)
    (hu : d.updateRows schema.tableName picked values = .ok (d', n))
    (hid : ∀ row, row ∈ d.rows schema.tableName ∨ row ∈ e.rows schema.tableName →
      (t.changed picked values row).get schema.idColumn = row.get schema.idColumn)
    (hcells : ∀ a ∈ d.rows schema.tableName, ∀ b ∈ e.rows schema.tableName,
      ∀ c ∈ z.rows schema.tableName, a.get schema.idColumn = c.get schema.idColumn →
        b.get schema.idColumn = c.get schema.idColumn → ∀ column,
          (t.changed picked values b).get column = c.get column ∨ schema.Repeats column ∧
            (t.changed picked values b).get column = (t.changed picked values a).get column) :
    ∃ e' m, e.updateRows schema.tableName picked values = .ok (e', m) ∧ Between r d' e' z := by
  obtain rfl := hd.eq_mapRows hc hs ht (fun row hrow => hid row (.inl hrow)) hu
  have hnext := hb.mapRows hc hs hid hcells
  obtain ⟨u, hu, hdefinition⟩ := exists_tableOf he.regular.sound.definitions hc.tableNames hs
  have hm := mem_of_table? hu
  have hsound := he.regular.sound.tables u hm
  have hrows : e.rows schema.tableName = u.rows := by rw [rows, hu]
  -- the values of a changed row are accepted in the first run, or they are so at its end
  have haccepted := hnext.forall_cells (P := r.AcceptsCell schema) hs (hd'.acceptsCell hc hs)
    (hz.acceptsCell hc hs)
  rw [rows_mapRows_self, hrows] at haccepted
  have hchanged : u.changed picked values = t.changed picked values :=
    Table.changed_of_definition (hdefinition.trans ht.symm)
  rw [← hchanged] at hcells haccepted hnext ⊢
  have hkeeps : u.KeepsKeys (u.changed picked values) u.rows := by
    intro key hkey column hcolumn row hrow
    have hnot : ¬schema.Repeats column := fun hrepeats =>
      hrepeats.notMem_uniqueKeys hc hs hdefinition key hkey hcolumn
    rw [← hrows] at hrow
    obtain ⟨a, had, c, hcz, hac, hbc⟩ := hb.exists_rows hs hrow
    have hbefore := (hb.cells schema hs a had row hrow c hcz hac hbc column).resolve_right
      fun hr => hnot hr.1
    have hafter := (hcells a had row hrow c hcz hac hbc column).resolve_right fun hr => hnot hr.1
    exact hafter.trans hbefore.symm
  have hreferences := hnext.referencesHold h hc
    ((definitions_of_frame (frame_mapRows e _ _)).trans he.regular.sound.definitions) hz
  refine ⟨_, _, updateRows_of_accepts (nodup_names he.regular.sound.definitions hc) hu hsound
    (he.regular.proper.unique u hm) hkeeps
    (fun row hrow => ⟨fun c hcolumn => ?_, fun key hkey => ?_⟩)
    (fun row hrow c hcolumn => ?_) hreferences, hnext⟩
  · exact (haccepted _ (List.mem_map_of_mem hrow) c.name c (hdefinition ▸ hcolumn) rfl).1
  · obtain ⟨i, hi⟩ := (hsound.rows row hrow).key key hkey
    exact ⟨i, (hkeeps.keepsOrder key hkey row hrow).trans hi⟩
  · exact (haccepted _ (List.mem_map_of_mem hrow) c.name c (hdefinition ▸ hcolumn) rfl).2

end

/-- **At the end of the first run, the second one is there as well.** -/
theorem Between.eq (hb : Between r z e z) (hc : r.Creatable) (he : e.Intact r) (hz : z.Intact r) :
    e = z := by
  refine eq_of_frame (nodup_names hz.regular.sound.definitions hc) hb.second.frame.symm
    fun name => ?_
  by_cases hname : name ∈ r.schemas.map (·.tableName)
  · obtain ⟨schema, hs, rfl⟩ := List.mem_map.1 hname
    have hids := hb.second.ids schema hs
    have hnodup := hc.columnNames _ (Registry.tableOf_mem_tables hs)
    have hlength : (e.rows schema.tableName).length = (z.rows schema.tableName).length := by
      simpa using congrArg List.length hids.symm
    refine List.ext_getElem hlength fun i hi hi' => ?_
    have hb' := List.getElem_mem hi
    have hz' := List.getElem_mem hi'
    have hid : (e.rows schema.tableName)[i].get schema.idColumn =
        (z.rows schema.tableName)[i].get schema.idColumn := by
      have hget := List.getElem_of_eq hids (i := i) (by simpa using hi')
      simpa using hget.symm
    have hcolumns := he.columns_of_mem hc hs hb'
    refine Tuple.ext_get (hcolumns ▸ hnodup) (hcolumns.trans (hz.columns_of_mem hc hs hz').symm)
      fun column => ?_
    rcases hb.cells schema hs _ hz' _ hb' _ hz' rfl hid column with hsame | ⟨-, hsame⟩ <;>
      exact hsame
  · exact hb.joins name hname

end Database

end ResourceApi
