import ResourceApi.Proofs.Sql.Relinking

/-!
# Writing the same rows of a join table again

To replace the links of a parent in a join table is to delete them and to insert those that are
asked for behind all others. Nothing refers to the rows of a join table, so nothing else changes
(`Database.Rewrites`).

**Theorem (`Association.relink_of_through`).** On the way to a database with the same rows in the
join table, the links of a parent can be replaced by the same links once more. What the deletion
leaves is what it left the first time, so the insertion does the same.

**Theorem (`Association.Rewritable.relink`).** Links of either kind can be written again on the way
to the end of a run, if nothing else is written to their place until then.
-/

namespace ResourceApi

variable {schemas : List Schema} {r : Registry} {a : Association} {join : JoinTable}
  {db mid db' d d' e e' z : Database} {places : List (String × Option String)} {table : String}

namespace Table

variable {t t' : Table} {rows : List Tuple}

/-- Without an assigned key, rows are inserted behind all others. -/
theorem exists_added_of_insertEach (hk : t.assignedKey? = none) (h : t.insertEach rows = .ok t') :
    ∃ added, t' = { t with rows := t.rows ++ added } ∧
      ∀ row ∈ added, ∃ values ∈ rows, row = t.rowOf values := by
  unfold insertEach at h
  induction rows generalizing t with
  | nil =>
    obtain rfl := pure_eq_ok.1 h
    exact ⟨[], by rw [List.append_nil], List.forall_mem_nil _⟩
  | cons values rest ih =>
    rw [List.foldlM_cons] at h
    obtain ⟨next, hnext, h⟩ := bind_eq_ok.1 h
    obtain ⟨row, hrow, hcases⟩ := insertOrSkip_eq_ok hnext
    obtain rfl : row = t.rowOf values := by
      unfold assignKey at hrow
      rw [hk] at hrow
      exact (Except.ok.inj hrow).symm
    rcases hcases with ⟨-, rfl⟩ | ⟨-, rfl⟩
    · have hadd : t.add (t.rowOf values) = { t with rows := t.rows ++ [t.rowOf values] } := by
        rw [add, hk]
      rw [hadd] at h
      obtain ⟨added, rfl, hadded⟩ := ih (t := { t with rows := t.rows ++ [t.rowOf values] }) hk h
      refine ⟨t.rowOf values :: added, by simp, ?_⟩
      refine List.forall_mem_cons.2 ⟨⟨values, List.mem_cons_self, rfl⟩, fun row hm => ?_⟩
      obtain ⟨other, ho, he⟩ := hadded row hm
      exact ⟨other, List.mem_cons_of_mem _ ho, he⟩
    · have hsame : t.rememberKey (t.rowOf values) = t := by
        rw [rememberKey, hk]
        rfl
      rw [hsame] at h
      obtain ⟨added, rfl, hadded⟩ := ih hk h
      refine ⟨added, rfl, fun row hm => ?_⟩
      obtain ⟨other, ho, he⟩ := hadded row hm
      exact ⟨other, List.mem_cons_of_mem _ ho, he⟩

end Table

namespace Database

/-! ## Rewritten tables -/

/-- The databases differ in the rows of one table only. -/
structure Rewrites (table : String) (db db' : Database) : Prop where
  frame : db'.frame = db.frame
  rows : ∀ name, name ≠ table → db'.rows name = db.rows name

theorem Rewrites.trans (h : Rewrites table db mid) (h' : Rewrites table mid db') :
    Rewrites table db db' :=
  ⟨h'.frame.trans h.frame, fun name hn => (h'.rows name hn).trans (h.rows name hn)⟩

/-- A table is replaced by one that remembers the same key. -/
theorem Writes.rewrites {t t' : Table} (h : db.Writes db' table t t')
    (hn : (db.tables.map Table.name).Nodup) (hl : t'.lastKey = t.lastKey) :
    Rewrites table db db' := by
  refine ⟨?_, fun name hname => h.rows_of_ne hname⟩
  rw [h.after, frame, modify, List.map_map]
  refine List.map_congr_left fun u hu => ?_
  rw [Function.comp_apply]
  split
  · rename_i hname
    rw [List.inj_on_of_nodup_map hn hu (mem_of_table? h.before)
      (hname.trans (name_of_table? h.before).symm), h.definition, hl]
  · rfl

/-- Rows have been inserted behind those of the table. -/
structure Appends (db db' : Database) (table : String) (given : List Tuple) (t : Table)
    (added : List Tuple) : Prop where
  writes : db.Writes db' table t { t with rows := t.rows ++ added }
  inserted : t.insertEach given = .ok { t with rows := t.rows ++ added }
  stored : ∀ row ∈ added, ∃ values ∈ given, row = t.rowOf values

namespace Appends

variable {given added : List Tuple} {t : Table} (h : Appends db db' table given t added)
include h

theorem rewrites (hn : (db.tables.map Table.name).Nodup) : Rewrites table db db' :=
  h.writes.rewrites hn rfl

theorem rows : db'.rows table = db.rows table ++ added := by
  rw [h.writes.rows_self, Database.rows, h.writes.before]

/-- The same rows can be inserted in another database with this table. -/
theorem again (hframe : e.frame = db.frame) (hrows : e.rows table = db.rows table) :
    ∃ e', Appends e e' table given t added := by
  obtain ⟨u, hu, hd, hl⟩ := exists_table?_of_frame hframe h.writes.before
  obtain rfl : u = t := by
    have hsame : u.rows = t.rows := by
      rw [Database.rows, Database.rows, hu, h.writes.before] at hrows
      exact hrows
    calc u = ⟨u.definition, u.rows, u.lastKey⟩ := rfl
      _ = t := by rw [hd, hsame, hl]
  exact ⟨_, ⟨hu, rfl, rfl⟩, h.inserted, h.stored⟩

theorem insertLinks {near far : String} {parent : SqlValue} {targets : List SqlValue}
    (hgiven : given = targets.map fun target => [(near, parent), (far, target)])
    (hr : db'.referencesHold = true) :
    ∃ n, db.insertLinks table near far parent targets = .ok (db', n) := by
  have hfor : db.tableFor table = .ok t := by rw [tableFor, h.writes.before]
  unfold Database.insertLinks
  have hchecked : (db.modify table fun _ => { t with rows := t.rows ++ added }).checkReferences =
      .ok db' := by
    rw [← h.writes.after, checkReferences, if_pos hr]
  exact ⟨_, bind_eq_ok.2 ⟨t, hfor, bind_eq_ok.2 ⟨_, hgiven ▸ h.inserted,
    bind_eq_ok.2 ⟨db', hchecked, rfl⟩⟩⟩⟩

end Appends

theorem rewrites_deleteRows (h : db.Unreferenced table) (picked : Tuple → Bool) :
    Rewrites table db (db.deleteRows table picked).1 := by
  refine ⟨?_, fun name hn => ?_⟩
  · rw [frame, tables_deleteRows, List.map_map]
    rfl
  · rw [rows_deleteRows_of_unreferenced h]
    simp [hn]

section

variable (hnot : table ∉ r.schemas.map (·.tableName))
include hnot

theorem Rewrites.parallel (h : Rewrites table db db') : Parallel r db db' := by
  refine ⟨h.frame, fun schema hs => ?_⟩
  rw [h.rows schema.tableName fun hn => hnot (List.mem_map.2 ⟨schema, hs, hn⟩)]

theorem Rewrites.sameBeside (h : Rewrites table db db') (hdb : db.Regular r) (hc : r.Creatable) :
    SameBeside r [(table, none)] db db' where
  parallel := h.parallel hnot
  cells schema hs row hrow row' hrow' hid column _ := by
    rw [h.rows schema.tableName fun hn => hnot (List.mem_map.2 ⟨schema, hs, hn⟩)] at hrow'
    exact (SameBeside.refl hdb hc []).cells schema hs row hrow row' hrow' hid column
      List.not_mem_nil
  joins name _ hplaces := h.rows name fun hn => hplaces (List.mem_singleton.2 (by rw [hn]))

/-- A join table is rewritten in both runs, as it is at the end. -/
theorem Between.rewrite (hb : Between r d e z) (hd : Rewrites table d d') (he : Rewrites table e e')
    (hrows : e'.rows table = z.rows table) : Between r d' e' z where
  first := (hd.parallel hnot).symm.trans hb.first
  second := (he.parallel hnot).symm.trans hb.second
  cells schema hs := by
    have hn : schema.tableName ≠ table := fun hn => hnot (List.mem_map.2 ⟨schema, hs, hn⟩)
    rw [hd.rows _ hn, he.rows _ hn]
    exact hb.cells schema hs
  joins name hname := by
    by_cases hn : name = table
    · rw [hn, hrows]
    · rw [he.rows name hn]
      exact hb.joins name hname

end

end Database

/-! ## Links that are rows -/

namespace Association

open Database

/-- The database without the rows of a join table that link the parent. -/
def unlinked (db : Database) (join : JoinTable) (parent : Json) : Database :=
  (db.deleteRows join.table fun row =>
    db.guardHolds join.table row (.equals (columnName join.sourceKey) (.ofJson parent))).1

variable {parent : Json} {ids : List Json} {n : Nat} {t : Table}

/-- The links of a parent are deleted, and then inserted if there are any. -/
theorem executes_ofLinks_iff (hk : a.kind = .hasManyThrough join) :
    db.Executes (Statement.ofLinks a parent ids true) db' ↔
      ids.isEmpty = true ∧ db' = unlinked db join parent ∨ ids.isEmpty = false ∧
        ∃ m, (unlinked db join parent).insertLinks join.table (columnName join.sourceKey)
          (columnName join.targetKey) (.ofJson parent) (ids.map .ofJson) = .ok (db', m) := by
  have hdelete : db.execute (.deleteLinks join.table (columnName join.sourceKey) (.ofJson parent)) =
      .ok (unlinked db join parent, _) := rfl
  rw [ofLinks_of_through hk, if_pos rfl, List.singleton_append]
  constructor
  · intro h
    cases h with
    | cons he h =>
      obtain rfl := congrArg Prod.fst (Except.ok.inj he)
      exact executes_unless_iff.1 h
  · intro h
    exact .cons hdelete (executes_unless_iff.2 h)

section

variable
  (h : Registry.assemble schemas = .ok r) (hc : r.Creatable) (ha : a ∈ r.associations)
  (hk : a.kind = .hasManyThrough join)
include h hc ha hk

theorem notMem_tableNames : join.table ∉ r.schemas.map (·.tableName) := by
  intro hm
  obtain ⟨schema, hs, hn⟩ := List.mem_map.1 hm
  exact hc.tableName_ne h ha hk hs hn

theorem exists_joinTableOf (hdb : db.Intact r) (ht : db.table? join.table = some t) :
    ∃ first made, t.definition = Registry.joinTableOf first made := by
  have hm := hdb.regular.sound.mem_definitions (mem_of_table? ht)
  rcases Registry.mem_tables hm with ⟨schema, hs, hd⟩ | ⟨first, made, -, hd⟩
  · have hname : t.definition.name = join.table := name_of_table? ht
    rw [hd] at hname
    exact absurd hname (hc.tableName_ne h ha hk hs)
  · exact ⟨first, made, hd⟩

/-- The join table assigns no keys. -/
theorem assignedKey?_of_through (hdb : db.Intact r) (ht : db.table? join.table = some t) :
    t.assignedKey? = none := by
  obtain ⟨first, made, hd⟩ := exists_joinTableOf h hc ha hk hdb ht
  simp [Table.assignedKey?, hd, Registry.joinTableOf, Registry.joinColumn]

/-- A row that is stored from a value is picked by this value. -/
theorem equals_of_through (hdb : db.Intact r) (ht : db.table? join.table = some t) {column : String}
    (hcolumn : db.hasColumn join.table column = true) {values : Tuple}
    (hrow : t.rowOf values ∈ db.rows join.table) :
    db.guardHolds join.table (t.rowOf values) (.equals column (values.get column)) = true := by
  obtain ⟨first, made, hd⟩ := exists_joinTableOf h hc ha hk hdb ht
  have hm := mem_of_table? ht
  rw [hasColumn, ht] at hcolumn
  obtain ⟨c, hfind⟩ := Option.isSome_iff_exists.1 hcolumn
  have hfound : t.definition.columns.find? (·.name = column) = some c := hfind
  obtain rfl : c.name = column := by simpa using List.find?_some hfound
  have hmem := List.mem_of_find?_eq_some hfound
  rw [rows, ht] at hrow
  have hfilled := ((hdb.regular.sound.tables t hm).rows _ hrow).filled c hmem
  obtain ⟨type, htype, hrequired⟩ :
      ∃ type, c.affinity = .ofKey type ∧ .notNull ∈ c.constraints := by
    rw [hd] at hmem
    rcases List.mem_cons.1 hmem with rfl | hmem
    · exact ⟨_, rfl, List.mem_cons_self⟩
    · obtain rfl := List.mem_singleton.1 hmem
      exact ⟨_, rfl, List.mem_cons_self⟩
  have haffinity : t.affinity c.name = .ofKey type :=
    (affinity_of_mem hc (hdb.regular.sound.mem_definitions hm) hmem).trans htype
  have hkept : db.affinity join.table c.name = .ofKey type := by
    rw [affinity, ht]
    exact haffinity
  have hvalue : (t.rowOf values).get c.name = (Affinity.ofKey type).store (values.get c.name) := by
    rw [Table.get_rowOf, if_pos (List.mem_map_of_mem hmem), haffinity]
  have hne : (Affinity.ofKey type).store (values.get c.name) ≠ .null := by
    rw [← hvalue]
    simpa [ColumnDefinition.acceptsNull, hrequired] using hfilled
  rw [guardHolds, hkept, hvalue]
  exact Affinity.equals_store_ofKey type (Affinity.convert_ne_null type hne)

omit hk in
theorem rows_unlinked (hk : a.kind = .hasManyThrough join) (hdb : db.Intact r) :
    (unlinked db join parent).rows join.table = (db.rows join.table).filter fun row =>
      !db.guardHolds join.table row (.equals (columnName join.sourceKey) (.ofJson parent)) := by
  rw [unlinked, rows_deleteRows_of_unreferenced
    (unreferenced_of_through h hc hdb.regular.sound.definitions ha hk)]
  simp

theorem rewrites_unlinked (parent : Json) (hdb : db.Intact r) :
    Rewrites join.table db (unlinked db join parent) :=
  rewrites_deleteRows (unreferenced_of_through h hc hdb.regular.sound.definitions ha hk) _

omit ha hk in
theorem intact_unlinked (join : JoinTable) (parent : Json) (hdb : db.Intact r) :
    (unlinked db join parent).Intact r := by
  have hdelete : db.execute (.deleteLinks join.table (columnName join.sourceKey) (.ofJson parent)) =
      .ok (unlinked db join parent, _) := rfl
  exact hdb.execute (Registry.tablesLinked h hc) (List.forall_mem_nil _) hdelete

/-- The insertion of links appends rows. -/
theorem exists_appends_of_insertLinks {parent : SqlValue} {targets : List SqlValue} {n : Nat}
    (hdb : db.Intact r) {near far : String}
    (hi : db.insertLinks join.table near far parent targets = .ok (db', n)) :
    ∃ t added, Appends db db' join.table
      (targets.map fun target => [(near, parent), (far, target)]) t added := by
  obtain ⟨t, t', hwrites, hinserted⟩ := writes_insertLinks hi
  obtain ⟨added, rfl, hadded⟩ := Table.exists_added_of_insertEach
    (assignedKey?_of_through h hc ha hk hdb hwrites.before) hinserted
  exact ⟨t, added, hwrites, hinserted, hadded⟩

/-- **What is deleted at the end of a run has been inserted in it.** -/
theorem rows_unlinked_of_executes (hd : d.Intact r)
    (hcolumn : ids.isEmpty = false → d.hasColumn join.table (columnName join.sourceKey) = true)
    (hx : d.Executes (Statement.ofLinks a parent ids true) d') :
    (unlinked d' join parent).rows join.table = (unlinked d join parent).rows join.table := by
  have hd' := hd.executes (Registry.tablesLinked h hc) hx (List.Subset.refl _)
  have hfirst := rewrites_unlinked h hc ha hk parent hd
  rw [rows_unlinked h hc ha hk hd']
  rcases (executes_ofLinks_iff hk).1 hx with ⟨-, rfl⟩ | ⟨hids, m, hinsert⟩
  · rw [rows_unlinked h hc ha hk hd, guardHolds_of_frame hfirst.frame]
    simp
  · have hunlinked := intact_unlinked h hc join parent hd
    obtain ⟨t, added, happends⟩ := exists_appends_of_insertLinks h hc ha hk hunlinked hinsert
    have hrewrites := happends.rewrites (nodup_names hunlinked.regular.sound.definitions hc)
    have hframe := hrewrites.frame.trans hfirst.frame
    have hcolumn' : d'.hasColumn join.table (columnName join.sourceKey) = true := by
      rw [hasColumn_of_definitions (definitions_of_frame hframe)]
      exact hcolumn hids
    -- the rows that have been left do not meet the guard, and those that have been added do
    have hleft : ∀ row ∈ (unlinked d join parent).rows join.table, d'.guardHolds join.table row
        (.equals (columnName join.sourceKey) (.ofJson parent)) = false := by
      rw [rows_unlinked h hc ha hk hd, guardHolds_of_frame hframe]
      intro row hrow
      simpa using (List.mem_filter.1 hrow).2
    have hpicked : ∀ row ∈ added, d'.guardHolds join.table row
        (.equals (columnName join.sourceKey) (.ofJson parent)) = true := by
      intro row hrow
      obtain ⟨u, hu, hdu, -⟩ := exists_table?_of_frame hrewrites.frame happends.writes.before
      obtain ⟨values, hvalues, rfl⟩ := happends.stored row hrow
      obtain ⟨id, -, rfl⟩ := List.mem_map.1 hvalues
      have hrowOf : u.rowOf = t.rowOf := by
        funext values
        rw [Table.rowOf, Table.rowOf, hdu]
      have hequals := equals_of_through h hc ha hk hd' hu hcolumn'
        (by rw [happends.rows, hrowOf]; exact List.mem_append_right _ hrow)
      simpa [Tuple.get, hrowOf] using hequals
    rw [happends.rows, List.filter_append, List.filter_eq_self.2 (by simpa using hleft),
      List.filter_eq_nil_iff.2 (by simpa using hpicked), List.append_nil]

/-- Links that are rows are written to their table only. -/
theorem sameBeside_of_through (hd : d.Intact r)
    (hx : d.Executes (Statement.ofLinks a parent ids true) d') : SameBeside r [a.place] d d' := by
  have hnot := notMem_tableNames h hc ha hk
  have hfirst := rewrites_unlinked h hc ha hk parent hd
  rw [place, hk]
  rcases (executes_ofLinks_iff hk).1 hx with ⟨-, rfl⟩ | ⟨-, m, hinsert⟩
  · exact hfirst.sameBeside hnot hd.regular hc
  · have hunlinked := intact_unlinked h hc join parent hd
    obtain ⟨t, added, happends⟩ := exists_appends_of_insertLinks h hc ha hk hunlinked hinsert
    have hrewrites := happends.rewrites (nodup_names hunlinked.regular.sound.definitions hc)
    exact (hfirst.trans hrewrites).sameBeside hnot hd.regular hc

theorem relink_of_through (hb : Between r d e z) (hd : d.Intact r) (he : e.Intact r)
    (hz : z.Intact r)
    (hcolumn : ids.isEmpty = false → d.hasColumn join.table (columnName join.sourceKey) = true)
    (hx : d.Executes (Statement.ofLinks a parent ids true) d')
    (hrows : z.rows join.table = d'.rows join.table) :
    ∃ e', e.Executes (Statement.ofLinks a parent ids true) e' ∧ Between r d' e' z := by
  have hnot := notMem_tableNames h hc ha hk
  have hd' := hd.executes (Registry.tablesLinked h hc) hx (List.Subset.refl _)
  have hframe : e.frame = d.frame := hb.second.frame.symm.trans hb.first.frame
  have hfirst := rewrites_unlinked h hc ha hk parent hd
  have hsecond := rewrites_unlinked h hc ha hk parent he
  -- the second deletion leaves what the first one has left
  have hleft : (unlinked e join parent).rows join.table =
      (unlinked d join parent).rows join.table := by
    have hsame : e.rows join.table = d'.rows join.table := (hb.joins _ hnot).trans hrows
    have hguards : e.guardHolds = d'.guardHolds := guardHolds_of_frame (hframe.trans
      (sameBeside_of_through h hc ha hk hd hx).parallel.frame.symm)
    rw [← rows_unlinked_of_executes h hc ha hk hd hcolumn hx, rows_unlinked h hc ha hk he,
      rows_unlinked h hc ha hk hd', hsame, hguards]
  rcases (executes_ofLinks_iff hk).1 hx with ⟨hids, rfl⟩ | ⟨hids, m, hinsert⟩
  · exact ⟨_, (executes_ofLinks_iff hk).2 (.inl ⟨hids, rfl⟩),
      hb.rewrite hnot hfirst hsecond (hleft.trans hrows.symm)⟩
  · have hunlinked := intact_unlinked h hc join parent hd
    have hunlinked' := intact_unlinked h hc join parent he
    obtain ⟨t, added, happends⟩ := exists_appends_of_insertLinks h hc ha hk hunlinked hinsert
    have hrewrites := happends.rewrites (nodup_names hunlinked.regular.sound.definitions hc)
    obtain ⟨e', hagain⟩ := happends.again
      (hsecond.frame.trans (hframe.trans hfirst.frame.symm)) hleft
    have hrewrites' := hagain.rewrites (nodup_names hunlinked'.regular.sound.definitions hc)
    have hafter : e'.rows join.table = z.rows join.table := by
      rw [hagain.rows, hleft, ← happends.rows, hrows]
    have hnext := hb.rewrite hnot (hfirst.trans hrewrites) (hsecond.trans hrewrites') hafter
    have hdefinitions := definitions_of_frame (hsecond.trans hrewrites').frame
    obtain ⟨n, hinsert'⟩ := hagain.insertLinks rfl
      (hnext.referencesHold h hc (hdefinitions.trans he.regular.sound.definitions) hz)
    exact ⟨e', (executes_ofLinks_iff hk).2 (.inr ⟨hids, n, hinsert'⟩), hnext⟩

end

/-! ## Links of either kind -/

/-- Links of the association are written after the row, and not to a primary key. -/
structure Rewritable (r : Registry) (a : Association) : Prop where
  declared : a ∈ r.associations
  kind : ∀ key, a.kind ≠ .belongsTo key
  free : ∀ key, a.HasKey key → columnName key ≠ a.target.idColumn

namespace Rewritable

variable (ha : a.Rewritable r) (h : Registry.assemble schemas = .ok r) (hc : r.Creatable)
include ha h hc

/-- Links are written to their place only. -/
theorem sameBeside (hd : d.Intact r) (hx : d.Executes (Statement.ofLinks a parent ids true) d') :
    SameBeside r [a.place] d d' := by
  have ht := (Registry.coherent_of_assemble h).target a ha.declared
  have hl := Registry.tablesLinked h hc
  cases hk : a.kind with
  | belongsTo key => exact absurd hk (ha.kind key)
  | hasOne key => exact sameBeside_of_hasKey hc ht (ha.free key (.inl hk)) hl (.inl hk) hd hx
  | hasMany key => exact sameBeside_of_hasKey hc ht (ha.free key (.inr hk)) hl (.inr hk) hd hx
  | hasManyThrough join => exact sameBeside_of_through h hc ha.declared hk hd hx

/-- **Links can be written again on the way to the end of a run**, if nothing else is written to
their place until then. -/
theorem relink (hb : Between r d e z) (hd : d.Intact r) (he : e.Intact r) (hz : z.Intact r)
    (hcolumn : ∀ join, a.kind = .hasManyThrough join → ids.isEmpty = false →
      d.hasColumn join.table (columnName join.sourceKey) = true)
    (hx : d.Executes (Statement.ofLinks a parent ids true) d')
    (hsame : SameBeside r places d' z) (hnot : a.place ∉ places) :
    ∃ e', e.Executes (Statement.ofLinks a parent ids true) e' ∧ Between r d' e' z := by
  have ht := (Registry.coherent_of_assemble h).target a ha.declared
  cases hk : a.kind with
  | belongsTo key => exact absurd hk (ha.kind key)
  | hasOne key =>
    exact relink_of_hasKey hc ht (ha.free key (.inl hk)) h (.inl hk) hb hd he hz hx hsame hnot
  | hasMany key =>
    exact relink_of_hasKey hc ht (ha.free key (.inr hk)) h (.inr hk) hb hd he hz hx hsame hnot
  | hasManyThrough join =>
    rw [place, hk] at hnot
    exact relink_of_through h hc ha.declared hk hb hd he hz (hcolumn join hk) hx
      (hsame.joins _ (notMem_tableNames h hc ha.declared hk) hnot)

end Rewritable

end Association

end ResourceApi
