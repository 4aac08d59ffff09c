import ResourceApi.Proofs.Sql.Links
import ResourceApi.Proofs.Sql.Updates

/-!
# What a deletion leaves

A deletion follows the references to the deleted rows, through all tables of the registry.

**Theorem (`Database.loses_deleteRows`).** Picked rows of a schema are lost. In the tables of
schemas, the other rows are left as they are, but for derived keys that hold the primary key of a
deleted row: these are null (`Registry.released`). In join tables those rows are left neither key of
which is the primary key of a deleted row (`Association.keepsLink`). Nothing else is changed.

**Theorem (`Database.Loses.unlinked`).** Afterwards no association links a deleted row, if its keys
refer to its ends: what it links are keys of rows (`Database.isKeyOf_of_links`).

What a deletion does to a row is a fold over the columns of its table, and over the constraints of
each. One column at a time, its value stays or becomes null (`Database.foldlM_releaseColumn`), so
the whole fold is a map over the values of the row (`Database.release_eq_some`).
-/

namespace ResourceApi

/-- Whether a value is the primary key of one of some rows. -/
def Schema.hasKeyAmong (schema : Schema) (rows : List Tuple) (v : SqlValue) : Bool :=
  rows.any fun row => (row.get schema.idColumn).equals v

/-- Whether a column of a schema's table is a derived key for the rows of another. -/
def Registry.isKeyFor (r : Registry) (owner schema : Schema) (column : String) : Bool :=
  (r.foreignKeysOf owner).any fun k => columnName k.field = column && k.references = schema

/-- A row whose derived keys have let go of some rows. -/
def Registry.released (r : Registry) (owner schema : Schema) (deleted : List Tuple)
    (row : Tuple) : Tuple :=
  row.map fun (column, v) =>
    (column, if r.isKeyFor owner schema column && schema.hasKeyAmong deleted v then .null else v)

/-- Whether a row of a join table has no key of some rows. -/
def Association.keepsLink (a : Association) (join : JoinTable) (schema : Schema)
    (deleted : List Tuple) (row : Tuple) : Bool :=
  !(a.source = schema && schema.hasKeyAmong deleted (row.get (columnName join.sourceKey)))
    && !(a.target = schema && schema.hasKeyAmong deleted (row.get (columnName join.targetKey)))

variable {schemas : List Schema} {r : Registry} {db db' : Database} {schema owner : Schema}
  {table : String} {deleted : List Tuple} {picked : Tuple → Bool} {row : Tuple}

/-! ## Released rows -/

namespace Registry

theorem get_released (r : Registry) (owner schema : Schema) (deleted : List Tuple) (row : Tuple)
    (column : String) : (r.released owner schema deleted row).get column =
      if r.isKeyFor owner schema column && schema.hasKeyAmong deleted (row.get column) then .null
      else row.get column := by
  unfold Tuple.get released
  rw [List.find?_map]
  simp only [Function.comp_def]
  cases hfind : row.find? (·.1 = column) with
  | none => simp
  | some m =>
    obtain ⟨name, v⟩ := m
    obtain rfl : name = column := by simpa using List.find?_some hfind
    rfl

/-- A primary key is no derived key. -/
theorem Creatable.isKeyFor_idColumn (hc : r.Creatable) (ho : owner ∈ r.schemas) (schema : Schema) :
    r.isKeyFor owner schema owner.idColumn = false := by
  refine List.any_eq_false.2 fun k hk hboth => ?_
  rw [Bool.and_eq_true, decide_eq_true_eq] at hboth
  exact (refers_of_foreignKey ho hk).ne_idColumn hc ho hboth.1

theorem get_idColumn_released (hc : r.Creatable) (ho : owner ∈ r.schemas) (schema : Schema)
    (deleted : List Tuple) (row : Tuple) :
    (r.released owner schema deleted row).get owner.idColumn = row.get owner.idColumn := by
  rw [get_released, hc.isKeyFor_idColumn ho, Bool.false_and]
  rfl

end Registry

namespace Database

/-! ## One row -/

/-- Whether a constraint is a reference of a value to one of some rows. -/
def refersBy (db : Database) (table : String) (deleted : List Tuple) (v : SqlValue) :
    Constraint → Bool
  | .references target column _ => target = table && db.refersToAny v table column deleted
  | _ => false

/-- Whether a value in a column refers to one of some rows. -/
def refersIn (db : Database) (table : String) (deleted : List Tuple) (c : ColumnDefinition)
    (v : SqlValue) : Bool :=
  c.constraints.any (db.refersBy table deleted v)

theorem refersIn_null (c : ColumnDefinition) : db.refersIn table deleted c .null = false := by
  unfold refersIn
  rw [List.any_eq_false]
  intro k _
  cases k <;> simp [refersBy, refersToAny]

/-- All references of a column follow deletions in the same way. -/
def Follows (action : OnDelete) (c : ColumnDefinition) : Prop :=
  ∀ table column onDelete, .references table column onDelete ∈ c.constraints → onDelete = action

theorem releaseColumn_eq_some {c : ColumnDefinition} (hc : Follows .setNull c) {k : Constraint}
    (hk : k ∈ c.constraints) : db.releaseColumn table deleted c row k =
      some (if db.refersBy table deleted (row.get c.name) k then row.set c.name .null
        else row) := by
  cases k with
  | references target column onDelete =>
    obtain rfl := hc target column onDelete hk
    unfold releaseColumn refersBy
    dsimp only
    split <;> rfl
  | _ => rfl

/-- A column is set to null if a constraint of it is a reference to a deleted row. -/
theorem foldlM_releaseColumn {c : ColumnDefinition} (hc : Follows .setNull c) (row : Tuple) :
    c.constraints.foldlM (db.releaseColumn table deleted c) row =
      some (if db.refersIn table deleted c (row.get c.name) then row.set c.name .null
        else row) := by
  have hfold : ∀ ks ⊆ c.constraints, ∀ row : Tuple,
      ks.foldlM (db.releaseColumn table deleted c) row =
        some (if ks.any (db.refersBy table deleted (row.get c.name)) then row.set c.name .null
          else row) := by
    intro ks hks
    induction ks with
    | nil => exact fun row => rfl
    | cons k rest ih =>
      intro row
      obtain ⟨hk, hrest⟩ := List.cons_subset.1 hks
      rw [List.foldlM_cons, releaseColumn_eq_some hc hk, Option.bind_eq_bind, Option.bind_some,
        ih hrest, List.any_cons]
      by_cases hfirst : db.refersBy table deleted (row.get c.name) k = true
      · -- null refers to nothing, so nothing happens any more
        have hnone : rest.any (db.refersBy table deleted .null) = false := by
          rw [List.any_eq_false]
          intro k _
          cases k <;> simp [refersBy, refersToAny]
        rw [if_pos hfirst, get_set_null, hnone, hfirst]
        rfl
      · rw [if_neg hfirst, Bool.eq_false_iff.2 hfirst, Bool.false_or]
  exact hfold _ (List.Subset.refl _) row

/-- In a row with every column once, to set a column is to map the values. -/
theorem set_null_eq_map (hn : (row.map (·.1)).Nodup) (name : String) (p : SqlValue → Bool) :
    (if p (row.get name) then row.set name .null else row) =
      row.map fun m => (m.1, if name = m.1 && p m.2 then .null else m.2) := by
  by_cases hp : p (row.get name) = true
  · rw [if_pos hp]
    refine List.map_congr_left fun m hm => ?_
    by_cases hname : m.1 = name
    · have hv : p m.2 = true := by rwa [← hname, Tuple.get_of_mem hn hm] at hp
      simp [hname, hv]
    · simp [hname, Ne.symm hname]
  · rw [if_neg hp]
    refine (List.map_id row).symm.trans (List.map_congr_left fun m hm => ?_)
    by_cases hname : m.1 = name
    · have hv : p m.2 = false := by
        rwa [← hname, Tuple.get_of_mem hn hm, Bool.not_eq_true] at hp
      simp [hv]
    · simp [Ne.symm hname]

/-- **What becomes of a row that is not deleted along**: the values that refer to deleted rows
become null. -/
theorem release_eq_some {t : Table} (hc : ∀ c ∈ t.definition.columns, Follows .setNull c)
    (hn : (row.map (·.1)).Nodup) : db.release table deleted t row =
      some (row.map fun m => (m.1, if t.definition.columns.any
        (fun c => c.name = m.1 && db.refersIn table deleted c m.2) then .null else m.2)) := by
  unfold release
  generalize t.definition.columns = columns at hc ⊢
  induction columns generalizing row with
  | nil => simp
  | cons c rest ih =>
    obtain ⟨hfirst, hrest⟩ := List.forall_mem_cons.1 hc
    rw [List.foldlM_cons, foldlM_releaseColumn hfirst, Option.bind_eq_bind, Option.bind_some,
      set_null_eq_map hn c.name (db.refersIn table deleted c),
      ih (by simpa [Function.comp_def] using hn) hrest, List.map_map]
    congr 1
    refine List.map_congr_left fun m _ => ?_
    obtain ⟨column, v⟩ := m
    simp only [Function.comp_apply, List.any_cons]
    by_cases hrefers : (decide (c.name = column) && db.refersIn table deleted c v) = true
    · simp [hrefers, refersIn_null]
    · simp [hrefers]

/-- A row is deleted along if a constraint of a column is a reference to a deleted row. -/
theorem foldlM_releaseColumn_cascade {c : ColumnDefinition} (hc : Follows .cascade c)
    (row : Tuple) : c.constraints.foldlM (db.releaseColumn table deleted c) row =
      if db.refersIn table deleted c (row.get c.name) then none else some row := by
  unfold refersIn
  have hfold : ∀ ks ⊆ c.constraints, ks.foldlM (db.releaseColumn table deleted c) row =
      if ks.any (db.refersBy table deleted (row.get c.name)) then none else some row := by
    intro ks hks
    induction ks with
    | nil => rfl
    | cons k rest ih =>
      obtain ⟨hk, hrest⟩ := List.cons_subset.1 hks
      have hfirst : db.releaseColumn table deleted c row k =
          if db.refersBy table deleted (row.get c.name) k then none else some row := by
        cases k with
        | references target column onDelete =>
          obtain rfl := hc target column onDelete hk
          rfl
        | _ => rfl
      rw [List.foldlM_cons, hfirst, List.any_cons]
      by_cases hrefers : db.refersBy table deleted (row.get c.name) k = true
      · simp [hrefers]
      · simp [hrefers, ih hrest]
  exact hfold _ (List.Subset.refl _)

/-- **What becomes of a row that may be deleted along**: it is if a value refers to a deleted
row. -/
theorem release_eq_ite {t : Table} (hc : ∀ c ∈ t.definition.columns, Follows .cascade c)
    (row : Tuple) : db.release table deleted t row =
      if t.definition.columns.any (fun c => db.refersIn table deleted c (row.get c.name)) then none
      else some row := by
  unfold release
  generalize t.definition.columns = columns at hc ⊢
  induction columns with
  | nil => rfl
  | cons c rest ih =>
    obtain ⟨hfirst, hrest⟩ := List.forall_mem_cons.1 hc
    rw [List.foldlM_cons, foldlM_releaseColumn_cascade hfirst, List.any_cons]
    by_cases hrefers : db.refersIn table deleted c (row.get c.name) = true
    · simp [hrefers]
    · simp [hrefers, ih hrest]

/-! ## Tables of a registry -/

section

variable (h : Registry.assemble schemas = .ok r) (hc : r.Creatable) (hdb : db.Sound r.tables)
  (hp : db.Proper) (hs : schema ∈ r.schemas)

include hc hdb hs in
/-- A value of the kind of a primary key refers to the rows that have it. -/
theorem refersToAny_eq {v : SqlValue} (hv : (Affinity.ofKey schema.idType).convert v = v) :
    db.refersToAny v schema.tableName schema.idColumn deleted = schema.hasKeyAmong deleted v := by
  unfold refersToAny Schema.hasKeyAmong refers
  rw [affinity_idColumn hc hdb hs, hv]
  by_cases hnull : v = .null
  · subst hnull
    simp [SqlValue.equals]
  · simp [hnull]

include hc hdb hs in
/-- A reference to a schema is one to the deleted rows if they are rows of that schema. -/
theorem refersBy_references {target : Schema} (ht : target ∈ r.schemas) {v : SqlValue}
    (hv : (Affinity.ofKey target.idType).convert v = v) (action : OnDelete) :
    db.refersBy schema.tableName deleted v (.references target.tableName target.idColumn action) =
      (decide (target = schema) && schema.hasKeyAmong deleted v) := by
  unfold refersBy
  dsimp only
  by_cases hsame : target = schema
  · subst hsame
    rw [refersToAny_eq hc hdb hs hv]
    simp
  · have hname : target.tableName ≠ schema.tableName := fun hn =>
      hsame (hc.eq_of_tableName hs ht hn)
    simp [hsame, hname]

include h hc hdb hs in
/-- In the table of a schema, the derived keys for rows of another one refer to them. -/
theorem any_refersIn_eq {t : Table} (ht : t.definition = r.tableOf owner) {column : String}
    {v : SqlValue} (hv : (t.affinity column).convert v = v) (ho : owner ∈ r.schemas) :
    (t.definition.columns.any fun c =>
      c.name = column && db.refersIn schema.tableName deleted c v) =
      (r.isKeyFor owner schema column && schema.hasKeyAmong deleted v) := by
  have hkey : ∀ k ∈ r.foreignKeysOf owner, columnName k.field = column →
      db.refersIn schema.tableName deleted (Registry.foreignKeyDefinition k) v =
        (decide (k.references = schema) && schema.hasKeyAmong deleted v) := by
    rintro k hk rfl
    have hreferences := Registry.references_mem h (List.mem_filter.1 hk).1
    have haffinity := affinity_of_mem hc (ht ▸ Registry.tableOf_mem_tables ho)
      (ht ▸ Registry.foreignKeyDefinition_mem hk)
    change t.affinity (columnName k.field) = .ofKey k.references.idType at haffinity
    rw [haffinity] at hv
    unfold refersIn Registry.foreignKeyDefinition
    rw [List.any_cons, List.any_nil, Bool.or_false, refersBy_references hc hdb hs hreferences hv]
  rw [Bool.eq_iff_iff, List.any_eq_true, Bool.and_eq_true]
  constructor
  · rintro ⟨c, hcolumn, hrefers⟩
    rw [Bool.and_eq_true, decide_eq_true_eq] at hrefers
    obtain ⟨rfl, hrefers⟩ := hrefers
    obtain ⟨constraint, hconstraint, hby⟩ := List.any_eq_true.1 hrefers
    cases constraint with
    | references target targetColumn onDelete =>
      obtain ⟨k, hk, rfl⟩ := Registry.reference_tableOf (ht ▸ hcolumn) hconstraint
      rw [hkey k hk rfl, Bool.and_eq_true, decide_eq_true_eq] at hrefers
      exact ⟨List.any_eq_true.2 ⟨k, hk, by simp [Registry.foreignKeyDefinition, hrefers.1]⟩,
        hrefers.2⟩
    | _ => cases hby
  · rintro ⟨hisKey, hamong⟩
    obtain ⟨k, hk, hboth⟩ := List.any_eq_true.1 hisKey
    rw [Bool.and_eq_true, decide_eq_true_eq, decide_eq_true_eq] at hboth
    refine ⟨Registry.foreignKeyDefinition k, ht ▸ Registry.foreignKeyDefinition_mem hk, ?_⟩
    rw [hkey k hk hboth.1, hboth.2, hamong]
    simp [Registry.foreignKeyDefinition, hboth.1]

include h hc hdb hp hs in
/-- Rows of schemas let go of deleted rows. -/
theorem release_schema (ho : owner ∈ r.schemas) {t : Table}
    (ht : db.table? owner.tableName = some t) (hd : t.definition = r.tableOf owner)
    (hrow : row ∈ t.rows) : db.release schema.tableName deleted t row =
      some (r.released owner schema deleted row) := by
  have hkeeps := (hp.kept t (mem_of_table? ht)).rows row hrow
  have hn : (row.map (·.1)).Nodup := by
    rw [hkeeps.columns, hd]
    exact hc.columnNames _ (Registry.tableOf_mem_tables ho)
  have hreleases : ∀ c ∈ t.definition.columns, Follows .setNull c := by
    intro c hcolumn target column onDelete hconstraint
    obtain ⟨k, -, rfl⟩ := Registry.reference_tableOf (hd ▸ hcolumn) hconstraint
    exact (Registry.reference_foreignKeyDefinition hconstraint).2.2
  rw [release_eq_some hreleases hn]
  unfold Registry.released
  congr 1
  refine List.map_congr_left fun m hm => ?_
  obtain ⟨column, v⟩ := m
  have hv : (t.affinity column).convert v = v := by
    have hconverted := (hkeeps.values column).converted
    rwa [Tuple.get_of_mem hn hm] at hconverted
  dsimp only
  rw [any_refersIn_eq h hc hdb hs hd hv ho]

include h hc hdb hp hs in
/-- The tables of schemas after a deletion. -/
theorem rows_deleteRows_schema (ho : owner ∈ r.schemas) :
    (db.deleteRows schema.tableName picked).1.rows owner.tableName =
      ((db.rows owner.tableName).filter fun row => !(owner = schema && picked row)).map
        (r.released owner schema ((db.rows schema.tableName).filter picked)) := by
  obtain ⟨t, ht, hd⟩ := exists_tableOf hdb.definitions hc.tableNames ho
  have hname : (t.name = schema.tableName) = (owner = schema) := by
    rw [name_of_table? ht]
    exact propext ⟨hc.eq_of_tableName hs ho, fun he => he ▸ rfl⟩
  have hrows : db.rows owner.tableName = t.rows := by rw [rows, ht]
  rw [rows, table?_deleteRows, ht, hrows]
  dsimp only [Option.map_some]
  unfold survivors
  simp only [hname]
  refine List.filterMap_eq_map_iff_forall_eq_some.2 fun row hrow => ?_
  exact release_schema h hc hdb hp hs ho ht hd (List.mem_filter.1 hrow).1

include h hc hdb hp hs in
/-- The join tables after a deletion. -/
theorem rows_deleteRows_join {a : Association} {join : JoinTable}
    (hj : (a, join) ∈ r.joinAssociations) :
    (db.deleteRows schema.tableName picked).1.rows join.table =
      (db.rows join.table).filter
        (a.keepsLink join schema ((db.rows schema.tableName).filter picked)) := by
  have hr := Registry.coherent_of_assemble h
  have ha := (Registry.mem_joinAssociations hj).1
  obtain ⟨hsource, htarget⟩ := Registry.refers_of_joinTable hj
  have hm : Registry.joinTableOf a join ∈ r.tables :=
    List.mem_append_right _ (List.mem_map_of_mem (f := fun x => Registry.joinTableOf x.1 x.2) hj)
  obtain ⟨t, ht, hd⟩ := exists_table hdb.definitions hc.tableNames hm
  change db.table? join.table = some t at ht
  have hname : t.name ≠ schema.tableName := by
    intro hn
    have hsame := hc.eq_tableOf hs hm ((congrArg TableDefinition.name hd).symm.trans hn)
    have hkey := congrArg (·.compositeKey) hsame
    cases hkey
  have hcascades : ∀ c ∈ t.definition.columns, Follows .cascade c := by
    intro c hcolumn target column onDelete hconstraint
    obtain ⟨-, -, -, -, haction⟩ := Registry.reference_joinTableOf (hd ▸ hcolumn) hconstraint
    exact haction
  have hrows : db.rows join.table = t.rows := by rw [rows, ht]
  have hrelease : ∀ row ∈ t.rows,
      db.release schema.tableName ((db.rows schema.tableName).filter picked) t row =
        if a.keepsLink join schema ((db.rows schema.tableName).filter picked) row then some row
        else none := by
    intro row hrow
    have hkeeps := ((hp.kept t (mem_of_table? ht)).rows row hrow).values
    have hsource := affinity_of_refers hc hdb hsource
    have htarget := affinity_of_refers hc hdb htarget
    rw [affinity, ht] at hsource htarget
    have hsourceKey := (hkeeps (columnName join.sourceKey)).converted
    have htargetKey := (hkeeps (columnName join.targetKey)).converted
    dsimp only at hsource htarget
    rw [hsource] at hsourceKey
    rw [htarget] at htargetKey
    rw [release_eq_ite hcascades, hd]
    unfold Association.keepsLink Registry.joinTableOf Registry.joinColumn refersIn
    simp only [List.any_cons, List.any_nil, Bool.or_false,
      refersBy_references hc hdb hs (hr.source a ha) hsourceKey,
      refersBy_references hc hdb hs (hr.target a ha) htargetKey]
    simp only [refersBy, Bool.false_or]
    rw [← Bool.not_or]
    cases _ || _ <;> rfl
  rw [rows, table?_deleteRows, ht, hrows]
  dsimp only [Option.map_some]
  unfold survivors
  simp only [hname, decide_false, Bool.false_and, Bool.not_false, List.filter_true]
  exact (List.filterMap_congr hrelease).trans (congrFun List.filterMap_eq_filter t.rows)

/-- Nothing but rows is changed. -/
theorem frame_deleteRows (db : Database) (table : String) (picked : Tuple → Bool) :
    (db.deleteRows table picked).1.frame = db.frame := by
  rw [frame, tables_deleteRows, List.map_map]
  rfl

end

/-! ## Lost rows -/

/-- The second database is the first one without the picked rows of a schema and without the links
of other rows to them. -/
structure Loses (r : Registry) (schema : Schema) (picked : Tuple → Bool) (db db' : Database) :
    Prop where
  frame : db'.frame = db.frame
  rows : ∀ owner ∈ r.schemas, db'.rows owner.tableName =
    ((db.rows owner.tableName).filter fun row => !(owner = schema && picked row)).map
      (r.released owner schema ((db.rows schema.tableName).filter picked))
  joins : ∀ a join, (a, join) ∈ r.joinAssociations → db'.rows join.table =
    (db.rows join.table).filter (a.keepsLink join schema ((db.rows schema.tableName).filter picked))

/-- No association whose keys refer to its ends links the key to another one. -/
def Unlinked (db : Database) (r : Registry) (schema : Schema) (key : SqlValue) : Prop :=
  ∀ a ∈ r.associations, a.RefersToEnds r → ∀ v,
    (a.source = schema → ¬db.Links a key v) ∧ (a.target = schema → ¬db.Links a v key)

section

variable (hc : r.Creatable) (hdb : db.Regular r) (hs : schema ∈ r.schemas)
include hc hdb

include hs in
/-- **What a deletion leaves.** -/
theorem loses_deleteRows (h : Registry.assemble schemas = .ok r) (picked : Tuple → Bool) :
    db.Loses r schema picked (db.deleteRows schema.tableName picked).1 where
  frame := frame_deleteRows db schema.tableName picked
  rows _ ho := rows_deleteRows_schema h hc hdb.sound hdb.proper hs ho
  joins _ _ hj := rows_deleteRows_join h hc hdb.sound hdb.proper hs hj

/-- An association whose keys refer to its ends links keys of rows. -/
theorem isKeyOf_of_links {a : Association} {p q : SqlValue} (hr : a.RefersToEnds r)
    (hs : a.source ∈ r.schemas) (ht : a.target ∈ r.schemas) (hl : db.Links a p q) :
    db.IsKeyOf a.source p ∧ db.IsKeyOf a.target q := by
  obtain ⟨row, hrow, hp, hq⟩ := hl
  -- a value that equals another one is not null
  have hkey {table column : String} {schema : Schema} {v : SqlValue} (hs : schema ∈ r.schemas)
      (hrefers : r.Refers table column schema) (hrow : row ∈ db.rows table)
      (hv : (row.get column).equals v = true) : db.IsKeyOf schema v :=
    (isKeyOf_of_refers hc hdb.sound hdb.proper hs hrefers hrow
      (SqlValue.equals_iff.1 hv).1).congr hv
  unfold Association.RefersToEnds at hr
  unfold Association.linkTable at hrow
  unfold Association.sourceColumn at hp
  unfold Association.targetColumn at hq
  cases hkind : a.kind with
  | belongsTo key =>
    simp only [hkind] at hr hrow hp hq
    exact ⟨⟨row, hrow, hp⟩, hkey ht hr hrow hq⟩
  | hasOne key | hasMany key =>
    simp only [hkind] at hr hrow hp hq
    exact ⟨hkey hs hr hrow hp, row, hrow, hq⟩
  | hasManyThrough join =>
    simp only [hkind] at hr hrow hp hq
    exact ⟨hkey hs hr.1 hrow hp, hkey ht hr.2.1 hrow hq⟩

namespace Loses

variable (hl : db.Loses r schema picked db')
include hs hl

/-- The keys of lost rows are keys of no other rows. -/
theorem not_isKeyOf (hrow : row ∈ db.rows schema.tableName) (hpicked : picked row = true) :
    ¬db'.IsKeyOf schema (row.get schema.idColumn) := by
  rintro ⟨left, hleft, hequals⟩
  rw [hl.rows schema hs] at hleft
  obtain ⟨other, ho, rfl⟩ := List.mem_map.1 hleft
  obtain ⟨ho, hnot⟩ := List.mem_filter.1 ho
  rw [Registry.get_idColumn_released hc hs] at hequals
  obtain rfl := hdb.eq_of_equals hc hs ho hrow hequals
  simp [hpicked] at hnot

/-- **Lost rows are not linked any more.** -/
theorem unlinked (h : Registry.assemble schemas = .ok r) (hdb' : db'.Regular r)
    (hrow : row ∈ db.rows schema.tableName) (hpicked : picked row = true) :
    db'.Unlinked r schema (row.get schema.idColumn) := by
  have hnot := hl.not_isKeyOf hc hdb hs hrow hpicked
  have hr := Registry.coherent_of_assemble h
  intro a ha hrefers v
  have hkeys {p q : SqlValue} (hlinks : db'.Links a p q) :
      db'.IsKeyOf a.source p ∧ db'.IsKeyOf a.target q :=
    isKeyOf_of_links hc hdb' hrefers (hr.source a ha) (hr.target a ha) hlinks
  constructor
  · rintro rfl hlinks
    exact hnot (hkeys hlinks).1
  · rintro rfl hlinks
    exact hnot (hkeys hlinks).2

end Loses

end

end Database

end ResourceApi
