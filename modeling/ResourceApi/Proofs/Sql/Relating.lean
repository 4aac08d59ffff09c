import ResourceApi.Proofs.Sql.Meaning
import ResourceApi.Proofs.Sql.Rejoining

/-!
# What links relate

To replace the links of a parent is to take its links away, and then to add those that are asked
for. What this does is told by the primary keys that an association links (`Database.Links`),
whatever its links have been and whatever the identifiers stand for (`Schema.isKey`).

**Theorem (`Association.links_iff_of_executes`).** Once links are written, the parent is linked to
the rows with one of the identifiers and, where links are added, to those that it was linked to.
Where links are keys, these rows are taken from other parents; all other links stay.

**Theorem (`Association.executes_again`).** The same links can be written again, and this changes
nothing.
-/

namespace ResourceApi

variable {schemas : List Schema} {r : Registry} {schema : Schema} {a : Association}
  {join : JoinTable} {db mid db' d d' : Database} {key : String} {parent : Json}
  {ids ids' : List Json} {replace : Bool} {n : Nat}

/-! ## Identifiers -/

namespace Schema

/-- The value is the primary key that the identifier stands for. -/
def isKey (schema : Schema) (id : Json) (v : SqlValue) : Bool :=
  v.equals ((Affinity.ofKey schema.idType).convert (.ofJson id))

/-- The value is a primary key that one of the identifiers stands for. -/
def isAmong (schema : Schema) (ids : List Json) (v : SqlValue) : Bool :=
  ids.any (schema.isKey · v)

variable {v w : SqlValue}

theorem isKey_congr (h : v.equals w = true) (id : Json) : schema.isKey id v = schema.isKey id w :=
  SqlValue.equals_congr_left h _

/-- An identifier is stored as the primary key that it stands for. -/
theorem equals_store (schema : Schema) (id : Json) (v : SqlValue) :
    ((Affinity.ofKey schema.idType).store (.ofJson id)).equals v = schema.isKey id v := by
  rw [Bool.eq_iff_iff]
  constructor
  · intro h
    have hconvert := Affinity.convert_ne_null schema.idType (SqlValue.equals_iff.1 h).1
    have hstored := Affinity.equals_store_ofKey schema.idType hconvert
    rw [SqlValue.equals_comm] at h
    exact SqlValue.equals_trans h hstored
  · intro h
    have hstored := Affinity.equals_store_ofKey schema.idType (SqlValue.equals_iff.1 h).2.1
    unfold isKey at h
    rw [SqlValue.equals_comm] at h
    exact SqlValue.equals_trans hstored h

end Schema

/-! ## Join tables -/

namespace Table

variable {t t' : Table} {near far : String} {parent target : SqlValue} {targets : List SqlValue}

/-- There is nothing to insert for a link: one of its keys is null, or it is there. -/
def Skips (t : Table) (near far : String) (parent target : SqlValue) : Prop :=
  (t.affinity near).store parent = .null ∨ (t.affinity far).store target = .null ∨
    ∃ row ∈ t.rows, ((t.affinity near).store parent).equals (row.get near) = true ∧
      ((t.affinity far).store target).equals (row.get far) = true

/-- Without an assigned key, rows can always be inserted or left out. -/
theorem exists_insertEach (hk : t.assignedKey? = none) (rows : List Tuple) :
    ∃ t', t.insertEach rows = .ok t' := by
  unfold insertEach
  induction rows generalizing t with
  | nil => exact ⟨t, rfl⟩
  | cons values rest ih =>
    have hassign : t.assignKey (t.rowOf values) = .ok (t.rowOf values) := by rw [assignKey, hk]
    obtain ⟨next, hnext, hd⟩ : ∃ next, t.insertOrSkip values = .ok next ∧
        next.definition = t.definition := by
      cases hcheck : t.check t.rows (t.rowOf values) with
      | ok u =>
        refine ⟨_, bind_eq_ok.2 ⟨_, hassign, ?_⟩, t.definition_add (t.rowOf values)⟩
        rw [hcheck]
        rfl
      | error v =>
        refine ⟨_, bind_eq_ok.2 ⟨_, hassign, ?_⟩, t.definition_rememberKey (t.rowOf values)⟩
        rw [hcheck]
        rfl
    have hknext : next.assignedKey? = none := by rw [assignedKey?, hd, ← assignedKey?, hk]
    obtain ⟨t', hrest⟩ := ih hknext
    exact ⟨t', by rw [List.foldlM_cons]; exact bind_eq_ok.2 ⟨next, hnext, hrest⟩⟩

namespace JoinsBy

variable (h : t.JoinsBy near far)
include h

/-- A row with a null or with the keys of another row is refused. -/
theorem exists_violation {row : Tuple} (hs : row.get near = .null ∨ row.get far = .null ∨
    ∃ other ∈ t.rows, (row.get near).equals (other.get near) = true ∧
      (row.get far).equals (other.get far) = true) : ∃ v, t.check t.rows row = .error v := by
  unfold check
  cases hnull : t.definition.columns.find? fun c => !c.acceptsNull (row.get c.name) with
  | some c => exact ⟨_, rfl⟩
  | none =>
    have hfilled : ∀ name ∈ t.definition.columns.map (·.name), row.get name ≠ .null := by
      intro name hname hn
      obtain ⟨c, hc, rfl⟩ := List.mem_map.1 hname
      have haccepts := List.find?_eq_none.1 hnull c hc
      rw [hn, h.required c hc] at haccepts
      exact haccepts rfl
    obtain ⟨other, hother, hn, hf⟩ :=
      (hs.resolve_left (hfilled near h.hasNear)).resolve_left (hfilled far h.hasFar)
    obtain ⟨key, hkey, hcolumns⟩ := h.primary
    have hsame : sameKey key row other = true := by
      refine List.all_eq_true.2 fun name hname => ?_
      rcases hcolumns name hname with rfl | rfl
      · exact hn
      · exact hf
    have hfind : (t.uniqueKeys.find? fun key => t.rows.any (sameKey key row)).isSome = true :=
      List.find?_isSome.2 ⟨key, hkey, List.any_eq_true.2 ⟨other, hother, hsame⟩⟩
    obtain ⟨found, hfound⟩ := Option.isSome_iff_exists.1 hfind
    dsimp only
    rw [hfound]
    split <;> exact ⟨_, rfl⟩

/-- **Links that are there are not inserted.** -/
theorem insertEach_of_skips (hs : ∀ target ∈ targets, t.Skips near far parent target) :
    t.insertEach (targets.map fun target => [(near, parent), (far, target)]) = .ok t := by
  unfold insertEach
  induction targets with
  | nil => rfl
  | cons target rest ih =>
    obtain ⟨hfirst, hrest⟩ := List.forall_mem_cons.1 hs
    have hskip : t.insertOrSkip [(near, parent), (far, target)] = .ok t := by
      obtain ⟨hnear, hfar⟩ := h.get_rowOf_link parent target
      rw [Skips, ← hnear, ← hfar] at hfirst
      obtain ⟨v, hv⟩ := h.exists_violation hfirst
      unfold insertOrSkip assignKey
      rw [h.unassigned]
      simp only [bind, Except.bind, hv, rememberKey, h.unassigned]
      rfl
    rw [List.map_cons, List.foldlM_cons, hskip]
    exact ih hrest

/-- Links that have been inserted are there. -/
theorem skips_of_insertEach
    (hi : t.insertEach (targets.map fun target => [(near, parent), (far, target)]) = .ok t') :
    ∀ target ∈ targets, t'.Skips near far parent target := by
  intro target htarget
  unfold Skips
  rw [affinity_of_definition (Database.definition_insertEach hi)]
  by_cases hnear : (t.affinity near).store parent = .null
  · exact .inl hnear
  by_cases hfar : (t.affinity far).store target = .null
  · exact .inr (.inl hfar)
  have hself := SqlValue.equals_self hnear
  have hself' := SqlValue.equals_self hfar
  obtain ⟨row, hrow, hp, hq⟩ :=
    (h.links_insertEach hi _ _).2 (.inr ⟨target, htarget, hself, hself'⟩)
  refine .inr (.inr ⟨row, hrow, ?_, ?_⟩)
  · rw [SqlValue.equals_comm]
    exact hp
  · rw [SqlValue.equals_comm]
    exact hq

end JoinsBy

end Table

/-! ## Tables that stay -/

namespace Database

variable {table near far : String} {target : SqlValue} {targets : List SqlValue} {t : Table}

/-- To insert nothing is to leave the database as it is. -/
theorem insertLinks_of_insertEach (hn : (db.tables.map Table.name).Nodup)
    (ht : db.table? table = some t)
    (hi : t.insertEach (targets.map fun v => [(near, target), (far, v)]) = .ok t)
    (hr : db.referencesHold = true) :
    ∃ n, db.insertLinks table near far target targets = .ok (db, n) := by
  have hfor : db.tableFor table = .ok t := by rw [tableFor, ht]
  have hsame : (db.modify table fun _ => t) = db := by
    have htables : ∀ u ∈ db.tables, (if u.name = table then t else u) = u := by
      intro u hu
      split
      · rename_i hname
        exact (List.inj_on_of_nodup_map hn hu (mem_of_table? ht)
          (hname.trans (name_of_table? ht).symm)).symm
      · rfl
    exact congrArg Database.mk ((List.map_congr_left htables).trans (List.map_id _))
  have hchecked : (db.modify table fun _ => t).checkReferences = .ok db := by
    rw [hsame, checkReferences, if_pos hr]
  exact ⟨_, bind_eq_ok.2 ⟨t, hfor, bind_eq_ok.2 ⟨t, hi, bind_eq_ok.2 ⟨db, hchecked, rfl⟩⟩⟩⟩

end Database

/-! ## Links that are keys -/

namespace Association

open Database

variable {p : SqlValue} {row : Tuple}

theorem links_iff_of_hasKey (hk : a.HasKey key) {q : SqlValue} : db.Links a p q ↔
    ∃ row ∈ db.rows a.target.tableName, (row.get (columnName key)).equals p = true ∧
      (row.get a.target.idColumn).equals q = true := by
  rcases hk with hk | hk <;> simp [Database.Links, linkTable, sourceColumn, targetColumn, hk]

theorem storesKeysOf_of_hasKey (hk : a.HasKey key) (hr : a.StoresEnds r) :
    r.StoresKeysOf a.target.tableName (columnName key) a.source := by
  rcases hk with hk | hk <;> simpa [StoresEnds, hk] using hr

section

variable (hk : a.HasKey key) (hc : r.Creatable) (ht : a.target ∈ r.schemas) (hr : a.StoresEnds r)
  (hdb : db.Intact r) (hrow : row ∈ db.rows a.target.tableName)
include hk hc ht hr hdb hrow

omit hr in
/-- A row is linked by its own key. -/
theorem links_row_iff : db.Links a p (row.get a.target.idColumn) ↔
    (row.get (columnName key)).equals p = true := by
  rw [links_iff_of_hasKey hk]
  constructor
  · rintro ⟨other, ho, hp, hid⟩
    obtain rfl := hdb.regular.eq_of_equals hc ht ho hrow hid
    exact hp
  · intro hp
    exact ⟨row, hrow, hp, SqlValue.equals_self (hdb.regular.idColumn_ne_null hc ht hrow)⟩

theorem mem_columns_of_hasKey : columnName key ∈ row.map (·.1) := by
  obtain ⟨referenced, ⟨d, hd, hn, c, hcolumn, hname, -⟩, -⟩ := storesKeysOf_of_hasKey hk hr
  obtain rfl := hc.eq_tableOf ht hd hn
  rw [hdb.columns_of_mem hc ht hrow, ← hname]
  exact List.mem_map_of_mem hcolumn

/-- What a row is linked to once keys are set. -/
theorem links_of_setKey {value : Option SqlValue} {guards : List Guard}
    (h : db.execute (.setKey a.target.tableName (columnName key) value guards) = .ok (db', n)) :
    db'.Links a p (row.get a.target.idColumn) ↔
      if guards.all (db.guardHolds a.target.tableName row) = true
        then ((Affinity.ofKey a.source.idType).store (value.getD .null)).equals p = true
        else db.Links a p (row.get a.target.idColumn) := by
  have hkeys := storesKeysOf_of_hasKey hk hr
  have hne := hkeys.ne_idColumn hc ht
  obtain rfl := hdb.eq_mapRows_of_setKey hc ht hne h
  generalize hf : db.keySet a.target.tableName (columnName key) value guards = f
  have hid (other : Tuple) : (f other).get a.target.idColumn = other.get a.target.idColumn := by
    rw [← hf]
    exact get_keySet_of_ne hne.symm
  have hself := SqlValue.equals_self (hdb.regular.idColumn_ne_null hc ht hrow)
  have hafter : (db.mapRows a.target.tableName f).Links a p (row.get a.target.idColumn) ↔
      ((f row).get (columnName key)).equals p = true := by
    rw [links_iff_of_hasKey hk, rows_mapRows_self]
    constructor
    · rintro ⟨_, hm, hp, hequals⟩
      obtain ⟨other, ho, rfl⟩ := List.mem_map.1 hm
      rw [hid] at hequals
      obtain rfl := hdb.regular.eq_of_equals hc ht ho hrow hequals
      exact hp
    · intro hp
      refine ⟨f row, List.mem_map_of_mem hrow, hp, ?_⟩
      rw [hid]
      exact hself
  rw [hafter, links_row_iff hk hc ht hdb hrow, ← hf]
  unfold keySet
  split
  · rw [Tuple.get_set_self (mem_columns_of_hasKey hk hc ht hr hdb hrow),
      hkeys.affinity hc hdb.regular.sound]
  · rfl

omit hk hr hrow in
theorem all_settingGuards : (a.settingGuards ids).all (db.guardHolds a.target.tableName row) =
    a.target.isAmong ids (row.get a.target.idColumn) := by
  simp only [settingGuards, List.all_cons, List.all_nil, Bool.and_true, guardHolds, List.any_map,
    affinity_idColumn hc hdb.regular.sound ht]
  rfl

/-- The rows of a parent are cleared that have none of the identifiers, unless one of these is null.
-/
theorem all_clearingGuards :
    (a.clearingGuards key parent ids).all (db.guardHolds a.target.tableName row) = true ↔
      a.source.isKey parent (row.get (columnName key)) = true ∧
        a.target.isAmong ids (row.get a.target.idColumn) = false ∧ .null ∉ ids := by
  have hequals : db.guardHolds a.target.tableName row (.equals (columnName key) (.ofJson parent)) =
      a.source.isKey parent (row.get (columnName key)) := by
    rw [guardHolds, (storesKeysOf_of_hasKey hk hr).affinity hc hdb.regular.sound]
    rfl
  have hnull : (ids.map SqlValue.ofJson).contains .null = true ↔ .null ∈ ids := by
    rw [List.contains_iff_mem, List.mem_map]
    simp [Rendering.ofJson_eq_null]
  have hne := hdb.regular.idColumn_ne_null hc ht hrow
  have hamong : (a.settingGuards ids).all (db.guardHolds a.target.tableName row) =
      a.target.isAmong ids (row.get a.target.idColumn) := all_settingGuards hc ht hdb
  simp only [settingGuards, List.all_cons, List.all_nil, Bool.and_true, guardHolds] at hamong
  unfold clearingGuards
  rw [List.all_cons, hequals, Bool.and_eq_true]
  refine and_congr_right fun _ => ?_
  by_cases hempty : ids = []
  · subst hempty
    simp [Schema.isAmong]
  · simp only [List.isEmpty_iff, hempty, if_false, List.all_cons, List.all_nil, Bool.and_true,
      guardHolds, hamong, Bool.and_eq_true, Bool.not_eq_true', ← Bool.not_eq_true, hnull]
    simp [hne, and_comm]

/-- **The named rows are linked to the parent**, and to no other. -/
theorem links_of_setting
    (h : db.execute (.setKey a.target.tableName (columnName key) (some (.ofJson parent))
      (a.settingGuards ids)) = .ok (db', n)) :
    db'.Links a p (row.get a.target.idColumn) ↔
      if a.target.isAmong ids (row.get a.target.idColumn) = true
        then a.source.isKey parent p = true
        else db.Links a p (row.get a.target.idColumn) := by
  rw [links_of_setKey hk hc ht hr hdb hrow h, all_settingGuards hc ht hdb, Option.getD_some,
    a.source.equals_store]

/-- **The links of a parent are taken away**, but for those to named rows. A null among the names
lets them all stay. -/
theorem links_of_clearing
    (h : db.execute (.setKey a.target.tableName (columnName key) none
      (a.clearingGuards key parent ids)) = .ok (db', n)) :
    db'.Links a p (row.get a.target.idColumn) ↔ db.Links a p (row.get a.target.idColumn) ∧
      (a.source.isKey parent p = true → .null ∉ ids →
        a.target.isAmong ids (row.get a.target.idColumn) = true) := by
  rw [links_of_setKey hk hc ht hr hdb hrow h, links_row_iff hk hc ht hdb hrow, Option.getD_none,
    Affinity.store_null]
  have hcleared : (a.clearingGuards key parent ids).all (db.guardHolds a.target.tableName row) =
      true ↔ _ := all_clearingGuards hk hc ht hr hdb hrow
  have hnull : SqlValue.null.equals p = false := rfl
  by_cases hp : (row.get (columnName key)).equals p = true
  · rw [Schema.isKey_congr hp] at hcleared
    simp only [hcleared, hnull, hp]
    cases a.source.isKey parent p <;>
      cases a.target.isAmong ids (row.get a.target.idColumn) <;> simp
  · simp [hp, hnull]

end

/-! ## Links that are rows -/

theorem links_iff_of_through (hk : a.kind = .hasManyThrough join) {q : SqlValue} :
    db.Links a p q ↔ ∃ row ∈ db.rows join.table,
      (row.get (columnName join.sourceKey)).equals p = true ∧
        (row.get (columnName join.targetKey)).equals q = true := by
  simp [Database.Links, linkTable, sourceColumn, targetColumn, hk]

section

variable (h : Registry.assemble schemas = .ok r) (hc : r.Creatable) (ha : a ∈ r.associations)
  (hk : a.kind = .hasManyThrough join) (hr : a.StoresEnds r) (hdb : db.Intact r) {q : SqlValue}
include h hc ha hk hr hdb

/-- **The links of a parent are deleted.** -/
theorem links_unlinked : (unlinked db join parent).Links a p q ↔
    db.Links a p q ∧ a.source.isKey parent p = false := by
  have hguard (row : Tuple) : db.guardHolds join.table row
      (.equals (columnName join.sourceKey) (.ofJson parent)) =
        a.source.isKey parent (row.get (columnName join.sourceKey)) := by
    simp only [StoresEnds, hk] at hr
    rw [guardHolds, hr.1.affinity hc hdb.regular.sound]
    rfl
  rw [links_iff_of_through hk, links_iff_of_through hk, rows_unlinked h hc ha hk hdb]
  constructor
  · rintro ⟨row, hrow, hp, hq⟩
    obtain ⟨hrow, hstays⟩ := List.mem_filter.1 hrow
    rw [hguard, Schema.isKey_congr hp] at hstays
    exact ⟨⟨row, hrow, hp, hq⟩, by simpa using hstays⟩
  · rintro ⟨⟨row, hrow, hp, hq⟩, hother⟩
    refine ⟨row, List.mem_filter.2 ⟨hrow, ?_⟩, hp, hq⟩
    rw [hguard, Schema.isKey_congr hp, hother]
    rfl

/-- **The parent is linked to the named rows as well.** -/
theorem links_of_insertLinks
    (hi : db.insertLinks join.table (columnName join.sourceKey) (columnName join.targetKey)
      (.ofJson parent) (ids.map .ofJson) = .ok (db', n)) :
    db'.Links a p q ↔ db.Links a p q ∨
      a.source.isKey parent p = true ∧ a.target.isAmong ids q = true := by
  obtain ⟨t, t', hwrites, heach⟩ := writes_insertLinks hi
  obtain ⟨u, hu, -, hjoins⟩ := exists_joinsBy hk h hc ha hr hdb.regular
  obtain rfl := Option.some.inj (hwrites.before.symm.trans hu)
  have hrows : db.rows join.table = t.rows := by rw [rows, hu]
  have hnear : t.affinity (columnName join.sourceKey) = .ofKey a.source.idType := by
    simp only [StoresEnds, hk] at hr
    have haffinity := hr.1.affinity hc hdb.regular.sound
    rwa [affinity, hu] at haffinity
  have hfar : t.affinity (columnName join.targetKey) = .ofKey a.target.idType := by
    simp only [StoresEnds, hk] at hr
    have haffinity := hr.2.1.affinity hc hdb.regular.sound
    rwa [affinity, hu] at haffinity
  rw [links_iff_of_through hk, links_iff_of_through hk, hwrites.rows_self, hrows,
    hjoins.links_insertEach heach, hnear, hfar]
  simp only [List.mem_map, exists_exists_and_eq_and, a.source.equals_store, a.target.equals_store,
    Schema.isAmong, List.any_eq_true]
  refine or_congr_right ?_
  constructor
  · rintro ⟨id, hid, hp, hq⟩
    exact ⟨hp, id, hid, hq⟩
  · rintro ⟨hp, id, hid, hq⟩
    exact ⟨id, hid, hp, hq⟩

end

/-! ## Links of either kind -/

/-- Links to other rows than the named ones can be taken away: where they are keys, no name is null.
-/
def Clears (a : Association) (ids : List Json) : Prop := ∀ key, a.HasKey key → .null ∉ ids

theorem hasKey_or_through (hkind : ∀ key, a.kind ≠ .belongsTo key) :
    (∃ key, a.HasKey key) ∨ ∃ join, a.kind = .hasManyThrough join := by
  cases hk : a.kind with
  | belongsTo key => exact absurd hk (hkind key)
  | hasOne key => exact .inl ⟨key, .inl hk⟩
  | hasMany key => exact .inl ⟨key, .inr hk⟩
  | hasManyThrough join => exact .inr ⟨join, rfl⟩

section

variable (h : Registry.assemble schemas = .ok r) (hc : r.Creatable) (ha : a ∈ r.associations)
  (hr : a.StoresEnds r) (hdb : db.Intact r)
include h hc ha hr hdb

theorem links_iff_of_keys (hk : a.HasKey key)
    (he : db.Executes (Statement.ofLinks a parent ids replace) db')
    (hrow : row ∈ db.rows a.target.tableName) :
    db'.Links a p (row.get a.target.idColumn) ↔
      if a.target.isAmong ids (row.get a.target.idColumn) = true
        then a.source.isKey parent p = true
        else db.Links a p (row.get a.target.idColumn) ∧
          (replace = true → .null ∉ ids → a.source.isKey parent p = false) := by
  have ht := (Registry.coherent_of_assemble h).target a ha
  have hne := (storesKeysOf_of_hasKey hk hr).ne_idColumn hc ht
  have hstatements := ofLinks_of_hasKey hk parent ids replace
  rw [hstatements] at he
  obtain ⟨mid, hclear, hset⟩ := he.exists_of_append
  have hmid : mid.Intact r := hdb.executes (Registry.tablesLinked h hc) hclear
    (hstatements ▸ List.subset_append_left _ _)
  obtain ⟨hparallel, hcleared⟩ : Parallel r db mid ∧ (mid.Links a p (row.get a.target.idColumn) ↔
      db.Links a p (row.get a.target.idColumn) ∧ (replace = true → a.source.isKey parent p = true →
        .null ∉ ids → a.target.isAmong ids (row.get a.target.idColumn) = true)) := by
    cases replace with
    | false =>
      cases hclear
      exact ⟨.refl r db, by simp⟩
    | true =>
      obtain ⟨n, hclear⟩ := hclear.of_singleton
      refine ⟨(hdb.sameBeside_of_setKey hc ht hne hclear).parallel, ?_⟩
      rw [links_of_clearing hk hc ht hr hdb hrow hclear]
      simp
  obtain ⟨between, hbetween, hid⟩ := hparallel.exists_row ht hrow
  have hnamed : db'.Links a p (row.get a.target.idColumn) ↔
      if a.target.isAmong ids (row.get a.target.idColumn) = true
        then a.source.isKey parent p = true else mid.Links a p (row.get a.target.idColumn) := by
    rcases executes_unless_iff.1 hset with ⟨hempty, rfl⟩ | ⟨-, n, hset⟩
    · obtain rfl := List.isEmpty_iff.1 hempty
      simp [Schema.isAmong]
    · rw [← hid]
      exact links_of_setting hk hc ht hr hmid hbetween hset
  rw [hnamed, hcleared]
  split
  · rfl
  · rename_i hnot
    cases a.source.isKey parent p <;> simp [hnot]

theorem links_iff_of_rows (hk : a.kind = .hasManyThrough join)
    (he : db.Executes (Statement.ofLinks a parent ids replace) db') {q : SqlValue} :
    db'.Links a p q ↔ db.Links a p q ∧ (replace = true → a.source.isKey parent p = false) ∨
      a.source.isKey parent p = true ∧ a.target.isAmong ids q = true := by
  have hstatements := ofLinks_of_through hk parent ids replace
  rw [hstatements] at he
  obtain ⟨mid, hdelete, hinsert⟩ := he.exists_of_append
  have hmid : mid.Intact r := hdb.executes (Registry.tablesLinked h hc) hdelete
    (hstatements ▸ List.subset_append_left _ _)
  have hdeleted : mid.Links a p q ↔
      db.Links a p q ∧ (replace = true → a.source.isKey parent p = false) := by
    cases replace with
    | false =>
      cases hdelete
      simp
    | true =>
      obtain ⟨n, he⟩ := hdelete.of_singleton
      obtain rfl := congrArg Prod.fst (Except.ok.inj he)
      refine (links_unlinked h hc ha hk hr hdb).trans ?_
      simp
  rcases executes_unless_iff.1 hinsert with ⟨hempty, rfl⟩ | ⟨-, n, hinsert⟩
  · obtain rfl := List.isEmpty_iff.1 hempty
    rw [hdeleted]
    simp [Schema.isAmong]
  · rw [links_of_insertLinks h hc ha hk hr hmid hinsert, hdeleted]

/-- **What is linked once links are written.** -/
theorem links_iff_of_executes (hkind : ∀ key, a.kind ≠ .belongsTo key)
    (he : db.Executes (Statement.ofLinks a parent ids replace) db')
    (hrow : row ∈ db.rows a.target.tableName) :
    db'.Links a p (row.get a.target.idColumn) ↔
      a.source.isKey parent p = true ∧
          a.target.isAmong ids (row.get a.target.idColumn) = true ∨
        db.Links a p (row.get a.target.idColumn) ∧
          (replace = true → a.Clears ids → a.source.isKey parent p = false) ∧
          ((∃ key, a.HasKey key) → a.source.isKey parent p = false →
            a.target.isAmong ids (row.get a.target.idColumn) = false) := by
  rcases hasKey_or_through hkind with hkeys | ⟨join, hk⟩
  · obtain ⟨key, hk⟩ := hkeys
    have hclears : a.Clears ids ↔ .null ∉ ids := ⟨fun hc => hc key hk, fun hc _ _ => hc⟩
    have hkeys : ∃ key, a.HasKey key := ⟨key, hk⟩
    rw [links_iff_of_keys h hc ha hr hdb hk he hrow, hclears]
    cases a.source.isKey parent p <;>
      cases a.target.isAmong ids (row.get a.target.idColumn) <;> simp [hkeys]
  · have hrows : ¬∃ key, a.HasKey key := by simp [HasKey, hk]
    have hclears : a.Clears ids := fun key hkey => absurd ⟨key, hkey⟩ hrows
    rw [links_iff_of_rows h hc ha hr hdb hk he]
    simp only [hrows, hclears, false_implies, true_implies, and_true]
    exact or_comm

end

/-! ## Links that are written again -/

theorem place_of_hasKey (hk : a.HasKey key) :
    a.place = (a.target.tableName, some (columnName key)) := by
  rcases hk with hk | hk <;> rw [place, hk]

section

variable (h : Registry.assemble schemas = .ok r) (hc : r.Creatable) (hd : d.Intact r)
include h hc hd

/-- Keys that are given are given again. -/
theorem sameBeside_and_again_of_hasKey (hk : a.HasKey key) (ht : a.target ∈ r.schemas)
    (hne : columnName key ≠ a.target.idColumn)
    (hx : d.Executes (Statement.ofLinks a parent ids false) d') :
    SameBeside r [a.place] d d' ∧ d'.Executes (Statement.ofLinks a parent ids false) d' := by
  have hl := Registry.tablesLinked h hc
  have hd' := hd.executes hl hx (List.Subset.refl _)
  have hstatements := ofLinks_of_hasKey hk parent ids false
  rw [if_neg Bool.false_ne_true, List.nil_append] at hstatements
  rw [hstatements] at hx ⊢
  rcases executes_unless_iff.1 hx with ⟨hempty, rfl⟩ | ⟨hsome, n, hset⟩
  · exact ⟨.refl hd.regular hc _, hx⟩
  · have hsame := hd.sameBeside_of_setKey hc ht hne hset
    obtain ⟨e, m, hagain, hb⟩ := (Between.start hsame.parallel hd'.regular hc).setKey hc ht hne
      column_of_mem_settingGuards h hd hd' hd' hd' hset (leavesKeys_of_setting hc ht hne hd hset)
    have hexecutes := executes_unless_iff.2 (.inr ⟨hsome, m, hagain⟩)
    obtain rfl := hb.eq hc (hd'.executes hl hexecutes fun _ hm => hstatements ▸ hm) hd'
    exact ⟨place_of_hasKey hk ▸ hsame, hexecutes⟩

/-- Rows of a join table that are inserted are not inserted again. -/
theorem sameBeside_and_again_of_through (ha : a ∈ r.associations)
    (hk : a.kind = .hasManyThrough join) (hr : a.StoresEnds r)
    (hx : d.Executes (Statement.ofLinks a parent ids false) d') :
    SameBeside r [a.place] d d' ∧ d'.Executes (Statement.ofLinks a parent ids false) d' := by
  have hd' := hd.executes (Registry.tablesLinked h hc) hx (List.Subset.refl _)
  have hstatements := ofLinks_of_through hk parent ids false
  rw [if_neg Bool.false_ne_true, List.nil_append] at hstatements
  rw [hstatements] at hx ⊢
  rcases executes_unless_iff.1 hx with ⟨hempty, rfl⟩ | ⟨hsome, n, hinsert⟩
  · exact ⟨.refl hd.regular hc _, hx⟩
  · obtain ⟨t, added, happends⟩ := exists_appends_of_insertLinks h hc ha hk hd hinsert
    have hrewrites := happends.rewrites (nodup_names hd.regular.sound.definitions hc)
    obtain ⟨u, hu, -, hjoins⟩ := exists_joinsBy hk h hc ha hr hd.regular
    obtain rfl := Option.some.inj (happends.writes.before.symm.trans hu)
    have hafter : d'.table? join.table = some { t with rows := t.rows ++ added } := by
      rw [happends.writes.table?, happends.writes.before]
      simp
    have hjoins' : ({ t with rows := t.rows ++ added } : Table).JoinsBy (columnName join.sourceKey)
        (columnName join.targetKey) := hjoins.of_definition rfl
    have hskips := hjoins'.insertEach_of_skips (hjoins.skips_of_insertEach happends.inserted)
    obtain ⟨m, hagain⟩ := insertLinks_of_insertEach (nodup_names hd'.regular.sound.definitions hc)
      hafter hskips hd'.regular.sound.references
    refine ⟨?_, executes_unless_iff.2 (.inr ⟨hsome, m, hagain⟩)⟩
    rw [place, hk]
    exact hrewrites.sameBeside (notMem_tableNames h hc ha hk) hd.regular hc

variable (ha : a ∈ r.associations) (hkind : ∀ key, a.kind ≠ .belongsTo key) (hr : a.StoresEnds r)
include ha hkind hr

omit hd in
theorem rewritable_of_storesEnds : a.Rewritable r where
  declared := ha
  kind := hkind
  free _ hk := (storesKeysOf_of_hasKey hk hr).ne_idColumn hc
    ((Registry.coherent_of_assemble h).target a ha)

/-- Links are written to their place only, whether or not they replace others. -/
theorem sameBeside_of_executes (hx : d.Executes (Statement.ofLinks a parent ids replace) d') :
    SameBeside r [a.place] d d' := by
  have hwrite := rewritable_of_storesEnds h hc ha hkind hr
  cases replace with
  | true => exact hwrite.sameBeside h hc hd hx
  | false =>
    rcases hasKey_or_through hkind with ⟨key, hk⟩ | ⟨join, hk⟩
    · exact (sameBeside_and_again_of_hasKey h hc hd hk
        ((Registry.coherent_of_assemble h).target a ha) (hwrite.free key hk) hx).1
    · exact (sameBeside_and_again_of_through h hc hd ha hk hr hx).1

/-- **Links that are written again are as they were.** -/
theorem executes_again (hx : d.Executes (Statement.ofLinks a parent ids replace) d') :
    d'.Executes (Statement.ofLinks a parent ids replace) d' := by
  have hl := Registry.tablesLinked h hc
  have hd' := hd.executes hl hx (List.Subset.refl _)
  have hwrite := rewritable_of_storesEnds h hc ha hkind hr
  have hsame := sameBeside_of_executes h hc hd ha hkind hr hx
  cases replace with
  | true =>
    have hcolumn : ∀ join, a.kind = .hasManyThrough join → ids.isEmpty = false →
        d.hasColumn join.table (columnName join.sourceKey) = true := by
      intro join hk _
      obtain ⟨t, ht, -, hjoins⟩ := exists_joinsBy hk h hc ha hr hd.regular
      obtain ⟨c, hm, hn⟩ := List.mem_map.1 hjoins.hasNear
      rw [hasColumn, ht, Option.bind_some, Table.column?, List.find?_isSome]
      exact ⟨c, hm, decide_eq_true hn⟩
    have hstart := Between.start hsame.parallel hd'.regular hc
    obtain ⟨e, hagain, hb⟩ := hwrite.relink h hc hstart hd hd' hd' hcolumn hx
      (SameBeside.refl hd'.regular hc []) List.not_mem_nil
    obtain rfl := hb.eq hc (hd'.executes hl hagain (List.Subset.refl _)) hd'
    exact hagain
  | false =>
    rcases hasKey_or_through hkind with ⟨key, hk⟩ | ⟨join, hk⟩
    · exact (sameBeside_and_again_of_hasKey h hc hd hk
        ((Registry.coherent_of_assemble h).target a ha) (hwrite.free key hk) hx).2
    · exact (sameBeside_and_again_of_through h hc hd ha hk hr hx).2

end

end Association

end ResourceApi
