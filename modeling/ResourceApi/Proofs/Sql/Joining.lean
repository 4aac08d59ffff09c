import ResourceApi.Proofs.Sql.Linking

/-!
# Rows of join tables

A join table has the two columns that hold the keys of its rows, and both together are its primary
key (`Table.JoinsBy`). A link that is inserted is left out only if the same link is there.

**Theorem (`Association.linksTo_of_executes`).** Where links are replaced, or where there were none,
a primary key is linked to the given identifiers afterwards, and to no others.
-/

namespace ResourceApi

namespace Table

variable {t t' : Table} {near far : String} {parent : SqlValue}

theorem affinity_of_definition (hd : t'.definition = t.definition) : t'.affinity = t.affinity := by
  funext column
  rw [affinity, affinity, column?, column?, hd]

/-- The two columns are those of a join table. -/
structure JoinsBy (t : Table) (near far : String) : Prop where
  ne : near ≠ far
  hasNear : near ∈ t.definition.columns.map (·.name)
  hasFar : far ∈ t.definition.columns.map (·.name)
  only : ∀ c ∈ t.definition.columns, c.name = near ∨ c.name = far
  unassigned : t.assignedKey? = none
  /-- No column enumerates its values. -/
  accepts : ∀ c ∈ t.definition.columns, ∀ v, c.acceptsValue v = true
  keys : ∀ key ∈ t.uniqueKeys, near ∈ key ∧ far ∈ key
  /-- No column may be null. -/
  required : ∀ c ∈ t.definition.columns, c.acceptsNull .null = false
  primary : ∃ key ∈ t.uniqueKeys, ∀ name ∈ key, name = near ∨ name = far

namespace JoinsBy

variable (h : t.JoinsBy near far)
include h

theorem of_definition (hd : t'.definition = t.definition) : t'.JoinsBy near far where
  ne := h.ne
  hasNear := hd ▸ h.hasNear
  hasFar := hd ▸ h.hasFar
  only := hd ▸ h.only
  unassigned := by
    rw [assignedKey?, hd]
    exact h.unassigned
  accepts := hd ▸ h.accepts
  keys := by
    rw [uniqueKeys_of_definition hd]
    exact h.keys
  required := hd ▸ h.required
  primary := by
    rw [uniqueKeys_of_definition hd]
    exact h.primary

/-- The row of a link. -/
theorem get_rowOf_link (parent target : SqlValue) :
    (t.rowOf [(near, parent), (far, target)]).get near = (t.affinity near).store parent ∧
      (t.rowOf [(near, parent), (far, target)]).get far = (t.affinity far).store target := by
  rw [get_rowOf, get_rowOf, if_pos h.hasNear, if_pos h.hasFar]
  simp [Tuple.get, h.ne]

/-- A row without null is refused only if there is a row with both of its keys. -/
theorem exists_same_of_check {row : Tuple} {v : Violation} (hcheck : t.check t.rows row = .error v)
    (hnear : row.get near ≠ .null) (hfar : row.get far ≠ .null) :
    ∃ other ∈ t.rows, (row.get near).equals (other.get near) = true ∧
      (row.get far).equals (other.get far) = true := by
  have hfilled : ∀ c ∈ t.definition.columns, c.acceptsNull (row.get c.name) = true := by
    intro c hc
    have hne : row.get c.name ≠ .null := by
      rcases h.only c hc with hn | hn <;> rwa [hn]
    simp [ColumnDefinition.acceptsNull, hne]
  unfold check at hcheck
  rw [List.find?_eq_none.2 (by simpa using hfilled),
    List.find?_eq_none.2 (by simpa using fun c hc => h.accepts c hc (row.get c.name))] at hcheck
  dsimp only at hcheck
  split at hcheck
  · rename_i key hkey
    obtain ⟨other, hother, hsame⟩ := List.any_eq_true.1
      (List.find?_some (p := fun key => t.rows.any (sameKey key row)) hkey)
    obtain ⟨hn, hf⟩ := h.keys key (List.mem_of_find?_eq_some hkey)
    exact ⟨other, hother, List.all_eq_true.1 hsame _ hn, List.all_eq_true.1 hsame _ hf⟩
  · cases hcheck

/-- A link that is inserted is there afterwards. -/
theorem links_insertOrSkip {target : SqlValue}
    (hi : t.insertOrSkip [(near, parent), (far, target)] = .ok t') (p q : SqlValue) :
    (∃ row ∈ t'.rows, (row.get near).equals p = true ∧ (row.get far).equals q = true) ↔
      (∃ row ∈ t.rows, (row.get near).equals p = true ∧ (row.get far).equals q = true) ∨
        ((t.affinity near).store parent).equals p = true ∧
          ((t.affinity far).store target).equals q = true := by
  obtain ⟨row, hkey, hrow⟩ := insertOrSkip_eq_ok hi
  unfold assignKey at hkey
  rw [h.unassigned] at hkey
  obtain rfl := Except.ok.inj hkey
  obtain ⟨hnear, hfar⟩ := h.get_rowOf_link parent target
  rw [← hnear, ← hfar]
  generalize t.rowOf [(near, parent), (far, target)] = row at *
  rcases hrow with ⟨-, rfl⟩ | ⟨⟨v, hcheck⟩, rfl⟩
  · simp only [(t.rows_add row).mem_iff, List.mem_cons, exists_eq_or_imp]
    exact or_comm
  · rw [rows_rememberKey]
    refine (or_iff_left_of_imp ?_).symm
    rintro ⟨hp, hq⟩
    obtain ⟨other, hother, hn, hf⟩ := h.exists_same_of_check hcheck (SqlValue.equals_iff.1 hp).1
      (SqlValue.equals_iff.1 hq).1
    exact ⟨other, hother, SqlValue.equals_trans (by rwa [SqlValue.equals_comm]) hp,
      SqlValue.equals_trans (by rwa [SqlValue.equals_comm]) hq⟩

omit h in
/-- **The links of a parent are added to those that are there.** -/
theorem links_insertEach {targets : List SqlValue} (h : t.JoinsBy near far)
    (hi : t.insertEach (targets.map fun target => [(near, parent), (far, target)]) = .ok t')
    (p q : SqlValue) :
    (∃ row ∈ t'.rows, (row.get near).equals p = true ∧ (row.get far).equals q = true) ↔
      (∃ row ∈ t.rows, (row.get near).equals p = true ∧ (row.get far).equals q = true) ∨
        ∃ target ∈ targets, ((t.affinity near).store parent).equals p = true ∧
          ((t.affinity far).store target).equals q = true := by
  unfold insertEach at hi
  induction targets generalizing t with
  | nil =>
    obtain rfl := pure_eq_ok.1 hi
    simp
  | cons target rest ih =>
    rw [List.map_cons, List.foldlM_cons] at hi
    obtain ⟨next, hnext, hi⟩ := bind_eq_ok.1 hi
    have hd : next.definition = t.definition := by
      obtain ⟨row, -, ⟨-, rfl⟩ | ⟨-, rfl⟩⟩ := insertOrSkip_eq_ok hnext
      · exact t.definition_add row
      · exact t.definition_rememberKey row
    rw [ih (h.of_definition hd) hi, h.links_insertOrSkip hnext, affinity_of_definition hd, or_assoc]
    simp only [List.mem_cons, exists_eq_or_imp]

end JoinsBy

end Table

variable {schemas : List Schema} {r : Registry} {db db' : Database} {a : Association}
  {join : JoinTable} {parent : Json} {ids : List Json} {replace : Bool} {p : SqlValue}

theorem Registry.joinsBy_joinTableOf {first : Association} {made : JoinTable} {t : Table}
    (hd : t.definition = joinTableOf first made) {near far : String} (hne : near ≠ far)
    (hnear : near ∈ t.definition.columns.map (·.name))
    (hfar : far ∈ t.definition.columns.map (·.name)) : t.JoinsBy near far := by
  have hunassigned : t.assignedKey? = none := by
    simp [Table.assignedKey?, hd, joinTableOf, joinColumn]
  have hkeys : t.uniqueKeys = [[columnName made.sourceKey, columnName made.targetKey]] := by
    unfold Table.uniqueKeys
    rw [hunassigned, hd]
    simp [joinTableOf, joinColumn, ColumnDefinition.isKey]
  have hcolumns : t.definition.columns.map (·.name) =
      [columnName made.sourceKey, columnName made.targetKey] := by
    rw [hd]
    rfl
  have hboth : ∀ name ∈ t.definition.columns.map (·.name), name = near ∨ name = far := by
    rw [hcolumns] at hnear hfar ⊢
    simp only [List.mem_cons, List.not_mem_nil, or_false] at hnear hfar ⊢
    rcases hnear with rfl | rfl <;> rcases hfar with rfl | rfl <;> simp_all
  refine ⟨hne, hnear, hfar, fun c hc => hboth _ (List.mem_map_of_mem hc), hunassigned, ?_, ?_, ?_,
    ?_⟩
  · rw [hd]
    simp [joinTableOf, joinColumn, ColumnDefinition.acceptsValue, ColumnDefinition.enumerated]
  · rw [hkeys, ← hcolumns]
    exact List.forall_mem_singleton.2 ⟨hnear, hfar⟩
  · rw [hd]
    simp [joinTableOf, joinColumn, ColumnDefinition.acceptsNull]
  · rw [hkeys, ← hcolumns]
    exact ⟨_, List.mem_cons_self, hboth⟩

namespace Association

section

variable (hk : a.kind = .hasManyThrough join) (h : Registry.assemble schemas = .ok r)
  (hc : r.Creatable) (ha : a ∈ r.associations) (hr : a.StoresEnds r) (hdb : db.Regular r)
include hk h hc ha hr hdb

/-- The join table of an association whose keys refer to its ends. -/
theorem exists_joinsBy : ∃ t, db.table? join.table = some t ∧ t ∈ db.tables ∧
    t.JoinsBy (columnName join.sourceKey) (columnName join.targetKey) := by
  simp only [StoresEnds, hk] at hr
  obtain ⟨⟨_, hsource, -⟩, ⟨_, htarget, -⟩, hne⟩ := hr
  obtain ⟨t, ht, hm, -, c, hcolumn, hname, -⟩ := Database.exists_of_refers hc hdb.sound hsource
  obtain ⟨u, hu, -, -, c', hcolumn', hname', -⟩ := Database.exists_of_refers hc hdb.sound htarget
  obtain rfl := Option.some.inj (ht.symm.trans hu)
  refine ⟨t, ht, hm, ?_⟩
  have hnear : columnName join.sourceKey ∈ t.definition.columns.map (·.name) :=
    hname ▸ List.mem_map_of_mem hcolumn
  have hfar : columnName join.targetKey ∈ t.definition.columns.map (·.name) :=
    hname' ▸ List.mem_map_of_mem hcolumn'
  have hdefinition : t.definition ∈ r.tables :=
    hdb.sound.definitions ▸ List.mem_map_of_mem hm
  rcases Registry.mem_tables hdefinition with ⟨schema, hs, hd⟩ | ⟨first, made, -, hd⟩
  · have htable : t.definition.name = join.table := Database.name_of_table? ht
    rw [hd] at htable
    exact absurd htable (hc.tableName_ne h ha hk hs)
  · exact Registry.joinsBy_joinTableOf hd hne hnear hfar

/-- The rows of the join table link to the given identifiers. -/
theorem linksTo_of_through (hs : a.source ∈ r.schemas) (ht : a.target ∈ r.schemas)
    (hids : ∀ id ∈ ids, a.target.HoldsKey (.ofJson id))
    (hp : p.equals ((Affinity.ofKey a.source.idType).convert (.ofJson parent)) = true)
    (hnone : replace = false → ∀ q, ¬db.Links a p q)
    (he : db.Executes (Statement.ofLinks a parent ids replace) db') : db'.LinksTo a p ids := by
  have hlinks (db : Database) (q : SqlValue) : db.Links a p q ↔ ∃ row ∈ db.rows join.table,
      (row.get (columnName join.sourceKey)).equals p = true ∧
        (row.get (columnName join.targetKey)).equals q = true := by
    simp [Database.Links, linkTable, sourceColumn, targetColumn, hk]
  have hstored {db : Database} (hdb : db.Regular r) :
      db.affinity join.table (columnName join.sourceKey) = .ofKey a.source.idType ∧
        db.affinity join.table (columnName join.targetKey) = .ofKey a.target.idType := by
    simpa [linkTable, sourceColumn, targetColumn, hk] using affinity_linkTable hr hc hdb hs ht
  have hstatements := ofLinks_of_through hk parent ids replace
  rw [hstatements] at he
  obtain ⟨mid, hdelete, hinsert⟩ := he.exists_of_append
  have hmid := hdelete.regular_ofLinks (hstatements ▸ List.subset_append_left _ _)
    (Registry.tablesLinked h hc) hdb
  have hnone' : ∀ q, ¬mid.Links a p q := by
    cases replace with
    | false =>
      cases hdelete
      exact hnone rfl
    | true =>
      obtain ⟨n, he⟩ := hdelete.of_singleton
      obtain rfl := congrArg Prod.fst (Except.ok.inj he)
      intro q hq
      obtain ⟨row, hrow, hnear, -⟩ := (hlinks _ q).1 hq
      rw [Database.rows_deleteRows_of_unreferenced
        (Database.unreferenced_of_through h hc hdb.sound.definitions ha hk)] at hrow
      have hstays := (List.mem_filter.1 hrow).2
      have hpicked : db.guardHolds join.table row
          (.equals (columnName join.sourceKey) (.ofJson parent)) = true := by
        rw [Database.guardHolds, (hstored hdb).1]
        exact SqlValue.equals_trans hnear hp
      simp [hpicked] at hstays
  rcases Database.executes_unless_iff.1 hinsert with ⟨hempty, rfl⟩ | ⟨-, n, hinsert⟩
  · obtain rfl := List.isEmpty_iff.1 hempty
    intro q
    simp [hnone' q]
  · obtain ⟨t, t', hwrites, heach⟩ := Database.writes_insertLinks hinsert
    obtain ⟨u, hu, -, hjoins⟩ := exists_joinsBy hk h hc ha hr hmid
    obtain rfl := Option.some.inj (hwrites.before.symm.trans hu)
    obtain ⟨hnear, hfar⟩ := hstored hmid
    simp only [Database.affinity, hu] at hnear hfar
    have hparent := Affinity.equals_store_ofKey a.source.idType (SqlValue.equals_iff.1 hp).2.1
    intro q
    have hrows : mid.rows join.table = t.rows := by rw [Database.rows, hu]
    rw [hlinks, hwrites.rows_self, hjoins.links_insertEach heach, ← hrows, ← hlinks,
      or_iff_right (hnone' q), hnear, hfar]
    rw [SqlValue.equals_comm] at hp
    constructor
    · rintro ⟨v, hv, -, hq⟩
      obtain ⟨id, hid, rfl⟩ := List.mem_map.1 hv
      exact ⟨id, hid, (hids id hid).store ▸ hq⟩
    · rintro ⟨id, hid, hq⟩
      exact ⟨_, List.mem_map_of_mem hid, SqlValue.equals_trans hparent hp,
        by rwa [(hids id hid).store]⟩

end

/-- **What is linked afterwards.** -/
theorem linksTo_of_executes (h : Registry.assemble schemas = .ok r) (hc : r.Creatable)
    (ha : a ∈ r.associations) (hr : a.RefersToEnds r) (hdb : db.Regular r)
    (hkind : ∀ key, a.kind ≠ .belongsTo key) (hfound : ∀ id ∈ ids, db.HasRow a.target id)
    (hp : p.equals ((Affinity.ofKey a.source.idType).convert (.ofJson parent)) = true)
    (hnone : replace = false → ∀ q, ¬db.Links a p q)
    (he : db.Executes (Statement.ofLinks a parent ids replace) db') : db'.LinksTo a p ids := by
  have hcoherent := Registry.coherent_of_assemble h
  have hs := hcoherent.source a ha
  have ht := hcoherent.target a ha
  have hl := Registry.tablesLinked h hc
  have hids : ∀ id ∈ ids, a.target.HoldsKey (.ofJson id) := fun id hid =>
    hdb.holdsKey_ofJson hc ht (hfound id hid)
  cases hk : a.kind with
  | belongsTo key => exact absurd hk (hkind key)
  | hasOne key => exact linksTo_of_hasKey (.inl hk) hc hr hdb ht hids hp hnone hfound he hl
  | hasMany key => exact linksTo_of_hasKey (.inr hk) hc hr hdb ht hids hp hnone hfound he hl
  | hasManyThrough join =>
    exact linksTo_of_through hk h hc ha hr.storesEnds hdb hs ht hids hp hnone he

end Association

end ResourceApi
