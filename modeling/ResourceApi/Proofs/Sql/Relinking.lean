import ResourceApi.Proofs.Sql.Between
import ResourceApi.Proofs.Sql.Marks

/-!
# Setting the same keys again

Links are written to one place (`Association.place`), and nothing changes beside it
(`Database.SameBeside`). Where they are keys, the keys of the rows that are not named are taken
away, and then the named rows are given theirs.

**Theorem (`Association.relink_of_hasKey`).** Keys that a run has set can be set again on the way to
its end, if nothing else is written to their column until then. Those of the end are left as they
are by both statements.
-/

namespace ResourceApi

variable {schemas : List Schema} {r : Registry} {schema : Schema} {a : Association}
  {db mid db' d d' e z : Database} {places : List (String × Option String)}

namespace Database

/-! ## What is beside the places -/

/-- Beside some places, the databases hold the same. -/
structure SameBeside (r : Registry) (places : List (String × Option String)) (db db' : Database) :
    Prop where
  parallel : Parallel r db db'
  cells : ∀ schema ∈ r.schemas, ∀ row ∈ db.rows schema.tableName,
    ∀ row' ∈ db'.rows schema.tableName, row'.get schema.idColumn = row.get schema.idColumn →
      ∀ column, (schema.tableName, some column) ∉ places → row'.get column = row.get column
  joins : ∀ name, name ∉ r.schemas.map (·.tableName) → (name, none) ∉ places →
    db'.rows name = db.rows name

namespace SameBeside

theorem refl (hdb : db.Regular r) (hc : r.Creatable) (places : List (String × Option String)) :
    SameBeside r places db db where
  parallel := .refl r db
  cells schema hs row hrow row' hrow' hid column _ := by
    rw [hdb.eq_of_get hc hs hrow' hrow hid]
  joins _ _ _ := rfl

theorem trans {places' : List (String × Option String)} (h : SameBeside r places db mid)
    (h' : SameBeside r places' mid db') : SameBeside r (places ++ places') db db' where
  parallel := h.parallel.trans h'.parallel
  cells schema hs row hrow row' hrow' hid column hnot := by
    obtain ⟨hfirst, hsecond⟩ := not_or.1 (mt List.mem_append.2 hnot)
    obtain ⟨between, hbetween, hid'⟩ := h.parallel.exists_row hs hrow
    rw [h'.cells schema hs between hbetween row' hrow' (hid.trans hid'.symm) column hsecond]
    exact h.cells schema hs row hrow between hbetween hid' column hfirst
  joins name hname hnot := by
    obtain ⟨hfirst, hsecond⟩ := not_or.1 (mt List.mem_append.2 hnot)
    rw [h'.joins name hname hsecond, h.joins name hname hfirst]

theorem mono {places' : List (String × Option String)} (h : SameBeside r places db db')
    (hsub : places ⊆ places') : SameBeside r places' db db' where
  parallel := h.parallel
  cells schema hs row hrow row' hrow' hid column hnot :=
    h.cells schema hs row hrow row' hrow' hid column fun hm => hnot (hsub hm)
  joins name hname hnot := h.joins name hname fun hm => hnot (hsub hm)

end SameBeside

/-- Statements keep a database intact. -/
theorem Intact.execute (h : db.Intact r) (hl : TablesLinked r.tables) {statement : Statement}
    {n : Nat} (hv : ∀ v ∈ statement.written, v.IsWritten)
    (hx : db.execute statement = .ok (db', n)) : db'.Intact r :=
  ⟨h.regular.execute hl hv hx, h.enumerated.execute hl h.regular.sound hx⟩

/-- The writing of links keeps a database intact. -/
theorem Intact.executes (h : db.Intact r) (hl : TablesLinked r.tables) {statements : List Statement}
    {parent : Json} {ids : List Json} {replace : Bool} (hx : db.Executes statements db')
    (hsub : statements ⊆ Statement.ofLinks a parent ids replace) : db'.Intact r :=
  hx.keeps (P := fun db => db.Intact r)
    (fun _ hm _ _ _ hdb he => hdb.execute hl (Statement.isWritten_ofLinks _ (hsub hm)) he) h

/-! ## Keys -/

section

variable {table column : String} {value : Option SqlValue} {guards : List Guard} {row row' : Tuple}
  {n : Nat}

/-- The row once a key is set, if it meets the guards. -/
def keySet (db : Database) (table column : String) (value : Option SqlValue) (guards : List Guard)
    (row : Tuple) : Tuple :=
  if guards.all (db.guardHolds table row) then
    row.set column ((db.affinity table column).store (value.getD .null))
  else row

theorem keySet_of_frame (h : db'.frame = db.frame) : db'.keySet = db.keySet := by
  funext table column value guards row
  rw [keySet, keySet, guardHolds_of_frame h, affinity_of_frame h]

theorem changed_eq_keySet {t : Table} (ht : db.table? table = some t) :
    t.changed (fun row => guards.all (db.guardHolds table row)) [(column, value.getD .null)] =
      db.keySet table column value guards := by
  funext row
  rw [keySet, affinity, ht]
  rfl

theorem get_keySet_of_ne {other : String} (hn : other ≠ column) :
    (db.keySet table column value guards row).get other = row.get other := by
  unfold keySet
  split
  · exact Tuple.get_set_of_ne hn.symm row _
  · rfl

theorem guardHolds_congr {g : Guard} (h : row'.get g.column = row.get g.column) :
    db.guardHolds table row' g = db.guardHolds table row g := by
  cases g <;> simp only [Guard.column] at h <;> simp only [guardHolds, h]

theorem all_guardHolds_congr (h : ∀ g ∈ guards, row'.get g.column = row.get g.column) :
    guards.all (db.guardHolds table row') = guards.all (db.guardHolds table row) := by
  rw [Bool.eq_iff_iff, List.all_eq_true, List.all_eq_true]
  exact forall₂_congr fun g hg => by rw [guardHolds_congr (h g hg)]

/-- What becomes of a key depends on the key and on what is guarded. -/
theorem get_keySet_congr (hc : row'.map (·.1) = row.map (·.1))
    (h : ∀ g ∈ guards, row'.get g.column = row.get g.column)
    (hk : row'.get column = row.get column) :
    (db.keySet table column value guards row').get column =
      (db.keySet table column value guards row).get column := by
  unfold keySet
  rw [all_guardHolds_congr h]
  split
  · rw [Tuple.get_set, Tuple.get_set, hc, hk]
  · exact hk

/-- The statement leaves the keys of all rows as they are. -/
def LeavesKeys (db : Database) (table column : String) (value : Option SqlValue)
    (guards : List Guard) : Prop :=
  ∀ row ∈ db.rows table, (db.keySet table column value guards row).get column = row.get column

end

section

variable {column : String} {value : Option SqlValue} {guards : List Guard} {n : Nat}
  (hc : r.Creatable) (hs : schema ∈ r.schemas) (hne : column ≠ schema.idColumn)
include hc hs hne

/-- To set a key in a table is to map its rows. -/
theorem Intact.eq_mapRows_of_setKey (hdb : db.Intact r)
    (h : db.execute (.setKey schema.tableName column value guards) = .ok (db', n)) :
    db' = db.mapRows schema.tableName (db.keySet schema.tableName column value guards) := by
  obtain ⟨t, ht, hd⟩ := exists_tableOf hdb.regular.sound.definitions hc.tableNames hs
  rw [← changed_eq_keySet ht]
  refine hdb.eq_mapRows hc hs hd (fun row _ => ?_) h
  rw [changed_eq_keySet ht, get_keySet_of_ne hne.symm]

/-- Nothing but the key changes. -/
theorem Intact.sameBeside_of_setKey (hdb : db.Intact r)
    (h : db.execute (.setKey schema.tableName column value guards) = .ok (db', n)) :
    SameBeside r [(schema.tableName, some column)] db db' := by
  obtain rfl := hdb.eq_mapRows_of_setKey hc hs hne h
  have hself := SameBeside.refl hdb.regular hc []
  refine ⟨Parallel.mapRows hc hs fun row _ => get_keySet_of_ne hne.symm, fun other ho => ?_,
    fun name hname _ => rows_mapRows_of_ne db _ fun hn => hname ?_⟩
  · by_cases hn : other.tableName = schema.tableName
    · obtain rfl := hc.eq_of_tableName hs ho hn
      rw [rows_mapRows_self]
      intro row hrow
      refine List.forall_mem_map.2 fun row' hrow' hid other hother => ?_
      rw [get_keySet_of_ne hne.symm] at hid
      rw [get_keySet_of_ne fun he => hother (List.mem_singleton.2 (by rw [he]))]
      exact hself.cells _ hs row hrow row' hrow' hid other List.not_mem_nil
    · rw [rows_mapRows_of_ne db _ hn]
      exact fun row hrow row' hrow' hid other _ =>
        hself.cells _ ho row hrow row' hrow' hid other List.not_mem_nil
  · exact List.mem_map.2 ⟨schema, hs, hn.symm⟩

variable (hguards : ∀ g ∈ guards, g.column = schema.idColumn ∨ g.column = column)
include hguards

omit hne in
/-- Keys are left as they are as long as nothing else is written to them. -/
theorem LeavesKeys.of_sameBeside (h : db.LeavesKeys schema.tableName column value guards)
    (hdb : db.Intact r) (hdb' : db'.Intact r) (hsame : SameBeside r places db db')
    (hnot : (schema.tableName, some column) ∉ places) :
    db'.LeavesKeys schema.tableName column value guards := by
  intro row' hrow'
  obtain ⟨row, hrow, hid⟩ := hsame.parallel.symm.exists_row hs hrow'
  have hkey := hsame.cells schema hs row hrow row' hrow' hid.symm column hnot
  have hguarded : ∀ g ∈ guards, row'.get g.column = row.get g.column := by
    intro g hg
    rcases hguards g hg with he | he
    · rw [he, hid]
    · rw [he, hkey]
  have hcolumns := (hdb'.columns_of_mem hc hs hrow').trans (hdb.columns_of_mem hc hs hrow).symm
  rw [keySet_of_frame hsame.parallel.frame, get_keySet_congr hcolumns hguarded hkey, hkey]
  exact h row hrow

/-- **A key can be set again on the way to rows whose keys it leaves as they are.** -/
theorem Between.setKey (h : Registry.assemble schemas = .ok r) (hb : Between r d e z)
    (hd : d.Intact r) (hd' : d'.Intact r) (he : e.Intact r) (hz : z.Intact r)
    (hx : d.execute (.setKey schema.tableName column value guards) = .ok (d', n))
    (hleaves : z.LeavesKeys schema.tableName column value guards) :
    ∃ e' m, e.execute (.setKey schema.tableName column value guards) = .ok (e', m) ∧
      Between r d' e' z := by
  obtain ⟨t, ht, hdefinition⟩ := exists_tableOf hd.regular.sound.definitions hc.tableNames hs
  have hframe : e.frame = d.frame := hb.second.frame.symm.trans hb.first.frame
  have hchanged : t.changed (fun row => guards.all (d.guardHolds schema.tableName row))
      [(column, value.getD .null)] = d.keySet schema.tableName column value guards :=
    changed_eq_keySet ht
  have hsets : z.keySet = d.keySet := keySet_of_frame hb.first.frame
  have hupdate := hb.updateRows hc hs hdefinition h hd hd' he hz hx
  rw [hchanged, ← guardHolds_of_frame hframe] at hupdate
  refine hupdate (fun row _ => get_keySet_of_ne hne.symm) fun a had b hbe c hcz hac hbc other => ?_
  have hcells := hb.cells schema hs a had b hbe c hcz hac hbc
  by_cases ho : other = column
  · subst ho
    have hbcolumns := he.columns_of_mem hc hs hbe
    rcases hcells other with hsame | ⟨hrepeats, hsame⟩
    · have hguarded : ∀ g ∈ guards, b.get g.column = c.get g.column := by
        intro g hg
        rcases hguards g hg with hg | hg <;> rw [hg]
        exacts [hbc, hsame]
      rw [get_keySet_congr (hbcolumns.trans (hz.columns_of_mem hc hs hcz).symm) hguarded hsame,
        ← hsets]
      exact .inl (hleaves c hcz)
    · have hguarded : ∀ g ∈ guards, b.get g.column = a.get g.column := by
        intro g hg
        rcases hguards g hg with hg | hg <;> rw [hg]
        exacts [hbc.trans hac.symm, hsame]
      exact .inr ⟨hrepeats,
        get_keySet_congr (hbcolumns.trans (hd.columns_of_mem hc hs had).symm) hguarded hsame⟩
  · rw [get_keySet_of_ne ho, get_keySet_of_ne ho]
    exact hcells other

end

end Database

/-! ## Links that are keys -/

namespace Association

open Database

variable {key : String} {parent : Json} {ids : List Json} {n : Nat}

/-- The guards of the statement that takes the key from the rows that are not named. -/
def clearingGuards (a : Association) (key : String) (parent : Json) (ids : List Json) :
    List Guard :=
  .equals (columnName key) (.ofJson parent) ::
    if ids.isEmpty then [] else [.notAmong a.target.idColumn (ids.map .ofJson)]

/-- The guards of the statement that gives the key to the rows that are named. -/
def settingGuards (a : Association) (ids : List Json) : List Guard :=
  [.among a.target.idColumn (ids.map .ofJson)]

theorem column_of_mem_clearingGuards : ∀ g ∈ a.clearingGuards key parent ids,
    g.column = a.target.idColumn ∨ g.column = columnName key := by
  refine List.forall_mem_cons.2 ⟨.inr rfl, fun g hg => ?_⟩
  split at hg
  · cases hg
  · obtain rfl := List.mem_singleton.1 hg
    exact .inl rfl

theorem column_of_mem_settingGuards : ∀ g ∈ a.settingGuards ids,
    g.column = a.target.idColumn ∨ g.column = columnName key :=
  List.forall_mem_singleton.2 (.inl rfl)

variable (hc : r.Creatable) (ht : a.target ∈ r.schemas)
  (hne : columnName key ≠ a.target.idColumn)

/-- No row refers to the parent that is not named. -/
def Cleared (a : Association) (key : String) (parent : Json) (ids : List Json) (db : Database) :
    Prop :=
  ∀ row ∈ db.rows a.target.tableName,
    (a.clearingGuards key parent ids).all (db.guardHolds a.target.tableName row) = false

theorem Cleared.leavesKeys (h : a.Cleared key parent ids db) :
    db.LeavesKeys a.target.tableName (columnName key) none (a.clearingGuards key parent ids) := by
  intro row hrow
  rw [keySet, h row hrow]
  rfl

section

include hc ht hne

/-- The statement that takes keys away leaves no row that refers to the parent but is not named. -/
theorem cleared_of_clearing (hdb : db.Intact r)
    (h : db.execute (.setKey a.target.tableName (columnName key) none
      (a.clearingGuards key parent ids)) = .ok (db', n)) : a.Cleared key parent ids db' := by
  obtain rfl := hdb.eq_mapRows_of_setKey hc ht hne h
  unfold Cleared
  rw [rows_mapRows_self, guardHolds_of_frame (frame_mapRows db _ _)]
  refine List.forall_mem_map.2 fun row hrow => ?_
  unfold keySet
  split
  · have hnull : (row.set (columnName key) ((db.affinity a.target.tableName (columnName key)).store
        .null)).get (columnName key) = .null := by
      rw [Affinity.store_null]
      exact get_set_null row (columnName key)
    simp [clearingGuards, guardHolds, hnull, SqlValue.equals]
  · rename_i hnot
    simpa using hnot

/-- The statement that gives keys leaves the rows cleared. -/
theorem cleared_of_setting (hdb : db.Intact r) (hids : ids.isEmpty = false)
    (hcleared : a.Cleared key parent ids db)
    (h : db.execute (.setKey a.target.tableName (columnName key) (some (.ofJson parent))
      (a.settingGuards ids)) = .ok (db', n)) : a.Cleared key parent ids db' := by
  obtain rfl := hdb.eq_mapRows_of_setKey hc ht hne h
  unfold Cleared at hcleared ⊢
  rw [rows_mapRows_self, guardHolds_of_frame (frame_mapRows db _ _)]
  refine List.forall_mem_map.2 fun row hrow => ?_
  by_cases hnamed : (a.settingGuards ids).all (db.guardHolds a.target.tableName row) = true
  · -- a named row is not taken for one that is to be cleared
    have hid : (db.keySet a.target.tableName (columnName key) (some (.ofJson parent))
        (a.settingGuards ids) row).get a.target.idColumn = row.get a.target.idColumn :=
      get_keySet_of_ne hne.symm
    have hnot : db.guardHolds a.target.tableName (db.keySet a.target.tableName (columnName key)
        (some (.ofJson parent)) (a.settingGuards ids) row)
          (.notAmong a.target.idColumn (ids.map .ofJson)) = false := by
      simp only [settingGuards, List.all_cons, List.all_nil, Bool.and_true, guardHolds] at hnamed
      simp only [guardHolds, hid, hnamed, Bool.not_true, Bool.and_false]
    simp [clearingGuards, hids, hnot]
  · rw [keySet, if_neg hnamed]
    exact hcleared row hrow

/-- Keys that have been given are left as they are. -/
theorem leavesKeys_of_setting (hdb : db.Intact r)
    (h : db.execute (.setKey a.target.tableName (columnName key) (some (.ofJson parent))
      (a.settingGuards ids)) = .ok (db', n)) :
    db'.LeavesKeys a.target.tableName (columnName key) (some (.ofJson parent))
      (a.settingGuards ids) := by
  obtain rfl := hdb.eq_mapRows_of_setKey hc ht hne h
  unfold LeavesKeys
  rw [rows_mapRows_self, keySet_of_frame (frame_mapRows db _ _)]
  refine List.forall_mem_map.2 fun row hrow => ?_
  have hguarded : ∀ g ∈ a.settingGuards ids,
      (db.keySet a.target.tableName (columnName key) (some (.ofJson parent)) (a.settingGuards ids)
        row).get g.column = row.get g.column := by
    refine List.forall_mem_singleton.2 (get_keySet_of_ne hne.symm)
  unfold keySet at hguarded ⊢
  split at hguarded
  · rename_i hnamed
    rw [if_pos hnamed, all_guardHolds_congr hguarded, if_pos hnamed, Tuple.get_set,
      Tuple.columns_set]
    split
    · rename_i hcolumn
      rw [Tuple.get_set_self hcolumn.2]
    · rfl
  · rename_i hnamed
    rw [if_neg hnamed, if_neg hnamed]

end

/-- Links that are keys are taken away, and then given. -/
theorem exists_of_executes (hk : a.HasKey key)
    (h : db.Executes (Statement.ofLinks a parent ids true) db') :
    ∃ mid n, db.execute (.setKey a.target.tableName (columnName key) none
        (a.clearingGuards key parent ids)) = .ok (mid, n) ∧
      (ids.isEmpty = true ∧ db' = mid ∨ ids.isEmpty = false ∧ ∃ m, mid.execute
        (.setKey a.target.tableName (columnName key) (some (.ofJson parent))
          (a.settingGuards ids)) = .ok (db', m)) := by
  rw [ofLinks_of_hasKey hk, if_pos rfl, List.singleton_append] at h
  cases h with
  | @cons _ mid _ _ _ n hclear h =>
    refine ⟨mid, n, hclear, ?_⟩
    cases hids : ids.isEmpty with
    | true =>
      rw [hids, if_pos rfl] at h
      cases h
      exact .inl ⟨rfl, rfl⟩
    | false =>
      rw [hids, if_neg Bool.false_ne_true] at h
      exact .inr ⟨rfl, h.of_singleton⟩

theorem executes_of_exists (hk : a.HasKey key) {m : Nat}
    (hclear : db.execute (.setKey a.target.tableName (columnName key) none
      (a.clearingGuards key parent ids)) = .ok (mid, n))
    (hset : ids.isEmpty = true ∧ db' = mid ∨ ids.isEmpty = false ∧ mid.execute
      (.setKey a.target.tableName (columnName key) (some (.ofJson parent))
        (a.settingGuards ids)) = .ok (db', m)) :
    db.Executes (Statement.ofLinks a parent ids true) db' := by
  rw [ofLinks_of_hasKey hk, if_pos rfl, List.singleton_append]
  refine .cons hclear ?_
  rcases hset with ⟨hids, rfl⟩ | ⟨hids, hset⟩ <;> rw [hids]
  · exact .nil _
  · exact .cons hset (.nil _)

section

include hc ht hne

/-- Links that are keys are written to their column only. -/
theorem sameBeside_of_hasKey (hl : TablesLinked r.tables) (hk : a.HasKey key) (hd : d.Intact r)
    (h : d.Executes (Statement.ofLinks a parent ids true) d') : SameBeside r [a.place] d d' := by
  have hplace : a.place = (a.target.tableName, some (columnName key)) := by
    rcases hk with hk | hk <;> rw [place, hk]
  obtain ⟨mid, n, hclear, hset⟩ := exists_of_executes hk h
  rw [hplace]
  have hfirst := hd.sameBeside_of_setKey hc ht hne hclear
  rcases hset with ⟨-, rfl⟩ | ⟨-, m, hset⟩
  · exact hfirst
  · have hmid := hd.execute hl (List.forall_mem_singleton.2 trivial) hclear
    exact (hfirst.trans (hmid.sameBeside_of_setKey hc ht hne hset)).mono (by simp)

theorem relink_of_hasKey (h : Registry.assemble schemas = .ok r) (hk : a.HasKey key)
    (hb : Between r d e z) (hd : d.Intact r) (he : e.Intact r) (hz : z.Intact r)
    (hx : d.Executes (Statement.ofLinks a parent ids true) d')
    (hsame : SameBeside r places d' z) (hnot : a.place ∉ places) :
    ∃ e', e.Executes (Statement.ofLinks a parent ids true) e' ∧ Between r d' e' z := by
  have hl := Registry.tablesLinked h hc
  have hplace : a.place = (a.target.tableName, some (columnName key)) := by
    rcases hk with hk | hk <;> rw [place, hk]
  rw [hplace] at hnot
  have hd' := hd.executes hl hx (List.Subset.refl _)
  have hwritten : ∀ v ∈ [SqlValue.ofJson parent], v.IsWritten :=
    List.forall_mem_singleton.2 (SqlValue.isWritten_ofJson parent)
  obtain ⟨mid, n, hclear, hset⟩ := exists_of_executes hk hx
  have hmid := hd.execute hl (List.forall_mem_singleton.2 trivial) hclear
  have hcleared : a.Cleared key parent ids d' := by
    have hfirst := cleared_of_clearing hc ht hne hd hclear
    rcases hset with ⟨-, rfl⟩ | ⟨hids, m, hset⟩
    · exact hfirst
    · exact cleared_of_setting hc ht hne hmid hids hfirst hset
  obtain ⟨e₁, m₁, hclear', hb₁⟩ := hb.setKey hc ht hne column_of_mem_clearingGuards h hd hmid he hz
    hclear (hcleared.leavesKeys.of_sameBeside hc ht column_of_mem_clearingGuards hd' hz hsame hnot)
  rcases hset with ⟨hids, rfl⟩ | ⟨hids, m, hset⟩
  · exact ⟨e₁, executes_of_exists (m := 0) hk hclear' (.inl ⟨hids, rfl⟩), hb₁⟩
  · have he₁ := he.execute hl (List.forall_mem_singleton.2 trivial) hclear'
    have hleaves := (leavesKeys_of_setting hc ht hne hmid hset).of_sameBeside hc ht
      column_of_mem_settingGuards hd' hz hsame hnot
    obtain ⟨e₂, m₂, hset', hb₂⟩ :=
      hb₁.setKey hc ht hne column_of_mem_settingGuards h hmid hd' he₁ hz hset hleaves
    exact ⟨e₂, executes_of_exists hk hclear' (.inr ⟨hids, hset'⟩), hb₂⟩

end

end Association

end ResourceApi
