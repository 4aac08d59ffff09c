import ResourceApi.Proofs.Sql.Soundness

/-!
# Rows after statements

What a statement that succeeds leaves in the tables. It writes one table and keeps all others
(`Database.Writes`); the rows of the written table are told up to their order.

**Theorems (`Database.writes_insert`, `Database.writes_updateRows`,
`Database.writes_insertLinks`).** An insertion adds the row that it answers. An update sets the
values in the rows that are picked. Links are added unless the same link is there.
-/

namespace ResourceApi

namespace Tuple

/-- The value of a column after another value was set. -/
theorem get_set (t : Tuple) (column other : String) (v : SqlValue) :
    (t.set column v).get other =
      if other = column ∧ column ∈ t.map (·.1) then v else t.get other := by
  by_cases ho : other = column
  · subst ho
    by_cases hm : other ∈ t.map (·.1)
    · rw [if_pos ⟨rfl, hm⟩, get_set_self hm]
    · -- a row without the column has no value to be replaced
      rw [if_neg fun h => hm h.2]
      unfold set
      refine congrArg (fun t => get t other) ?_
      refine (List.map_congr_left fun c hc => ?_).trans (List.map_id t)
      have hne : c.1 ≠ other := fun he => hm (he ▸ List.mem_map_of_mem hc)
      simp [hne]
  · rw [if_neg fun h => ho h.1, get_set_of_ne (Ne.symm ho)]

theorem get_of_notMem {t : Tuple} {column : String} (h : column ∉ t.map (·.1)) :
    t.get column = .null := by
  unfold get
  rw [List.find?_eq_none.2]
  intro c hc he
  exact h (of_decide_eq_true he ▸ List.mem_map_of_mem hc)

theorem get_of_mem {t : Tuple} (hn : (t.map (·.1)).Nodup) {column : String} {v : SqlValue}
    (h : (column, v) ∈ t) : t.get column = v := by
  induction t with
  | nil => cases h
  | cons c rest ih =>
    obtain ⟨hc, hrest⟩ := List.nodup_cons.1 hn
    unfold get
    rcases List.mem_cons.1 h with rfl | h
    · simp
    · have hne : c.1 ≠ column := by
        rintro rfl
        exact hc (List.mem_map_of_mem (f := (·.1)) h)
      rw [List.find?_cons_of_neg (by simpa using hne)]
      exact ih hrest h

end Tuple

namespace Table

variable {t t' : Table} {row values : Tuple}

/-! ## Inserted rows -/

theorem get_rowOf (t : Table) (values : Tuple) (column : String) :
    (t.rowOf values).get column =
      if column ∈ t.definition.columns.map (·.name)
        then (t.affinity column).store (values.get column) else .null := by
  have hfind : (t.rowOf values).find? (·.1 = column) =
      (t.column? column).map fun c => (c.name, c.affinity.store (values.get c.name)) := by
    rw [rowOf, List.find?_map]
    rfl
  unfold Tuple.get affinity
  rw [hfind]
  cases hc : t.column? column with
  | none =>
    rw [if_neg]
    · rfl
    · intro hm
      obtain ⟨c, hm, hn⟩ := List.mem_map.1 hm
      exact List.find?_eq_none.1 hc c hm (decide_eq_true hn)
  | some c =>
    unfold column? at hc
    obtain rfl : c.name = column := by simpa using List.find?_some hc
    rw [if_pos (List.mem_map_of_mem (List.mem_of_find?_eq_some hc))]
    rfl

/-- What an insertion has checked and done. -/
theorem insert_eq_ok (h : t.insert values = .ok (t', row)) :
    t.assignKey (t.rowOf values) = .ok row ∧ t.check t.rows row = .ok () ∧ t' = t.add row := by
  unfold insert at h
  obtain ⟨row', hkey, h⟩ := bind_eq_ok.1 h
  obtain ⟨⟨⟩, hcheck, h⟩ := bind_eq_ok.1 h
  obtain ⟨rfl, rfl⟩ := Prod.mk.injEq .. ▸ pure_eq_ok.1 h
  exact ⟨hkey, hcheck, rfl⟩

/-- Only the assigned key of a row is filled in. -/
theorem get_of_assignKey (h : t.assignKey values = .ok row) {column : String}
    (hc : t.assignedKey? ≠ some column) : row.get column = values.get column := by
  unfold assignKey at h
  split at h
  · obtain rfl := Except.ok.inj h
    rfl
  · rename_i key hkey
    split at h
    · obtain ⟨next, -, h⟩ := bind_eq_ok.1 h
      obtain rfl := pure_eq_ok.1 h
      exact Tuple.get_set_of_ne (fun he : key = column => hc (he ▸ hkey)) _ _
    · obtain rfl := Except.ok.inj h
      rfl
    · cases h

theorem rows_add (t : Table) (row : Tuple) : (t.add row).rows.Perm (row :: t.rows) := by
  unfold add
  split
  · exact List.perm_append_singleton row t.rows
  · exact placeBy_perm _ row t.rows

/-- A row that is not inserted was refused by a constraint. -/
theorem insertOrSkip_eq_ok (h : t.insertOrSkip values = .ok t') :
    ∃ row, t.assignKey (t.rowOf values) = .ok row ∧
      (t.check t.rows row = .ok () ∧ t' = t.add row ∨
        (∃ v, t.check t.rows row = .error v) ∧ t' = t.rememberKey row) := by
  unfold insertOrSkip at h
  obtain ⟨row, hkey, h⟩ := bind_eq_ok.1 h
  refine ⟨row, hkey, ?_⟩
  split at h
  · rename_i hcheck
    exact .inl ⟨hcheck, (pure_eq_ok.1 h).symm⟩
  · rename_i v hcheck
    exact .inr ⟨⟨v, hcheck⟩, (pure_eq_ok.1 h).symm⟩

/-! ## Changed rows -/

/-- The row as an update leaves it. -/
def changed (t : Table) (picked : Tuple → Bool) (values row : Tuple) : Tuple :=
  if picked row then t.assign values row else row

theorem assignEach_eq_ok {picked : Tuple → Bool} {done rows result : List Tuple}
    (h : t.assignEach picked values done rows = .ok result) :
    result = done ++ rows.map (t.changed picked values) := by
  induction rows generalizing done with
  | nil =>
    obtain rfl := Except.ok.inj h
    simp
  | cons row rest ih =>
    unfold assignEach at h
    split at h
    · rename_i hp
      obtain ⟨⟨⟩, -, h⟩ := bind_eq_ok.1 h
      obtain ⟨⟨⟩, -, h⟩ := bind_eq_ok.1 h
      rw [ih h]
      simp [changed, hp]
    · rename_i hp
      rw [ih h]
      simp [changed, hp]

/-- An update changes the rows that are picked. -/
theorem rows_update {picked : Tuple → Bool} (h : t.update picked values = .ok t') :
    t'.definition = t.definition ∧ t'.lastKey = t.lastKey ∧
      t'.rows.Perm (t.rows.map (t.changed picked values)) := by
  unfold update at h
  obtain ⟨rows, hrows, h⟩ := bind_eq_ok.1 h
  obtain rfl := pure_eq_ok.1 h
  have hall := assignEach_eq_ok hrows
  rw [List.nil_append] at hall
  exact ⟨rfl, rfl, hall ▸ t.arrange_perm rows⟩

end Table

namespace Database

variable {db db' : Database} {table : String}

/-! ## Written tables -/

/-- The statement has written one table and has kept its definition. -/
structure Writes (db db' : Database) (table : String) (t t' : Table) : Prop where
  before : db.table? table = some t
  definition : t'.definition = t.definition
  after : db' = db.modify table fun _ => t'

theorem writes_insert {values row : Tuple} (h : db.insert table values = .ok (db', row)) :
    ∃ t t', db.Writes db' table t t' ∧ t.insert values = .ok (t', row) := by
  unfold insert at h
  obtain ⟨t, ht, h⟩ := bind_eq_ok.1 h
  obtain ⟨⟨t', row'⟩, hinsert, h⟩ := bind_eq_ok.1 h
  obtain ⟨db₁, hc, h⟩ := bind_eq_ok.1 h
  obtain ⟨rfl, rfl⟩ := Prod.mk.injEq .. ▸ pure_eq_ok.1 h
  obtain ⟨-, -, rfl⟩ := Table.insert_eq_ok hinsert
  exact ⟨t, _, ⟨tableFor_eq_ok ht, t.definition_add row', checkReferences_eq_ok hc⟩, hinsert⟩

theorem writes_updateRows {picked : Tuple → Bool} {values : Tuple} {n : Nat}
    (h : db.updateRows table picked values = .ok (db', n)) :
    ∃ t t', db.Writes db' table t t' ∧ t.update picked values = .ok t' := by
  unfold updateRows at h
  obtain ⟨t, ht, h⟩ := bind_eq_ok.1 h
  obtain ⟨t', hupdate, h⟩ := bind_eq_ok.1 h
  obtain ⟨db₁, hc, h⟩ := bind_eq_ok.1 h
  obtain ⟨rfl, -⟩ := Prod.mk.injEq .. ▸ pure_eq_ok.1 h
  exact ⟨t, t', ⟨tableFor_eq_ok ht, (Table.rows_update hupdate).1, checkReferences_eq_ok hc⟩,
    hupdate⟩

theorem definition_insertEach {t t' : Table} {rows : List Tuple}
    (h : t.insertEach rows = .ok t') : t'.definition = t.definition := by
  unfold Table.insertEach at h
  induction rows generalizing t with
  | nil =>
    obtain rfl := pure_eq_ok.1 h
    rfl
  | cons row rest ih =>
    rw [List.foldlM_cons] at h
    obtain ⟨next, hnext, h⟩ := bind_eq_ok.1 h
    obtain ⟨row', -, ⟨-, rfl⟩ | ⟨-, rfl⟩⟩ := Table.insertOrSkip_eq_ok hnext
    · exact (ih h).trans (t.definition_add row')
    · exact (ih h).trans (t.definition_rememberKey row')

theorem writes_insertLinks {sourceKey targetKey : String} {parent : SqlValue}
    {targets : List SqlValue} {n : Nat}
    (h : db.insertLinks table sourceKey targetKey parent targets = .ok (db', n)) :
    ∃ t t', db.Writes db' table t t' ∧
      t.insertEach (targets.map fun target => [(sourceKey, parent), (targetKey, target)]) =
        .ok t' := by
  unfold insertLinks at h
  obtain ⟨t, ht, h⟩ := bind_eq_ok.1 h
  obtain ⟨t', hinsert, h⟩ := bind_eq_ok.1 h
  obtain ⟨db₁, hc, h⟩ := bind_eq_ok.1 h
  obtain ⟨rfl, -⟩ := Prod.mk.injEq .. ▸ pure_eq_ok.1 h
  exact ⟨t, t', ⟨tableFor_eq_ok ht, definition_insertEach hinsert, checkReferences_eq_ok hc⟩,
    hinsert⟩

namespace Writes

variable {t t' : Table}

theorem name (h : db.Writes db' table t t') : t'.name = table :=
  (congrArg TableDefinition.name h.definition).trans (name_of_table? h.before)

/-- The tables are found under their names as before. -/
theorem table? (h : db.Writes db' table t t') (name : String) :
    db'.table? name = (db.table? name).map fun u => if name = table then t' else u := by
  rw [h.after, table?_modify fun _ _ => h.name]
  cases hu : db.table? name with
  | none => rfl
  | some u => rw [Option.map_some, Option.map_some, name_of_table? hu]

theorem rows_self (h : db.Writes db' table t t') : db'.rows table = t'.rows := by
  rw [rows, h.table?, h.before]
  simp

theorem rows_of_ne (h : db.Writes db' table t t') {name : String} (hn : name ≠ table) :
    db'.rows name = db.rows name := by
  rw [rows, rows, h.table?]
  cases db.table? name <;> simp [hn]

theorem affinity (h : db.Writes db' table t t') (name column : String) :
    db'.affinity name column = db.affinity name column := by
  rw [Database.affinity, Database.affinity, h.table?]
  by_cases hn : name = table
  · subst hn
    rw [h.before]
    simp [Table.affinity, Table.column?, h.definition]
  · cases db.table? name <;> simp [hn]

/-- What holds of all tables holds of them again if the written table keeps it. -/
theorem forall_tables {P : Table → Prop} (h : db.Writes db' table t t')
    (hdb : ∀ u ∈ db.tables, P u) (ht : P t → P t') : ∀ u ∈ db'.tables, P u := by
  intro u hu
  rw [h.after] at hu
  obtain ⟨v, hv, rfl⟩ := List.mem_map.1 hu
  split
  · exact ht (hdb t (mem_of_table? h.before))
  · exact hdb v hv

end Writes

end Database

end ResourceApi
