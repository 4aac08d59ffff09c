import ResourceApi.Proofs.Sql.References

/-!
# Counted rows

The rows of a table that have given values in some columns, counted (`Database.tally`). What a
statement does to the count follows from the columns that it sets, so a count over other columns
stays as it is.

**Theorems (`Database.tally_insert`, `Database.tally_updateRows`,
`Database.tally_insertLinks_of_ne`, `Database.tally_deleteRows_of_unreferenced`).** An inserted row
is counted if it has the values. An update counts for the columns that it sets only, and other
tables are written for nothing. A deletion from a table to which nothing refers leaves the rows of
other tables alone.
-/

namespace ResourceApi

/-! ## Rows with given values -/

/-- Whether the row has values equal to the given ones. Null is equal to nothing. -/
def Tuple.meets (values row : Tuple) : Bool := values.all fun c => (row.get c.1).equals c.2

namespace Tuple

variable {values row row' : Tuple}

theorem meets_eq_false_of_null {c : String × SqlValue} (hc : c ∈ values)
    (h : row.get c.1 = .null) : values.meets row = false := by
  refine Bool.eq_false_iff.2 fun hm => ?_
  have hequals := List.all_eq_true.1 hm c hc
  rw [h] at hequals
  cases hequals

/-- Only the columns of the given values matter. -/
theorem meets_congr (h : ∀ c ∈ values, row'.get c.1 = row.get c.1) :
    values.meets row' = values.meets row := by
  unfold meets
  rw [Bool.eq_iff_iff, List.all_eq_true, List.all_eq_true]
  exact forall₂_congr fun c hc => by rw [h c hc]

end Tuple

/-- Keys are distinct if no value is counted twice. -/
theorem Table.distinct_singleton_iff {column : String} {rows : List Tuple} :
    Distinct [column] rows ↔ ∀ v, rows.countP (Tuple.meets [(column, v)]) ≤ 1 := by
  have hmeets (v : SqlValue) (row : Tuple) :
      Tuple.meets [(column, v)] row = (row.get column).equals v := by
    simp [Tuple.meets]
  induction rows with
  | nil => exact ⟨fun _ _ => Nat.zero_le 1, fun _ => List.Pairwise.nil⟩
  | cons row rest ih =>
    rw [Table.distinct_cons]
    refine (and_congr_right fun _ => ih).trans ?_
    constructor
    · rintro ⟨hfirst, hrest⟩ v
      rw [List.countP_cons]
      split
      · rename_i hrow
        have hnone : rest.countP (Tuple.meets [(column, v)]) = 0 := by
          refine List.countP_eq_zero.2 fun other ho hother => ?_
          rw [hmeets] at hrow hother
          rw [SqlValue.equals_comm] at hother
          have hsame := hfirst other ho
          rw [Table.sameKey_singleton, SqlValue.equals_trans hrow hother] at hsame
          cases hsame
        rw [hnone]
      · exact hrest v
    · intro hall
      refine ⟨fun other ho => ?_, fun v => le_trans ?_ (hall v)⟩
      · rw [Table.sameKey_singleton, Bool.eq_false_iff]
        intro hequals
        have hself := SqlValue.equals_self (SqlValue.equals_iff.1 hequals).1
        have hone := hall (row.get column)
        have hpos : 0 < rest.countP (Tuple.meets [(column, row.get column)]) := by
          refine List.countP_pos_iff.2 ⟨other, ho, ?_⟩
          rwa [hmeets, SqlValue.equals_comm]
        rw [List.countP_cons_of_pos (by rwa [hmeets])] at hone
        omega
      · exact (List.sublist_cons_self row rest).countP_le

namespace Database

variable {db db' : Database} {table other : String} {values pattern row : Tuple}

/-- The number of rows of a table that have the given values. -/
def tally (db : Database) (table : String) (pattern : Tuple) : Nat :=
  (db.rows table).countP pattern.meets

theorem distinct_iff_tally {column : String} : Table.Distinct [column] (db.rows table) ↔
    ∀ v, db.tally table [(column, v)] ≤ 1 := Table.distinct_singleton_iff

theorem tally_pos_iff : 0 < db.tally table pattern ↔
    ∃ row ∈ db.rows table, pattern.meets row = true := List.countP_pos_iff

theorem tally_eq_zero_iff : db.tally table pattern = 0 ↔
    ∀ row ∈ db.rows table, pattern.meets row = false := by
  simp [tally, List.countP_eq_zero]

/-! ## Statements -/

/-- An inserted row is added to its table. -/
theorem rows_insert (h : db.insert table values = .ok (db', row)) :
    (db'.rows table).Perm (row :: db.rows table) ∧
      ∀ other, other ≠ table → db'.rows other = db.rows other := by
  obtain ⟨t, t', hwrites, hinsert⟩ := writes_insert h
  obtain ⟨-, -, rfl⟩ := Table.insert_eq_ok hinsert
  refine ⟨?_, fun other hne => hwrites.rows_of_ne hne⟩
  have hbefore : db.rows table = t.rows := by rw [rows, hwrites.before]
  rw [hwrites.rows_self, hbefore]
  exact t.rows_add row

theorem tally_insert (h : db.insert table values = .ok (db', row)) :
    db'.tally other pattern =
      db.tally other pattern + if other = table ∧ pattern.meets row = true then 1 else 0 := by
  obtain ⟨hrows, hothers⟩ := rows_insert h
  unfold tally
  by_cases ho : other = table
  · subst ho
    rw [hrows.countP_eq, List.countP_cons]
    simp
  · rw [hothers other ho, if_neg fun h => ho h.1, Nat.add_zero]

/-- The picked rows of the table are changed. -/
theorem rows_updateRows {picked : Tuple → Bool} {n : Nat}
    (h : db.updateRows table picked values = .ok (db', n)) :
    ∃ t, db.table? table = some t ∧
      (db'.rows table).Perm ((db.rows table).map (t.changed picked values)) ∧
      ∀ other, other ≠ table → db'.rows other = db.rows other := by
  obtain ⟨t, t', hwrites, hupdate⟩ := writes_updateRows h
  obtain ⟨-, -, hrows⟩ := Table.rows_update hupdate
  have hbefore : db.rows table = t.rows := by rw [rows, hwrites.before]
  rw [← hwrites.rows_self, ← hbefore] at hrows
  exact ⟨t, hwrites.before, hrows, fun other hne => hwrites.rows_of_ne hne⟩

theorem tally_updateRows {picked : Tuple → Bool} {n : Nat}
    (h : db.updateRows table picked values = .ok (db', n))
    (hset : other = table → ∀ c ∈ pattern, c.1 ∉ values.map (·.1)) :
    db'.tally other pattern = db.tally other pattern := by
  obtain ⟨t, -, hrows, hothers⟩ := rows_updateRows h
  unfold tally
  by_cases ho : other = table
  · subst ho
    rw [hrows.countP_eq, List.countP_map]
    refine List.countP_congr fun row _ => ?_
    have hsame : pattern.meets (t.changed picked values row) = pattern.meets row := by
      refine Tuple.meets_congr fun c hc => ?_
      unfold Table.changed
      split
      · exact Table.get_assign_of_notMem (hset rfl c hc) row
      · rfl
    rw [Function.comp_apply, hsame]
  · rw [hothers other ho]

theorem tally_insertLinks_of_ne {sourceKey targetKey : String} {parent : SqlValue}
    {targets : List SqlValue} {n : Nat}
    (h : db.insertLinks table sourceKey targetKey parent targets = .ok (db', n))
    (ho : other ≠ table) : db'.tally other pattern = db.tally other pattern := by
  obtain ⟨t, t', hwrites, -⟩ := writes_insertLinks h
  rw [tally, tally, hwrites.rows_of_ne ho]

/-! ### Deletions -/

/-- No table refers to the rows of this one. -/
def Unreferenced (db : Database) (table : String) : Prop :=
  ∀ t ∈ db.tables, ∀ c ∈ t.definition.columns, ∀ column onDelete,
    .references table column onDelete ∉ c.constraints

/-- No row loses a reference to a row of a table to which nothing refers. -/
theorem release_of_unreferenced (h : db.Unreferenced table) {t : Table} (ht : t ∈ db.tables)
    (deleted : List Tuple) (row : Tuple) : db.release table deleted t row = some row := by
  refine foldlM_some fun c hc => foldlM_some fun k hk => ?_
  cases k with
  | references target column onDelete =>
    have hne : target ≠ table := fun he => h t ht c hc column onDelete (he ▸ hk)
    simp [releaseColumn, hne]
  | _ => rfl

theorem rows_deleteRows_of_unreferenced (h : db.Unreferenced table) (picked : Tuple → Bool) :
    (db.deleteRows table picked).1.rows other =
      (db.rows other).filter fun row => !(other = table && picked row) := by
  unfold rows
  rw [table?_deleteRows]
  cases ht : db.table? other with
  | none => rfl
  | some t =>
    have hrelease : db.release table ((db.rows table).filter picked) t = some :=
      funext (release_of_unreferenced h (mem_of_table? ht) _)
    show db.survivors table picked t = _
    unfold survivors
    rw [hrelease, List.filterMap_some, name_of_table? ht]

theorem tally_deleteRows_of_unreferenced (h : db.Unreferenced table) (picked : Tuple → Bool)
    (ho : other ≠ table) :
    (db.deleteRows table picked).1.tally other pattern = db.tally other pattern := by
  unfold tally
  rw [rows_deleteRows_of_unreferenced h]
  simp [ho]

/-- A deletion leaves no more rows with given values than there were. -/
theorem tally_deleteRows_le (picked : Tuple → Bool) :
    (db.deleteRows table picked).1.tally other pattern ≤ db.tally other pattern := by
  unfold tally rows
  rw [table?_deleteRows]
  cases db.table? other with
  | none => exact le_rfl
  | some t =>
    show (db.survivors table picked t).countP _ ≤ t.rows.countP _
    unfold survivors
    rw [List.countP_filterMap]
    refine le_trans (List.countP_mono_left fun row _ hrow => ?_) (List.filter_sublist.countP_le)
    cases hrelease : db.release table ((db.rows table).filter picked) t row with
    | none =>
      rw [hrelease] at hrow
      cases hrow
    | some row' =>
      have hmeets : pattern.meets row' = true := by
        rwa [hrelease] at hrow
      -- a released row has the values that it had, or null, which no value is equal to
      have hsame : ∀ c ∈ pattern, row.get c.1 = row'.get c.1 := by
        intro c hc
        have hne : row'.get c.1 ≠ .null := by
          intro hnull
          rw [Tuple.meets_eq_false_of_null hc hnull] at hmeets
          cases hmeets
        exact (((released_of_release hrelease).1 c.1).resolve_right fun hn => hne hn.1).symm
      exact (Tuple.meets_congr hsame).trans hmeets

end Database

end ResourceApi
