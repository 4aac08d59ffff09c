import ResourceApi.Proofs.Sql.Rows
import ResourceApi.Proofs.Store.Reachable

/-!
# Enumerated values

A column that enumerates values holds no others, but for null. A row is checked for this whenever it
is written; what a deletion changes of a row are keys, whose columns enumerate nothing.

**Theorem (`Session.enumerated_of_reachable`).** The values of a reachable session are those that
their columns enumerate.
-/

namespace ResourceApi

namespace Table

variable {t t' : Table} {row values : Tuple} {rows : List Tuple}

/-- The row has values that the columns enumerate. -/
def Enumerates (t : Table) (row : Tuple) : Prop :=
  ∀ c ∈ t.definition.columns, c.acceptsValue (row.get c.name) = true

/-- All rows have values that the columns enumerate. -/
def Enumerated (t : Table) : Prop := ∀ row ∈ t.rows, t.Enumerates row

theorem enumerates_of_check {others : List Tuple} (h : t.check others row = .ok ()) :
    t.Enumerates row := by
  unfold check at h
  split at h
  · cases h
  split at h
  · cases h
  · rename_i hnone
    intro c hc
    simpa using List.find?_eq_none.1 hnone c hc

theorem enumerated_of_rows (hd : t'.definition = t.definition)
    (h : ∀ row ∈ t'.rows, t.Enumerates row) : t'.Enumerated := by
  intro row hrow
  unfold Enumerates
  rw [hd]
  exact h row hrow

namespace Enumerated

variable (h : t.Enumerated)
include h

theorem rememberKey (row : Tuple) : (t.rememberKey row).Enumerated := by
  refine enumerated_of_rows (t.definition_rememberKey row) ?_
  rwa [rows_rememberKey]

theorem add (hrow : t.Enumerates row) : (t.add row).Enumerated := by
  refine enumerated_of_rows (t.definition_add row) fun other ho => ?_
  rcases List.mem_cons.1 ((t.rows_add row).subset ho) with rfl | ho
  · exact hrow
  · exact h other ho

theorem insert (hi : t.insert values = .ok (t', row)) : t'.Enumerated := by
  obtain ⟨-, hcheck, rfl⟩ := insert_eq_ok hi
  exact h.add (enumerates_of_check hcheck)

omit h in
theorem insertEach (h : t.Enumerated) (hi : t.insertEach rows = .ok t') : t'.Enumerated := by
  unfold Table.insertEach at hi
  induction rows generalizing t with
  | nil =>
    obtain rfl := pure_eq_ok.1 hi
    exact h
  | cons values rest ih =>
    rw [List.foldlM_cons] at hi
    obtain ⟨next, hnext, hi⟩ := bind_eq_ok.1 hi
    obtain ⟨row, -, ⟨hcheck, rfl⟩ | ⟨-, rfl⟩⟩ := insertOrSkip_eq_ok hnext
    · exact ih (h.add (enumerates_of_check hcheck)) hi
    · exact ih (h.rememberKey row) hi

end Enumerated

/-- Every changed row is checked. -/
theorem enumerates_of_assignEach {picked : Tuple → Bool} {done result : List Tuple}
    (hall : ∀ row ∈ done ++ rows, t.Enumerates row)
    (h : t.assignEach picked values done rows = .ok result) :
    ∀ row ∈ result, t.Enumerates row := by
  induction rows generalizing done with
  | nil =>
    obtain rfl := Except.ok.inj h
    rwa [List.append_nil] at hall
  | cons row rest ih =>
    have hnext (other : Tuple) (ho : t.Enumerates other) :
        ∀ row ∈ done ++ [other] ++ rest, t.Enumerates row := by
      intro row hrow
      simp only [List.mem_append, List.mem_singleton] at hrow
      rcases hrow with (hrow | rfl) | hrow
      · exact hall row (List.mem_append_left _ hrow)
      · exact ho
      · exact hall row (List.mem_append_right _ (List.mem_cons_of_mem _ hrow))
    unfold assignEach at h
    split at h
    · obtain ⟨⟨⟩, -, h⟩ := bind_eq_ok.1 h
      obtain ⟨⟨⟩, hcheck, h⟩ := bind_eq_ok.1 h
      exact ih (hnext _ (enumerates_of_check hcheck)) h
    · exact ih (hnext row (hall row (List.mem_append_right _ List.mem_cons_self))) h

theorem Enumerated.update {picked : Tuple → Bool} (h : t.Enumerated)
    (hu : t.update picked values = .ok t') : t'.Enumerated := by
  unfold Table.update at hu
  obtain ⟨result, hresult, hu⟩ := bind_eq_ok.1 hu
  obtain rfl := pure_eq_ok.1 hu
  have hall : ∀ row ∈ [] ++ t.rows, t.Enumerates row := h
  refine enumerated_of_rows (t := t) rfl fun row hrow => ?_
  exact enumerates_of_assignEach hall hresult row ((t.arrange_perm result).subset hrow)

end Table

/-! ## Databases -/

/-- A column with a reference enumerates nothing. -/
theorem Registry.acceptsValue_of_references {r : Registry} {d : TableDefinition} (hd : d ∈ r.tables)
    {c : ColumnDefinition} (hc : c ∈ d.columns) {table column : String} {onDelete : OnDelete}
    (hk : .references table column onDelete ∈ c.constraints) (v : SqlValue) :
    c.acceptsValue v = true := by
  rcases mem_tables hd with ⟨schema, -, rfl⟩ | ⟨a, join, -, rfl⟩
  · obtain ⟨key, -, rfl⟩ := reference_tableOf hc hk
    rfl
  · rcases List.mem_cons.1 hc with rfl | hc
    · rfl
    · obtain rfl := List.mem_singleton.1 hc
      rfl

namespace Database

variable {r : Registry} {db db' : Database}

/-- All values are those that the columns of the tables enumerate. -/
def Enumerated (db : Database) : Prop := ∀ t ∈ db.tables, t.Enumerated

namespace Enumerated

variable (h : db.Enumerated)
include h

theorem insert {table : String} {values row : Tuple}
    (hi : db.insert table values = .ok (db', row)) : db'.Enumerated := by
  obtain ⟨t, t', hwrites, hinsert⟩ := writes_insert hi
  exact hwrites.forall_tables h fun ht => ht.insert hinsert

theorem updateRows {table : String} {picked : Tuple → Bool} {values : Tuple} {n : Nat}
    (hu : db.updateRows table picked values = .ok (db', n)) : db'.Enumerated := by
  obtain ⟨t, t', hwrites, hupdate⟩ := writes_updateRows hu
  exact hwrites.forall_tables h fun ht => ht.update hupdate

theorem insertLinks {table sourceKey targetKey : String} {parent : SqlValue}
    {targets : List SqlValue} {n : Nat}
    (hi : db.insertLinks table sourceKey targetKey parent targets = .ok (db', n)) :
    db'.Enumerated := by
  obtain ⟨t, t', hwrites, hinsert⟩ := writes_insertLinks hi
  exact hwrites.forall_tables h fun ht => ht.insertEach hinsert

variable (hl : TablesLinked r.tables) (hdb : db.Sound r.tables)
include hl hdb

theorem deleteRows (table : String) (picked : Tuple → Bool) :
    (db.deleteRows table picked).1.Enumerated := by
  intro u hu
  rw [tables_deleteRows] at hu
  obtain ⟨t, ht, rfl⟩ := List.mem_map.1 hu
  have hmem := hdb.mem_definitions ht
  refine Table.enumerated_of_rows (t := t) rfl fun row' hrow' c hc => ?_
  obtain ⟨row, hrow, hrelease⟩ := mem_survivors hrow'
  rcases (released_of_release hrelease).1 c.name with he | ⟨-, c', hc', hname, _, _, hk⟩
  · rw [he]
    exact h t ht row hrow c hc
  · obtain rfl := hl.eq_of_name hmem hc' hc hname
    exact Registry.acceptsValue_of_references hmem hc hk _

/-- **Statements keep enumerated values.** -/
theorem execute {statement : Statement} {n : Nat} (he : db.execute statement = .ok (db', n)) :
    db'.Enumerated := by
  cases statement with
  | select query | count query | present table column keys =>
    obtain ⟨rfl, -⟩ := Prod.mk.injEq .. ▸ Except.ok.inj he
    exact h
  | insert table values =>
    obtain ⟨⟨db₁, row⟩, hinsert, he⟩ := bind_eq_ok.1 he
    obtain ⟨rfl, -⟩ := Prod.mk.injEq .. ▸ pure_eq_ok.1 he
    exact h.insert hinsert
  | update rows values => exact h.updateRows he
  | setKey table column value guards => exact h.updateRows he
  | delete rows =>
    obtain rfl := congrArg Prod.fst (Except.ok.inj he)
    exact h.deleteRows hl hdb _ _
  | deleteLinks table sourceKey parent =>
    obtain rfl := congrArg Prod.fst (Except.ok.inj he)
    exact h.deleteRows hl hdb _ _
  | insertLinks table sourceKey targetKey parent targets => exact h.insertLinks he

end Enumerated

end Database

/-- **The values of reachable sessions are those that their columns enumerate.** -/
theorem Session.enumerated_of_reachable {schemas : List Schema} {r : Registry} {s : Session}
    (h : Registry.assemble schemas = .ok r) (hn : (r.tables.map (·.name)).Nodup)
    (hs : Reachable r s) : s.database.Enumerated := by
  have hl := Registry.tablesLinked h (sound_of_reachable h hn hs).1
  have hkeeps (o : Operation) :
      Keeps (fun db => db.Sound r.tables ∧ db.Enumerated) (perform o) :=
    keeps_perform_of_statements
      (fun _ _ _ _ _ hdb hi => ⟨Database.sound_insert hl hdb.1 hi, hdb.2.insert hi⟩)
      (fun _ _ _ _ hdb he => ⟨Database.sound_execute hl hdb.1 he, hdb.2.execute hl hdb.1 he⟩) o
  refine (holds_of_reachable hkeeps (fun s hstart => ⟨?_, fun t ht => ?_⟩) hs).database.2
  · exact (sound_of_start hn hstart).database
  · rw [tables_of_start hn hstart] at ht
    obtain ⟨d, -, rfl⟩ := List.mem_map.1 ht
    exact List.forall_mem_nil _

end ResourceApi
