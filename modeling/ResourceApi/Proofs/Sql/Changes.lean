import Mathlib.Data.Multiset.Basic
import ResourceApi.Proofs.Result
import ResourceApi.Sql.Change

/-!
# Changes of tables

A statement puts the changed rows of a table in their place. **Theorems
(`Database.contents_updateRows`, `Database.contents_deleteRows`).** A statement that changes no row
leaves what the tables hold, up to the order of the rows.
-/

namespace ResourceApi

/-! ## Statements that change no row -/

namespace Table

theorem placeBy_perm (key : String) (row : Tuple) (rows : List Tuple) :
    (placeBy key row rows).Perm (row :: rows) := by
  induction rows with
  | nil => exact .refl _
  | cons other rest ih =>
    unfold placeBy
    split
    · exact .refl _
    · exact (ih.cons other).trans (.swap row other rest)

theorem foldl_placeBy_perm (key : String) (rows sorted : List Tuple) :
    (rows.foldl (fun sorted row => placeBy key row sorted) sorted).Perm (rows ++ sorted) := by
  induction rows generalizing sorted with
  | nil => exact .refl _
  | cons row rows ih =>
    exact (ih _).trans (((placeBy_perm key row sorted).append_left rows).trans
      List.perm_middle)

/-- To put rows into the order of the table neither adds nor drops one. -/
theorem arrange_perm (t : Table) (rows : List Tuple) : (t.arrange rows).Perm rows := by
  unfold arrange
  cases t.assignedKey? with
  | none => exact .refl _
  | some key => simpa using foldl_placeBy_perm key rows []

theorem assignEach_of_none {t : Table} {picked : Tuple → Bool} {values : Tuple}
    (done : List Tuple) {rows : List Tuple} (h : ∀ row ∈ rows, picked row = false) :
    t.assignEach picked values done rows = .ok (done ++ rows) := by
  induction rows generalizing done with
  | nil => simp [assignEach]
  | cons row rest ih =>
    have hrow : picked row = false := h row (by simp)
    simp only [assignEach, hrow]
    rw [if_neg (by simp), ih _ fun other ho => h other (by simp [ho])]
    simp

/-- An inserted row has the columns of its table. -/
theorem columns_of_insert {t t' : Table} {values row : Tuple}
    (h : t.insert values = .ok (t', row)) :
    row.map (·.1) = t.definition.columns.map (·.name) := by
  unfold insert at h
  obtain ⟨keyed, hkeyed, h⟩ := bind_eq_ok.1 h
  obtain ⟨⟨⟩, -, h⟩ := bind_eq_ok.1 h
  obtain ⟨-, rfl⟩ := Prod.mk.injEq .. ▸ pure_eq_ok.1 h
  have hrow : (t.rowOf values).map (·.1) = t.definition.columns.map (·.name) := by
    simp [rowOf, Function.comp_def]
  unfold assignKey at hkeyed
  split at hkeyed
  · obtain rfl := Except.ok.inj hkeyed
    exact hrow
  · split at hkeyed
    · obtain ⟨key, -, hkeyed⟩ := bind_eq_ok.1 hkeyed
      obtain rfl := pure_eq_ok.1 hkeyed
      exact (Tuple.columns_set _ _ _).trans hrow
    · obtain rfl := Except.ok.inj hkeyed
      exact hrow
    · cases hkeyed

end Table

namespace Database

/-- What a table of a database holds: its rows in any order, and the last key it assigned. -/
def contents (db : Database) (table : String) :
    Option (TableDefinition × Multiset Tuple × Int) :=
  (db.table? table).map fun t => (t.definition, (t.rows : Multiset Tuple), t.lastKey)

theorem name_of_table? {db : Database} {name : String} {t : Table} (h : db.table? name = some t) :
    t.name = name := by
  simpa using List.find?_some h

theorem table?_modify {db : Database} {table : String} {f : Table → Table}
    (hf : ∀ t, t.name = table → (f t).name = table) (name : String) :
    (db.modify table f).table? name =
      (db.table? name).map fun t => if t.name = table then f t else t := by
  unfold table? modify
  rw [List.find?_map]
  congr 2
  funext t
  by_cases h : t.name = table <;> simp [h, hf]

/-- A table that is changed into one of the same content leaves the content of the database. -/
theorem contents_modify {db : Database} {table : String} {f : Table → Table}
    (hf : ∀ t, t.name = table → (f t).name = table)
    (h : ∀ t, db.table? table = some t → (f t).definition = t.definition ∧
      (f t).rows.Perm t.rows ∧ (f t).lastKey = t.lastKey) :
    (db.modify table f).contents = db.contents := by
  funext name
  unfold contents
  rw [table?_modify hf]
  cases ht : db.table? name with
  | none => rfl
  | some t =>
    by_cases hn : t.name = table
    · obtain ⟨hd, hp, hl⟩ := h t (by rwa [← hn, name_of_table? ht])
      simp [hn, hd, hl, Multiset.coe_eq_coe.2 hp]
    · simp [hn]

theorem checkReferences_eq_ok {db db' : Database} : db.checkReferences = .ok db' → db' = db := by
  unfold checkReferences
  split
  · rintro ⟨⟩
    rfl
  · nofun

theorem tableFor_eq_ok {db : Database} {name : String} {t : Table} :
    db.tableFor name = .ok t → db.table? name = some t := by
  unfold tableFor
  cases db.table? name <;> simp

theorem columns_of_insert {db db' : Database} {table : String} {values row : Tuple}
    (h : db.insert table values = .ok (db', row)) {t : Table} (ht : db.table? table = some t) :
    row.map (·.1) = t.definition.columns.map (·.name) := by
  unfold insert at h
  obtain ⟨u, hu, h⟩ := bind_eq_ok.1 h
  obtain ⟨⟨t', row'⟩, hinsert, h⟩ := bind_eq_ok.1 h
  obtain ⟨db₁, -, h⟩ := bind_eq_ok.1 h
  obtain ⟨-, rfl⟩ := Prod.mk.injEq .. ▸ pure_eq_ok.1 h
  obtain rfl := Option.some.inj ((tableFor_eq_ok hu).symm.trans ht)
  exact Table.columns_of_insert hinsert

/-- An update of no row leaves the content of the database. -/
theorem contents_updateRows {db db' : Database} {table : String} {picked : Tuple → Bool}
    {values : Tuple} (h : db.updateRows table picked values = .ok (db', 0)) :
    db'.contents = db.contents := by
  unfold updateRows at h
  obtain ⟨t, ht, h⟩ := bind_eq_ok.1 h
  obtain ⟨changed, hu, h⟩ := bind_eq_ok.1 h
  obtain ⟨db₁, hc, h⟩ := bind_eq_ok.1 h
  obtain ⟨rfl, hn⟩ := Prod.mk.injEq .. ▸ pure_eq_ok.1 h
  obtain rfl := checkReferences_eq_ok hc
  have ht := tableFor_eq_ok ht
  have hnone : ∀ row ∈ t.rows, picked row = false := by
    simpa [List.filter_eq_nil_iff] using hn
  -- with no row picked, the table is only put into its order
  have hchanged : changed = { t with rows := t.arrange t.rows } := by
    unfold Table.update at hu
    rw [Table.assignEach_of_none [] hnone] at hu
    exact (pure_eq_ok.1 hu).symm
  subst hchanged
  refine contents_modify (fun _ _ => (name_of_table? ht : t.name = table)) fun t' ht' => ?_
  obtain rfl := Option.some.inj (ht'.symm.trans ht)
  exact ⟨rfl, t'.arrange_perm _, rfl⟩

theorem foldlM_some {α β : Type} {f : α → β → Option α} {a : α} {bs : List β}
    (h : ∀ b ∈ bs, f a b = some a) : bs.foldlM f a = some a := by
  induction bs with
  | nil => rfl
  | cons b bs ih =>
    rw [List.foldlM_cons, h b (by simp)]
    exact ih fun c hc => h c (by simp [hc])

/-- Where no row is deleted, none loses its reference. -/
theorem release_nil (db : Database) (table : String) (t : Table) (row : Tuple) :
    db.release table [] t row = some row := by
  refine foldlM_some fun c _ => foldlM_some fun k _ => ?_
  cases k <;> simp [releaseColumn, refersToAny]

/-- A deletion of no row leaves the content of the database. -/
theorem contents_deleteRows {db : Database} {table : String} {picked : Tuple → Bool}
    (h : (db.deleteRows table picked).2 = 0) :
    (db.deleteRows table picked).1.contents = db.contents := by
  have hnil : (db.rows table).filter picked = [] := List.length_eq_zero_iff.1 h
  have hkept : (db.deleteRows table picked).1 =
      db.modify table fun t => { t with rows := t.rows.filter (!picked ·) } := by
    simp [deleteRows, hnil, release_nil]
  rw [hkept]
  refine contents_modify (fun t ht => ht) fun t ht => ⟨rfl, ?_, rfl⟩
  have hrows : t.rows = db.rows table := by simp [rows, ht]
  have hall : t.rows.filter (!picked ·) = t.rows := by
    rw [hrows, List.filter_eq_self]
    simpa [List.filter_eq_nil_iff] using hnil
  simp only [hall]
  exact .refl _

end Database

end ResourceApi
