import ResourceApi.Proofs.Sql.Changes
import ResourceApi.Proofs.Sql.Order

/-!
# Sound databases

A database is *sound* when its tables are as they were created, every row has the values that its
table requires, rows with assigned keys stand in their order, and every reference leads to a row
(`Database.Sound`).

**Theorem (`Database.sound_execute`).** Every statement keeps a database sound. Where rows are
written this is checked, row by row, and the references are checked at the end. A deletion checks
nothing: there it matters that a key becomes null or its row disappears when the row that it refers
to is deleted, and that this changes no row that others refer to (`TablesLinked`).
-/

namespace ResourceApi

/-! ## Tables -/

namespace Table

/-! ### The order of keys -/

section

variable {key : String} {rows sorted : List Tuple}

/-- The rows stand in the order of a key. -/
def InOrder (key : String) (rows : List Tuple) : Prop :=
  rows.Pairwise fun row next => (next.get key).compare (row.get key) ≠ .lt

theorem inOrder_placeBy (h : InOrder key rows) (row : Tuple) :
    InOrder key (placeBy key row rows) := by
  induction rows with
  | nil => exact List.pairwise_singleton _ row
  | cons other rest ih =>
    obtain ⟨hother, hrest⟩ := List.pairwise_cons.1 h
    unfold placeBy
    split
    · rename_i hlt
      rw [beq_iff_eq] at hlt
      refine List.pairwise_cons.2 ⟨fun next hnext => ?_, h⟩
      rcases List.mem_cons.1 hnext with rfl | hnext
      · intro hgt
        rw [Std.OrientedCmp.gt_of_lt hlt] at hgt
        cases hgt
      · exact fun hn => hother next hnext (Std.TransCmp.lt_trans hn hlt)
    · rename_i hlt
      refine List.pairwise_cons.2 ⟨fun next hnext => ?_, ih hrest⟩
      rcases List.mem_cons.1 ((placeBy_perm key row rest).subset hnext) with rfl | hnext
      · simpa using hlt
      · exact hother next hnext

theorem inOrder_foldl_placeBy (h : InOrder key sorted) (rows : List Tuple) :
    InOrder key (rows.foldl (fun sorted row => placeBy key row sorted) sorted) := by
  induction rows generalizing sorted with
  | nil => exact h
  | cons row rest ih => exact ih (inOrder_placeBy h row)

/-- A row that belongs at the end is put there. -/
theorem placeBy_of_last {row : Tuple}
    (h : ∀ other ∈ rows, (row.get key).compare (other.get key) ≠ .lt) :
    placeBy key row rows = rows ++ [row] := by
  induction rows with
  | nil => rfl
  | cons other rest ih =>
    have hother := h other List.mem_cons_self
    rw [placeBy, if_neg (by simpa using hother), ih fun o ho => h o (List.mem_cons_of_mem _ ho),
      List.cons_append]

theorem foldl_placeBy_of_inOrder (h : InOrder key (sorted ++ rows)) :
    rows.foldl (fun sorted row => placeBy key row sorted) sorted = sorted ++ rows := by
  induction rows generalizing sorted with
  | nil => simp
  | cons row rest ih =>
    have hlast : placeBy key row sorted = sorted ++ [row] :=
      placeBy_of_last fun other ho =>
        (List.pairwise_append.1 h).2.2 other ho row List.mem_cons_self
    rw [List.foldl_cons, hlast, ih (by simpa using h), List.append_assoc, List.singleton_append]

end

/-! ### Sound tables -/

/-- The row has a value in every column that requires one, and an integer as assigned key. -/
structure Accepts (t : Table) (row : Tuple) : Prop where
  filled : ∀ c ∈ t.definition.columns, c.acceptsNull (row.get c.name) = true
  key : ∀ key, t.assignedKey? = some key → ∃ i, row.get key = .integer i

/-- The rows have the values that they need, and stand in the order of the assigned key. -/
structure Sound (t : Table) : Prop where
  rows : ∀ row ∈ t.rows, t.Accepts row
  order : ∀ key, t.assignedKey? = some key → InOrder key t.rows

variable {t t' : Table} {row values : Tuple}

/-- Rows in order stay where they are. -/
theorem Sound.arrange_eq (h : t.Sound) : t.arrange t.rows = t.rows := by
  unfold arrange
  cases hk : t.assignedKey? with
  | none => rfl
  | some key =>
    have hrows : InOrder key ([] ++ t.rows) := h.order key hk
    exact foldl_placeBy_of_inOrder hrows

theorem filled_of_check {others : List Tuple} (h : t.check others row = .ok ()) :
    ∀ c ∈ t.definition.columns, c.acceptsNull (row.get c.name) = true := by
  unfold check at h
  split at h
  · cases h
  · rename_i hnone
    simpa using List.find?_eq_none.1 hnone

theorem mem_columns_rowOf {key : String} (h : t.assignedKey? = some key) (values : Tuple) :
    key ∈ (t.rowOf values).map (·.1) := by
  obtain ⟨c, hc, rfl⟩ := Option.map_eq_some_iff.1 h
  have hm := List.mem_of_find?_eq_some hc
  simpa [rowOf] using ⟨c, hm, rfl⟩

/-- A row that was given its key has one. -/
theorem key_of_assignKey (h : t.assignKey (t.rowOf values) = .ok row) {key : String}
    (hk : t.assignedKey? = some key) : ∃ i, row.get key = .integer i := by
  unfold assignKey at h
  rw [hk] at h
  dsimp only at h
  split at h
  · obtain ⟨next, -, h⟩ := bind_eq_ok.1 h
    obtain rfl := pure_eq_ok.1 h
    exact ⟨next, Tuple.get_set_self (mem_columns_rowOf hk values) _⟩
  · rename_i i hi
    obtain rfl := Except.ok.inj h
    exact ⟨i, hi⟩
  · cases h

theorem definition_rememberKey (t : Table) (row : Tuple) :
    (t.rememberKey row).definition = t.definition := by
  unfold rememberKey
  split <;> rfl

theorem rows_rememberKey (t : Table) (row : Tuple) : (t.rememberKey row).rows = t.rows := by
  unfold rememberKey
  split <;> rfl

theorem definition_add (t : Table) (row : Tuple) : (t.add row).definition = t.definition := by
  unfold add
  split
  · rfl
  · exact definition_rememberKey t row

/-- What a sound table is depends on its definition and its rows. -/
theorem sound_of_rows (hd : t'.definition = t.definition)
    (hrows : ∀ row ∈ t'.rows, t.Accepts row)
    (horder : ∀ key, t.assignedKey? = some key → InOrder key t'.rows) : t'.Sound := by
  have hkey : t'.assignedKey? = t.assignedKey? := by rw [assignedKey?, hd, assignedKey?]
  refine ⟨fun row hm => ⟨?_, ?_⟩, ?_⟩
  · rw [hd]
    exact (hrows row hm).filled
  · rw [hkey]
    exact (hrows row hm).key
  · rw [hkey]
    exact horder

theorem Sound.rememberKey (h : t.Sound) (row : Tuple) : (t.rememberKey row).Sound := by
  refine sound_of_rows (definition_rememberKey t row) ?_ ?_
  · rw [rows_rememberKey]
    exact h.rows
  · rw [rows_rememberKey]
    exact h.order

theorem Sound.add (h : t.Sound) (hrow : t.Accepts row) : (t.add row).Sound := by
  have hrows : ∀ other ∈ (t.add row).rows, other = row ∨ other ∈ t.rows := by
    intro other hm
    unfold Table.add at hm
    split at hm
    · simpa [or_comm] using hm
    · exact List.mem_cons.1 ((placeBy_perm _ _ _).subset hm)
  refine sound_of_rows (definition_add t row) ?_ ?_
  · intro other hm
    rcases hrows other hm with rfl | hm
    · exact hrow
    · exact h.rows other hm
  · intro key hk
    unfold Table.add
    rw [hk]
    exact inOrder_placeBy (h.order key hk) row

/-! ### Writing rows -/

/-- An insertion keeps a table sound. -/
theorem sound_insert (hs : t.Sound) (h : t.insert values = .ok (t', row)) :
    t'.Sound ∧ t'.definition = t.definition := by
  unfold insert at h
  obtain ⟨row', hkey, h⟩ := bind_eq_ok.1 h
  obtain ⟨⟨⟩, hcheck, h⟩ := bind_eq_ok.1 h
  obtain ⟨rfl, rfl⟩ := Prod.mk.injEq .. ▸ pure_eq_ok.1 h
  exact ⟨hs.add ⟨filled_of_check hcheck, fun _ => key_of_assignKey hkey⟩, definition_add t row'⟩

theorem sound_insertOrSkip (hs : t.Sound) (h : t.insertOrSkip values = .ok t') :
    t'.Sound ∧ t'.definition = t.definition := by
  unfold insertOrSkip at h
  obtain ⟨row, hkey, h⟩ := bind_eq_ok.1 h
  split at h
  · rename_i hcheck
    obtain rfl := pure_eq_ok.1 h
    exact ⟨hs.add ⟨filled_of_check hcheck, fun _ => key_of_assignKey hkey⟩, definition_add t row⟩
  · obtain rfl := pure_eq_ok.1 h
    exact ⟨hs.rememberKey row, definition_rememberKey t row⟩

theorem sound_insertEach {rows : List Tuple} (hs : t.Sound) (h : t.insertEach rows = .ok t') :
    t'.Sound ∧ t'.definition = t.definition := by
  unfold insertEach at h
  induction rows generalizing t with
  | nil =>
    obtain rfl := pure_eq_ok.1 h
    exact ⟨hs, rfl⟩
  | cons row rest ih =>
    rw [List.foldlM_cons] at h
    obtain ⟨next, hnext, h⟩ := bind_eq_ok.1 h
    obtain ⟨hsound, hdef⟩ := sound_insertOrSkip hs hnext
    obtain ⟨hsound', hdef'⟩ := ih hsound h
    exact ⟨hsound', hdef'.trans hdef⟩

theorem key_of_checkKey (h : t.checkKey row = .ok ()) {key : String}
    (hk : t.assignedKey? = some key) : ∃ i, row.get key = .integer i := by
  unfold checkKey at h
  rw [hk] at h
  dsimp only at h
  split at h
  · exact ⟨_, ‹_›⟩
  · cases h

/-- Every row that is written is checked. -/
theorem accepts_of_assignEach {picked : Tuple → Bool} {done rows result : List Tuple}
    (hdone : ∀ row ∈ done, t.Accepts row) (hrows : ∀ row ∈ rows, t.Accepts row)
    (h : t.assignEach picked values done rows = .ok result) : ∀ row ∈ result, t.Accepts row := by
  have snoc {done : List Tuple} {row : Tuple} (hdone : ∀ row ∈ done, t.Accepts row)
      (hrow : t.Accepts row) : ∀ other ∈ done ++ [row], t.Accepts other := by
    intro other ho
    rcases List.mem_append.1 ho with ho | ho
    · exact hdone other ho
    · rwa [List.mem_singleton.1 ho]
  induction rows generalizing done with
  | nil =>
    obtain rfl := Except.ok.inj h
    exact hdone
  | cons row rest ih =>
    obtain ⟨hrow, hrest⟩ := List.forall_mem_cons.1 hrows
    unfold assignEach at h
    split at h
    · obtain ⟨⟨⟩, hkey, h⟩ := bind_eq_ok.1 h
      obtain ⟨⟨⟩, hcheck, h⟩ := bind_eq_ok.1 h
      exact ih (snoc hdone ⟨filled_of_check hcheck, fun _ => key_of_checkKey hkey⟩) hrest h
    · exact ih (snoc hdone hrow) hrest h

/-- A change of rows keeps a table sound. -/
theorem sound_update {picked : Tuple → Bool} (hs : t.Sound) (h : t.update picked values = .ok t') :
    t'.Sound ∧ t'.definition = t.definition := by
  unfold update at h
  obtain ⟨rows, hrows, h⟩ := bind_eq_ok.1 h
  obtain rfl := pure_eq_ok.1 h
  refine ⟨sound_of_rows (t := t) rfl (fun row hm => ?_) (fun key hk => ?_), rfl⟩
  · exact accepts_of_assignEach (List.forall_mem_nil _) hs.rows hrows row
      ((t.arrange_perm rows).subset hm)
  · unfold arrange
    rw [hk]
    exact inOrder_foldl_placeBy List.Pairwise.nil rows

end Table

/-! ## Definitions -/

/-- What a deletion relies on when it follows the references between tables. -/
structure TablesLinked (definitions : List TableDefinition) : Prop where
  tableNames : (definitions.map (·.name)).Nodup
  columnNames : ∀ d ∈ definitions, (d.columns.map (·.name)).Nodup
  /-- A key that becomes null is in a column that needs no value. -/
  releasable : ∀ d ∈ definitions, ∀ c ∈ d.columns, ∀ table column,
    .references table column .setNull ∈ c.constraints →
      .notNull ∉ c.constraints ∧ .assignedKey ∉ c.constraints
  /-- Rows that others refer to are not deleted along, and what others refer to is no reference. -/
  kept : ∀ d ∈ definitions, ∀ c ∈ d.columns, ∀ table column onDelete,
    .references table column onDelete ∈ c.constraints →
      ∀ target ∈ definitions, target.name = table → ∀ c' ∈ target.columns,
        ∀ table' column' onDelete', .references table' column' onDelete' ∈ c'.constraints →
          onDelete' = .setNull ∧ c'.name ≠ column

/-- The columns of a table are known by their names. -/
theorem TablesLinked.eq_of_name {definitions : List TableDefinition} (h : TablesLinked definitions)
    {d : TableDefinition} (hd : d ∈ definitions) {c c' : ColumnDefinition} (hc : c ∈ d.columns)
    (hc' : c' ∈ d.columns) (hn : c.name = c'.name) : c = c' :=
  List.inj_on_of_nodup_map (h.columnNames d hd) hc hc' hn

namespace Database

variable {db db' : Database} {definitions : List TableDefinition}

/-- The database has the tables of the definitions, its rows are in order, and its references lead
to rows. -/
structure Sound (db : Database) (definitions : List TableDefinition) : Prop where
  definitions : db.tables.map (·.definition) = definitions
  tables : ∀ t ∈ db.tables, t.Sound
  references : db.referencesHold = true

theorem referencesHold_iff : db.referencesHold = true ↔ ∀ t ∈ db.tables, ∀ row ∈ t.rows,
    ∀ c ∈ t.definition.columns, ∀ k ∈ c.constraints,
      db.referenceHolds (row.get c.name) k = true := by
  simp [referencesHold, rowReferencesHold]

theorem mem_of_table? {name : String} {t : Table} (h : db.table? name = some t) : t ∈ db.tables :=
  List.mem_of_find?_eq_some h

theorem mem_rows_iff {name : String} {row : Tuple} :
    row ∈ db.rows name ↔ ∃ t, db.table? name = some t ∧ row ∈ t.rows := by
  unfold rows
  cases db.table? name <;> simp

theorem Sound.mem_definitions (h : db.Sound definitions) {t : Table} (ht : t ∈ db.tables) :
    t.definition ∈ definitions :=
  h.definitions ▸ List.mem_map_of_mem ht

/-! ## Writing rows -/

/-- A table is replaced, and the references are checked. -/
theorem sound_of_modified (hl : TablesLinked definitions) (hs : db.Sound definitions)
    {name : String} {t t' : Table} (ht : db.table? name = some t)
    (hd : t'.definition = t.definition) (ht' : t'.Sound)
    (h : (db.modify name fun _ => t').checkReferences = .ok db') : db'.Sound definitions := by
  obtain rfl := checkReferences_eq_ok h
  have hnames : (db.tables.map Table.name).Nodup := by
    have hn := hl.tableNames
    rwa [← hs.definitions, List.map_map] at hn
  have hone (u : Table) (hu : u ∈ db.tables) (hn : u.name = name) : u = t :=
    List.inj_on_of_nodup_map hnames hu (mem_of_table? ht) (hn.trans (name_of_table? ht).symm)
  refine ⟨?_, ?_, ?_⟩
  · rw [← hs.definitions, modify, List.map_map]
    refine List.map_congr_left fun u hu => ?_
    dsimp only [Function.comp_apply]
    split
    · rename_i hn
      rw [hone u hu hn, hd]
    · rfl
  · intro u hu
    obtain ⟨v, hv, rfl⟩ := List.mem_map.1 hu
    split
    · exact ht'
    · exact hs.tables v hv
  · unfold checkReferences at h
    split at h
    · assumption
    · cases h

theorem sound_insert (hl : TablesLinked definitions) (hs : db.Sound definitions) {table : String}
    {values row : Tuple} (h : db.insert table values = .ok (db', row)) : db'.Sound definitions := by
  unfold insert at h
  obtain ⟨t, ht, h⟩ := bind_eq_ok.1 h
  obtain ⟨⟨t', row'⟩, hinsert, h⟩ := bind_eq_ok.1 h
  obtain ⟨db₁, hc, h⟩ := bind_eq_ok.1 h
  obtain ⟨rfl, -⟩ := Prod.mk.injEq .. ▸ pure_eq_ok.1 h
  have ht := tableFor_eq_ok ht
  obtain ⟨hsound, hd⟩ := Table.sound_insert (hs.tables t (mem_of_table? ht)) hinsert
  exact sound_of_modified hl hs ht hd hsound hc

theorem sound_updateRows (hl : TablesLinked definitions) (hs : db.Sound definitions)
    {table : String} {picked : Tuple → Bool} {values : Tuple} {n : Nat}
    (h : db.updateRows table picked values = .ok (db', n)) : db'.Sound definitions := by
  unfold updateRows at h
  obtain ⟨t, ht, h⟩ := bind_eq_ok.1 h
  obtain ⟨t', hupdate, h⟩ := bind_eq_ok.1 h
  obtain ⟨db₁, hc, h⟩ := bind_eq_ok.1 h
  obtain ⟨rfl, -⟩ := Prod.mk.injEq .. ▸ pure_eq_ok.1 h
  have ht := tableFor_eq_ok ht
  obtain ⟨hsound, hd⟩ := Table.sound_update (hs.tables t (mem_of_table? ht)) hupdate
  exact sound_of_modified hl hs ht hd hsound hc

theorem sound_insertLinks (hl : TablesLinked definitions) (hs : db.Sound definitions)
    {table sourceKey targetKey : String} {parent : SqlValue} {targets : List SqlValue} {n : Nat}
    (h : db.insertLinks table sourceKey targetKey parent targets = .ok (db', n)) :
    db'.Sound definitions := by
  unfold insertLinks at h
  obtain ⟨t, ht, h⟩ := bind_eq_ok.1 h
  obtain ⟨t', hinsert, h⟩ := bind_eq_ok.1 h
  obtain ⟨db₁, hc, h⟩ := bind_eq_ok.1 h
  obtain ⟨rfl, -⟩ := Prod.mk.injEq .. ▸ pure_eq_ok.1 h
  have ht := tableFor_eq_ok ht
  obtain ⟨hsound, hd⟩ := Table.sound_insertEach (hs.tables t (mem_of_table? ht)) hinsert
  exact sound_of_modified hl hs ht hd hsound hc

/-! ## Released rows -/

section

variable {table : String} {deleted : List Tuple} {t : Table} {row row' : Tuple}

/-- The column holds references whose keys become null. -/
def Releases (t : Table) (name : String) : Prop :=
  ∃ c ∈ t.definition.columns, c.name = name ∧
    ∃ target column, .references target column .setNull ∈ c.constraints

/-- Some keys of the row have become null, and everything else is as it was. -/
def Released (t : Table) (row row' : Tuple) : Prop :=
  ∀ name, row'.get name = row.get name ∨ row'.get name = .null ∧ Releases t name

theorem Released.refl (row : Tuple) : Released t row row := fun _ => .inl rfl

theorem Released.trans {row'' : Tuple} (h : Released t row row') (h' : Released t row' row'') :
    Released t row row'' := by
  intro name
  rcases h' name with he | hnull
  · rw [he]
    exact h name
  · exact .inr hnull

/-- The constraint holds no reference to a deleted row. -/
def IsFree (db : Database) (table : String) (deleted : List Tuple) (v : SqlValue)
    (k : Constraint) : Prop :=
  ∀ column onDelete, k = .references table column onDelete →
    db.refersToAny v table column deleted = false

theorem IsFree.released {c : ColumnDefinition} {k : Constraint}
    (h : db.IsFree table deleted (row.get c.name) k) (hr : Released t row row') :
    db.IsFree table deleted (row'.get c.name) k := by
  intro column onDelete hk
  rcases hr c.name with he | ⟨hnull, -⟩
  · rw [he]
    exact h column onDelete hk
  · rw [hnull]
    rfl

theorem IsFree.notMem {v : SqlValue} {column : String} {onDelete : OnDelete}
    (h : db.IsFree table deleted v (.references table column onDelete)) (hv : v ≠ .null)
    {target : Tuple} (hrefers : db.refers v table column target = true) : target ∉ deleted := by
  intro hm
  have hnone := h column onDelete rfl
  unfold refersToAny at hnone
  rw [List.any_eq_true.2 ⟨target, hm, hrefers⟩, Bool.and_true, bne_eq_false_iff_eq] at hnone
  exact hv hnone

theorem get_set_null (row : Tuple) (column : String) :
    (row.set column .null).get column = .null := by
  by_cases h : column ∈ row.map (·.1)
  · exact Tuple.get_set_self h _
  · have hnone : (row.set column .null).find? (·.1 = column) = none := by
      rw [List.find?_eq_none]
      intro cell hcell
      have hm : cell.1 ∈ (row.set column .null).map (·.1) := List.mem_map_of_mem hcell
      rw [Tuple.columns_set] at hm
      rw [decide_eq_true_eq]
      rintro rfl
      exact h hm
    rw [Tuple.get, hnone]

/-- What one reference does to a row. -/
theorem released_of_releaseColumn {c : ColumnDefinition} (hc : c ∈ t.definition.columns)
    {k : Constraint} (hk : k ∈ c.constraints)
    (h : db.releaseColumn table deleted c row k = some row') :
    Released t row row' ∧ db.IsFree table deleted (row'.get c.name) k := by
  unfold releaseColumn at h
  split at h
  · rename_i target column onDelete
    split at h
    · cases onDelete with
      | setNull =>
        obtain rfl := Option.some.inj h
        refine ⟨fun name => ?_, fun _ _ _ => by rw [get_set_null]; rfl⟩
        by_cases hn : c.name = name
        · subst hn
          exact .inr ⟨get_set_null row c.name, c, hc, rfl, target, column, hk⟩
        · exact .inl (Tuple.get_set_of_ne hn row _)
      | cascade => cases h
    · rename_i hnot
      obtain rfl := Option.some.inj h
      refine ⟨.refl row, ?_⟩
      rintro column' onDelete' he
      cases he
      simpa using hnot
  · rename_i hother
    obtain rfl := Option.some.inj h
    exact ⟨.refl row, fun column onDelete he => absurd he (hother _ _ _)⟩

/-- What a fold achieves: its steps are related, and what one of them achieves is not undone. -/
theorem related_of_foldlM_eq_some {α β : Type} {f : α → β → Option α} {R : α → α → Prop}
    {P : β → α → Prop} (hrefl : ∀ a, R a a) (htrans : ∀ {a b c}, R a b → R b c → R a c)
    (hkeeps : ∀ {b a a'}, P b a → R a a' → P b a') {bs : List β}
    (hstep : ∀ b ∈ bs, ∀ {a a'}, f a b = some a' → R a a' ∧ P b a') {a a' : α}
    (h : bs.foldlM f a = some a') : R a a' ∧ ∀ b ∈ bs, P b a' := by
  induction bs generalizing a with
  | nil =>
    obtain rfl := Option.some.inj h
    exact ⟨hrefl a, List.forall_mem_nil _⟩
  | cons b rest ih =>
    rw [List.foldlM_cons] at h
    obtain ⟨next, hnext, h⟩ := Option.bind_eq_some_iff.1 h
    obtain ⟨hb, hrest⟩ := List.forall_mem_cons.1 hstep
    obtain ⟨hfirst, hdone⟩ := hb hnext
    obtain ⟨hlater, hall⟩ := ih hrest h
    exact ⟨htrans hfirst hlater, List.forall_mem_cons.2 ⟨hkeeps hdone hlater, hall⟩⟩

/-- What the references of one column do to a row. -/
theorem released_of_constraints {c : ColumnDefinition} (hc : c ∈ t.definition.columns)
    (h : c.constraints.foldlM (db.releaseColumn table deleted c) row = some row') :
    Released t row row' ∧ ∀ k ∈ c.constraints, db.IsFree table deleted (row'.get c.name) k :=
  related_of_foldlM_eq_some (P := fun k row => db.IsFree table deleted (row.get c.name) k)
    Released.refl Released.trans IsFree.released (fun _ hk => released_of_releaseColumn hc hk) h

/-- **What becomes of a row.** Keys become null, and what is left refers to no deleted row. -/
theorem released_of_release (h : db.release table deleted t row = some row') :
    Released t row row' ∧ ∀ c ∈ t.definition.columns, ∀ k ∈ c.constraints,
      db.IsFree table deleted (row'.get c.name) k :=
  related_of_foldlM_eq_some
    (P := fun c row => ∀ k ∈ c.constraints, db.IsFree table deleted (row.get c.name) k)
    Released.refl Released.trans (fun hfree hr k hk => (hfree k hk).released hr)
    (fun _ hc => released_of_constraints hc) h

theorem exists_foldlM_some {α β : Type} {f : α → β → Option α} {bs : List β}
    (h : ∀ b ∈ bs, ∀ a, ∃ a', f a b = some a') (a : α) : ∃ a', bs.foldlM f a = some a' := by
  induction bs generalizing a with
  | nil => exact ⟨a, rfl⟩
  | cons b rest ih =>
    obtain ⟨hb, hrest⟩ := List.forall_mem_cons.1 h
    obtain ⟨a₁, ha₁⟩ := hb a
    obtain ⟨a₂, ha₂⟩ := ih hrest a₁
    exact ⟨a₂, by rw [List.foldlM_cons, ha₁]; exact ha₂⟩

/-- Where no row is deleted along, every row stays. -/
theorem exists_release (h : ∀ c ∈ t.definition.columns, ∀ target column onDelete,
    .references target column onDelete ∈ c.constraints → onDelete = .setNull) (row : Tuple) :
    ∃ row', db.release table deleted t row = some row' := by
  refine exists_foldlM_some (fun c hc row => exists_foldlM_some (fun k hk row => ?_) row) row
  cases k with
  | references target column onDelete =>
    obtain rfl := h c hc target column onDelete hk
    unfold releaseColumn
    dsimp only
    split <;> exact ⟨_, rfl⟩
  | _ => exact ⟨row, rfl⟩

end

/-! ## Deleting rows -/

section

variable {table : String} {picked : Tuple → Bool}

/-- What is left of a table's rows when rows are deleted. -/
def survivors (db : Database) (table : String) (picked : Tuple → Bool) (t : Table) : List Tuple :=
  (t.rows.filter fun row => !(t.name = table && picked row)).filterMap
    (db.release table ((db.rows table).filter picked) t)

theorem tables_deleteRows : (db.deleteRows table picked).1.tables =
    db.tables.map fun t => { t with rows := db.survivors table picked t } := by
  unfold deleteRows modify survivors
  dsimp only
  rw [List.map_map]
  refine List.map_congr_left fun t _ => ?_
  by_cases hn : t.name = table
  · simp only [Function.comp_apply, hn, if_true, decide_true, Bool.true_and]
    rfl
  · simp [hn]

theorem table?_deleteRows (name : String) : (db.deleteRows table picked).1.table? name =
    (db.table? name).map fun t => { t with rows := db.survivors table picked t } := by
  unfold table?
  rw [tables_deleteRows, List.find?_map]
  rfl

theorem affinity_deleteRows (name column : String) :
    (db.deleteRows table picked).1.affinity name column = db.affinity name column := by
  unfold affinity
  rw [table?_deleteRows]
  cases db.table? name <;> rfl

theorem mem_survivors {t : Table} {row' : Tuple} (h : row' ∈ db.survivors table picked t) :
    ∃ row ∈ t.rows, db.release table ((db.rows table).filter picked) t row = some row' := by
  obtain ⟨row, hrow, hrelease⟩ := List.mem_filterMap.1 h
  exact ⟨row, (List.mem_filter.1 hrow).1, hrelease⟩

/-- A row that others refer to survives with the value that they refer to. -/
theorem exists_survivor (hl : TablesLinked definitions) (hs : db.Sound definitions) {t u : Table}
    (ht : t ∈ db.tables) {c : ColumnDefinition} (hc : c ∈ t.definition.columns)
    {column : String} {onDelete : OnDelete}
    (hk : .references u.name column onDelete ∈ c.constraints) (hu : u ∈ db.tables) {row : Tuple}
    (hrow : row ∈ u.rows) (hstays : ¬(u.name = table ∧ picked row = true)) :
    ∃ row' ∈ db.survivors table picked u, row'.get column = row.get column := by
  have hkept := hl.kept _ (hs.mem_definitions ht) c hc _ column onDelete hk _
    (hs.mem_definitions hu) rfl
  obtain ⟨row', hrelease⟩ : ∃ row',
      db.release table ((db.rows table).filter picked) u row = some row' :=
    exists_release (fun c' hc' _ _ _ hk' => (hkept c' hc' _ _ _ hk').1) row
  refine ⟨row', List.mem_filterMap.2 ⟨row, List.mem_filter.2 ⟨hrow, ?_⟩, hrelease⟩, ?_⟩
  · rw [Bool.not_eq_true', Bool.and_eq_false_imp, decide_eq_true_eq]
    simpa using hstays
  · rcases (released_of_release hrelease).1 column with he | ⟨-, c', hc', hn, _, _, hk'⟩
    · exact he
    · exact absurd hn (hkept c' hc' _ _ _ hk').2

/-- Assigned keys are never released. -/
theorem Released.get_assignedKey (hl : TablesLinked definitions) {t : Table}
    (ht : t.definition ∈ definitions) {row row' : Tuple} (hr : Released t row row') {key : String}
    (hkey : t.assignedKey? = some key) : row'.get key = row.get key := by
  rcases hr key with he | ⟨-, c', hc', hn, _, _, hk⟩
  · exact he
  · obtain ⟨c, hfind, rfl⟩ := Option.map_eq_some_iff.1 hkey
    obtain rfl := hl.eq_of_name ht hc' (List.mem_of_find?_eq_some hfind) hn
    exact absurd (by simpa using List.find?_some hfind) (hl.releasable _ ht c' hc' _ _ hk).2

/-- A table keeps the values that it requires. -/
theorem accepts_released (hl : TablesLinked definitions) {t : Table}
    (ht : t.definition ∈ definitions) {row row' : Tuple} (h : t.Accepts row)
    (hr : Released t row row') : t.Accepts row' := by
  constructor
  · intro c hc
    rcases hr c.name with he | ⟨hnull, c', hc', hn, _, _, hk⟩
    · rw [he]
      exact h.filled c hc
    · obtain rfl := hl.eq_of_name ht hc' hc hn
      have hrequired := (hl.releasable _ ht c' hc' _ _ hk).1
      simp [ColumnDefinition.acceptsNull, hrequired]
  · intro key hkey
    rw [hr.get_assignedKey hl ht hkey]
    exact h.key key hkey

theorem sound_survivors (hl : TablesLinked definitions) (hs : db.Sound definitions) {t : Table}
    (ht : t ∈ db.tables) : Table.Sound { t with rows := db.survivors table picked t } := by
  have hmem := hs.mem_definitions ht
  have hsound := hs.tables t ht
  refine Table.sound_of_rows (t := t) rfl (fun row' hrow' => ?_) (fun key hkey => ?_)
  · obtain ⟨row, hrow, hrelease⟩ := mem_survivors hrow'
    exact accepts_released hl hmem (hsound.rows row hrow) (released_of_release hrelease).1
  · refine ((hsound.order key hkey).filter _).filterMap _ ?_
    intro row next hlt row' hrow' next' hnext'
    rw [(released_of_release hrow').1.get_assignedKey hl hmem hkey,
      (released_of_release hnext').1.get_assignedKey hl hmem hkey]
    exact hlt

/-- The row that a released row refers to was there before, and it has not been deleted. -/
theorem referenceHolds_deleteRows (hl : TablesLinked definitions) (hs : db.Sound definitions)
    {t : Table} (ht : t ∈ db.tables) {row row' : Tuple} (hrow : row ∈ t.rows)
    (hreleased : Released t row row') {c : ColumnDefinition} (hc : c ∈ t.definition.columns)
    {k : Constraint} (hk : k ∈ c.constraints)
    (hfree : db.IsFree table ((db.rows table).filter picked) (row'.get c.name) k) :
    (db.deleteRows table picked).1.referenceHolds (row'.get c.name) k = true := by
  cases k with
  | references target column onDelete =>
    unfold referenceHolds
    rw [Bool.or_eq_true, beq_iff_eq, or_iff_not_imp_left]
    intro hnull
    have he : row'.get c.name = row.get c.name :=
      (hreleased c.name).resolve_right fun h => hnull h.1
    have hheld := referencesHold_iff.1 hs.references t ht row hrow c hc _ hk
    unfold referenceHolds at hheld
    rw [← he, Bool.or_eq_true, beq_iff_eq] at hheld
    obtain ⟨d, hd, hrefers⟩ := List.any_eq_true.1 (hheld.resolve_left hnull)
    obtain ⟨v, hv, hdv⟩ := mem_rows_iff.1 hd
    obtain rfl := name_of_table? hv
    have hstays : ¬(v.name = table ∧ picked d = true) := by
      rintro ⟨rfl, hpicked⟩
      exact hfree.notMem hnull hrefers (List.mem_filter.2 ⟨hd, hpicked⟩)
    obtain ⟨d', hd', hcolumn⟩ := exists_survivor hl hs ht hc hk (mem_of_table? hv) hdv hstays
    have htable : (db.deleteRows table picked).1.table? v.name =
        some { v with rows := db.survivors table picked v } := by
      rw [table?_deleteRows, hv]
      rfl
    refine List.any_eq_true.2 ⟨d', mem_rows_iff.2 ⟨_, htable, hd'⟩, ?_⟩
    unfold refers
    rw [affinity_deleteRows, hcolumn]
    exact hrefers
  | _ => rfl

/-- **A deletion keeps a database sound.** -/
theorem sound_deleteRows (hl : TablesLinked definitions) (hs : db.Sound definitions) :
    (db.deleteRows table picked).1.Sound definitions := by
  refine ⟨?_, ?_, referencesHold_iff.2 ?_⟩
  · rw [tables_deleteRows, List.map_map]
    exact hs.definitions
  · intro u hu
    rw [tables_deleteRows] at hu
    obtain ⟨t, ht, rfl⟩ := List.mem_map.1 hu
    exact sound_survivors hl hs ht
  · intro u hu row' hrow' c hc k hk
    rw [tables_deleteRows] at hu
    obtain ⟨t, ht, rfl⟩ := List.mem_map.1 hu
    obtain ⟨row, hrow, hrelease⟩ := mem_survivors hrow'
    obtain ⟨hreleased, hfree⟩ := released_of_release hrelease
    exact referenceHolds_deleteRows hl hs ht hrow hreleased hc hk (hfree c hc k hk)

end

/-! ## Statements -/

/-- **Statements keep a database sound.** -/
theorem sound_execute (hl : TablesLinked definitions) (hs : db.Sound definitions)
    {statement : Statement} {n : Nat} (h : db.execute statement = .ok (db', n)) :
    db'.Sound definitions := by
  cases statement with
  | select query | count query | present table column keys =>
    obtain ⟨rfl, -⟩ := Prod.mk.injEq .. ▸ Except.ok.inj h
    exact hs
  | insert table values =>
    obtain ⟨⟨db₁, row⟩, hinsert, h⟩ := bind_eq_ok.1 h
    obtain ⟨rfl, -⟩ := Prod.mk.injEq .. ▸ pure_eq_ok.1 h
    exact sound_insert hl hs hinsert
  | update rows values => exact sound_updateRows hl hs h
  | setKey table column value guards => exact sound_updateRows hl hs h
  | delete rows =>
    obtain rfl := congrArg Prod.fst (Except.ok.inj h)
    exact sound_deleteRows hl hs
  | deleteLinks table sourceKey parent =>
    obtain rfl := congrArg Prod.fst (Except.ok.inj h)
    exact sound_deleteRows hl hs
  | insertLinks table sourceKey targetKey parent targets => exact sound_insertLinks hl hs h

end Database

end ResourceApi
