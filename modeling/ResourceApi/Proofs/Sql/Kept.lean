import ResourceApi.Proofs.Sql.Rows

/-!
# Kept values

What a column holds has gone through its storage type, so a comparison converts it no further, and
it came from a value of a row, so it is neither bytes nor an integer out of range
(`Affinity.Keeps`). Such values read back as the values of rows that are stored as them
(`SqlValue.ofJson_toJson`).

**Theorems (`Table.Kept.insert`, `Table.Kept.update`, `Database.kept_deleteRows`).** Statements with
values of rows leave only kept values in a table.
-/

namespace ResourceApi

open Text.Numeral (maxInt)

/-! ## Values -/

namespace SqlValue

/-- The value can stand in a statement: no integer is out of range, and there are no bytes. -/
def IsWritten : SqlValue → Prop
  | integer i => i ≤ maxInt
  | blob _ => False
  | _ => True

theorem isWritten_ofJson (value : Json) : (ofJson value).IsWritten := by
  cases value with
  | bool b =>
    show (if b then 1 else 0 : Int) ≤ maxInt
    cases b <;> decide
  | int i =>
    show (if i ≤ maxInt then integer i else real (.ofInt i)).IsWritten
    split
    · assumption
    · trivial
  | _ => trivial

theorem int?_le {s : String} {i : Int} (h : Text.Numeral.int? s = some i) : i ≤ maxInt := by
  unfold Text.Numeral.int? at h
  dsimp only at h
  split at h
  · cases h
  · rw [Option.ite_none_right_eq_some] at h
    obtain ⟨hrange, hi⟩ := h
    rw [Bool.and_eq_true, decide_eq_true_eq, decide_eq_true_eq] at hrange
    exact Option.some.inj hi ▸ hrange.2

/-- A number without fraction becomes an integer in range, and others stay as they are. -/
theorem condense_cases (d : Double) :
    (∃ i, condense d = integer i ∧ i ≤ maxInt) ∨ condense d = real d := by
  unfold condense
  split
  · rename_i i _
    split
    · rename_i hrange
      simp only [Bool.and_eq_true, decide_eq_true_eq] at hrange
      exact .inl ⟨i, rfl, le_of_lt hrange.2⟩
    · exact .inr rfl
  · exact .inr rfl

/-- The number that a text writes is a number in range. -/
theorem number?_cases {s : String} {v : SqlValue} (h : number? s = some v) :
    (∃ i, v = integer i ∧ i ≤ maxInt) ∨ ∃ d, v = real d := by
  unfold number? at h
  dsimp only at h
  split at h
  · rename_i i hi
    exact .inl ⟨i, (Option.some.inj h).symm, int?_le hi⟩
  · obtain ⟨d, -, rfl⟩ := Option.map_eq_some_iff.1 h
    rcases condense_cases (.ofNumeral d.negative d.whole d.fraction d.exponent) with h | h
    · exact .inl h
    · exact .inr ⟨_, h⟩

end SqlValue

namespace Affinity

open SqlValue

/-- A column of this type can hold the value. -/
structure Keeps (a : Affinity) (v : SqlValue) : Prop where
  /-- A comparison with the column leaves the value as it is. -/
  converted : a.convert v = v
  written : v.IsWritten

theorem keeps_null (a : Affinity) : a.Keeps .null := by
  cases a <;> exact ⟨rfl, trivial⟩

theorem keeps_integer {i : Int} (h : i ≤ maxInt) : Affinity.integer.Keeps (.integer i) := ⟨rfl, h⟩

theorem numeric_numeric (v : SqlValue) : numeric (numeric v) = numeric v := by
  cases v with
  | text s =>
    show numeric ((number? s).getD (.text s)) = (number? s).getD (.text s)
    cases hn : number? s with
    | none =>
      rw [Option.getD_none]
      show (number? s).getD (.text s) = .text s
      rw [hn, Option.getD_none]
    | some n => rcases number?_cases hn with ⟨i, rfl, -⟩ | ⟨d, rfl⟩ <;> rfl
  | _ => rfl

theorem isWritten_numeric {v : SqlValue} (h : v.IsWritten) : (numeric v).IsWritten := by
  cases v with
  | text s =>
    show ((number? s).getD (.text s)).IsWritten
    cases hn : number? s with
    | none => trivial
    | some n =>
      rcases number?_cases hn with ⟨i, rfl, hi⟩ | ⟨d, rfl⟩
      · exact hi
      · trivial
  | _ => exact h

theorem textual_textual (v : SqlValue) : textual (textual v) = textual v := by
  cases v <;> rfl

theorem isWritten_textual {v : SqlValue} (h : v.IsWritten) : (textual v).IsWritten := by
  cases v with
  | integer i => trivial
  | real d => trivial
  | _ => exact h

theorem store_text (v : SqlValue) : Affinity.text.store v = textual v := by
  unfold store
  split <;> simp_all

/-- **What a column stores, it keeps.** -/
theorem keeps_store (a : Affinity) {v : SqlValue} (h : v.IsWritten) : a.Keeps (a.store v) := by
  have hnumeric := isWritten_numeric h
  have htwice := numeric_numeric v
  cases a with
  | text =>
    rw [store_text]
    exact ⟨textual_textual v, isWritten_textual h⟩
  | integer =>
    unfold store
    generalize numeric v = n at hnumeric htwice
    cases n with
    | real d =>
      dsimp only
      rcases condense_cases d with ⟨i, hi, hle⟩ | hd
      · rw [hi]
        exact ⟨rfl, hle⟩
      · rw [hd]
        exact ⟨rfl, trivial⟩
    | _ => exact ⟨htwice, hnumeric⟩
  | real =>
    unfold store
    generalize numeric v = n at hnumeric htwice
    cases n with
    | integer i => exact ⟨rfl, trivial⟩
    | real d => exact ⟨rfl, trivial⟩
    | _ => exact ⟨htwice, hnumeric⟩

theorem equals_condense (d : Double) : (condense d).equals (.real d) = true := by
  unfold condense
  split
  · rename_i i hi
    split
    · refine equals_iff.2 ⟨nofun, nofun, ?_⟩
      exact Double.compareInt_of_toInt? hi
    · exact equals_self nofun
  · exact equals_self nofun

/-- A key is stored as what it is compared as. -/
theorem equals_store_ofKey (type : KeyType) {v : SqlValue} (h : (ofKey type).convert v ≠ .null) :
    ((ofKey type).store v).equals ((ofKey type).convert v) = true := by
  cases type with
  | uuid =>
    show (Affinity.text.store v).equals (textual v) = true
    rw [store_text]
    exact equals_self h
  | integer =>
    show (Affinity.integer.store v).equals (numeric v) = true
    replace h : numeric v ≠ .null := h
    unfold store
    generalize numeric v = n at h ⊢
    cases n with
    | real d => exact equals_condense d
    | _ => exact equals_self h

/-- What is compared as null is stored as null. -/
theorem convert_ne_null (type : KeyType) {v : SqlValue} (h : (ofKey type).store v ≠ .null) :
    (ofKey type).convert v ≠ .null := by
  intro hnull
  refine h ?_
  cases type with
  | uuid =>
    show Affinity.text.store v = .null
    rw [store_text]
    exact hnull
  | integer =>
    show Affinity.integer.store v = .null
    replace hnull : numeric v = .null := hnull
    unfold store
    rw [hnull]

/-- A kept text is a text, or null. -/
theorem Keeps.text_cases {v : SqlValue} (h : Affinity.text.Keeps v) :
    v = .null ∨ ∃ s, v = .text s := by
  obtain ⟨hconverted, hwritten⟩ := h
  cases v with
  | null => exact .inl rfl
  | text s => exact .inr ⟨s, rfl⟩
  | integer i => cases hconverted
  | real d => cases hconverted
  | blob bytes => exact hwritten.elim

end Affinity

/-! ## Rows -/

theorem columns_of_foldlM {β : Type} {f : Tuple → β → Option Tuple} {bs : List β}
    (hstep : ∀ b row row', f row b = some row' → row'.map (·.1) = row.map (·.1)) {row row' : Tuple}
    (h : bs.foldlM f row = some row') : row'.map (·.1) = row.map (·.1) := by
  induction bs generalizing row with
  | nil =>
    obtain rfl := Option.some.inj h
    rfl
  | cons b rest ih =>
    rw [List.foldlM_cons] at h
    obtain ⟨next, hnext, h⟩ := Option.bind_eq_some_iff.1 h
    exact (ih h).trans (hstep b row next hnext)

/-- A released row has its columns. -/
theorem Database.columns_of_release {db : Database} {table : String} {deleted : List Tuple}
    {t : Table} {row row' : Tuple} (h : db.release table deleted t row = some row') :
    row'.map (·.1) = row.map (·.1) := by
  refine columns_of_foldlM (fun c row row' hc => columns_of_foldlM (fun k row row' hk => ?_) hc) h
  unfold releaseColumn at hk
  split at hk
  · split at hk
    · split at hk
      · obtain rfl := Option.some.inj hk
        exact Tuple.columns_set _ _ _
      · cases hk
    · obtain rfl := Option.some.inj hk
      rfl
  · obtain rfl := Option.some.inj hk
    rfl

namespace Table

variable {t t' : Table} {row row' values : Tuple} {column : String}

/-- The row has the columns of the table, and each holds a value that it can hold. -/
structure Keeps (t : Table) (row : Tuple) : Prop where
  columns : row.map (·.1) = t.definition.columns.map (·.name)
  values : ∀ column, (t.affinity column).Keeps (row.get column)

theorem keeps_of_definition (hd : t'.definition = t.definition) (h : t.Keeps row) :
    t'.Keeps row where
  columns := hd ▸ h.columns
  values column := by
    have ha : t'.affinity column = t.affinity column := by
      simp only [affinity, column?, hd]
    rw [ha]
    exact h.values column

theorem Keeps.set (h : t.Keeps row) {v : SqlValue} (hv : (t.affinity column).Keeps v) :
    t.Keeps (row.set column v) where
  columns := (row.columns_set column v).trans h.columns
  values other := by
    rw [Tuple.get_set]
    split
    · rename_i ho
      rwa [ho.1]
    · exact h.values other

theorem isWritten_get (h : ∀ c ∈ values, c.2.IsWritten) (column : String) :
    (values.get column).IsWritten := by
  unfold Tuple.get
  split
  · rename_i hc
    exact h _ (List.mem_of_find?_eq_some hc)
  · trivial

theorem keeps_rowOf (t : Table) (h : ∀ c ∈ values, c.2.IsWritten) : t.Keeps (t.rowOf values) where
  columns := by simp [rowOf, Function.comp_def]
  values column := by
    rw [get_rowOf]
    split
    · exact (t.affinity column).keeps_store (isWritten_get h column)
    · exact (t.affinity column).keeps_null

theorem Keeps.assign (h : t.Keeps row) (hv : ∀ c ∈ values, c.2.IsWritten) :
    t.Keeps (t.assign values row) :=
  List.foldlRecOn values _ (motive := t.Keeps) h
    fun _ hrow c hc => hrow.set ((t.affinity c.1).keeps_store (hv c hc))

/-- To become null is to be kept. -/
theorem Keeps.released (h : t.Keeps row) {db : Database} {table : String} {deleted : List Tuple}
    (hr : db.release table deleted t row = some row') : t.Keeps row' where
  columns := (Database.columns_of_release hr).trans h.columns
  values column := by
    rcases (Database.released_of_release hr).1 column with he | ⟨hnull, -⟩
    · rw [he]
      exact h.values column
    · rw [hnull]
      exact (t.affinity column).keeps_null

/-! ## Tables -/

/-- The table holds values that its columns keep, and assigns keys in range. -/
structure Kept (t : Table) : Prop where
  rows : ∀ row ∈ t.rows, t.Keeps row
  lastKey : t.lastKey ≤ maxInt
  /-- Assigned keys are kept as integers. -/
  assigned : ∀ key, t.assignedKey? = some key → t.affinity key = .integer

theorem kept_of_rows (hd : t'.definition = t.definition) (h : t.Kept)
    (hrows : ∀ row ∈ t'.rows, t.Keeps row) (hlast : t'.lastKey ≤ maxInt) : t'.Kept where
  rows row hm := keeps_of_definition hd (hrows row hm)
  lastKey := hlast
  assigned key hk := by
    simp only [assignedKey?, affinity, column?, hd] at hk ⊢
    exact h.assigned key hk

namespace Kept

variable (h : t.Kept)
include h

/-- The next key is in range. -/
theorem nextKey_le {key : String} {next : Int} (hn : t.nextKey key = .ok next) :
    next ≤ maxInt := by
  have hlargest : ∀ i, t.largestKey? key = some i → i ≤ maxInt := by
    intro i hi
    have hm := List.max?_mem hi
    obtain ⟨row, hrow, hkey⟩ := List.mem_filterMap.1 hm
    have hwritten := ((h.rows row hrow).values key).written
    split at hkey
    · rename_i j hj
      obtain rfl := Option.some.inj hkey
      rwa [hj] at hwritten
    · cases hkey
  have hmax : max ((t.largestKey? key).getD 0) t.lastKey ≤ maxInt := by
    refine max_le ?_ h.lastKey
    cases hk : t.largestKey? key with
    | none => decide
    | some i => exact hlargest i hk
  unfold nextKey at hn
  dsimp only at hn
  split at hn
  · cases hn
  · rename_i hne
    obtain rfl := Except.ok.inj hn
    omega

theorem keeps_assignKey (hrow : t.Keeps row) (hk : t.assignKey row = .ok row') : t.Keeps row' := by
  unfold assignKey at hk
  split at hk
  · obtain rfl := Except.ok.inj hk
    exact hrow
  · rename_i key hkey
    split at hk
    · obtain ⟨next, hnext, hk⟩ := bind_eq_ok.1 hk
      obtain rfl := pure_eq_ok.1 hk
      refine hrow.set ?_
      rw [h.assigned key hkey]
      exact Affinity.keeps_integer (h.nextKey_le hnext)
    · obtain rfl := Except.ok.inj hk
      exact hrow
    · cases hk

theorem rememberKey (hrow : t.Keeps row) : (t.rememberKey row).Kept := by
  refine kept_of_rows (t.definition_rememberKey row) h ?_ ?_
  · rw [rows_rememberKey]
    exact h.rows
  · unfold Table.rememberKey
    split
    · rename_i i hi
      obtain ⟨key, -, hkey⟩ := Option.map_eq_some_iff.1 hi
      have hwritten := (hrow.values key).written
      rw [hkey] at hwritten
      exact max_le h.lastKey hwritten
    · exact h.lastKey

theorem add (hrow : t.Keeps row) : (t.add row).Kept := by
  refine kept_of_rows (t.definition_add row) h ?_ ?_
  · intro other ho
    rcases List.mem_cons.1 ((t.rows_add row).subset ho) with rfl | ho
    · exact hrow
    · exact h.rows other ho
  · unfold Table.add
    split
    · exact h.lastKey
    · exact (h.rememberKey hrow).lastKey

theorem insert (hv : ∀ c ∈ values, c.2.IsWritten) (hi : t.insert values = .ok (t', row)) :
    t'.Kept := by
  obtain ⟨hkey, -, rfl⟩ := insert_eq_ok hi
  exact h.add (h.keeps_assignKey (t.keeps_rowOf hv) hkey)

theorem insertOrSkip (hv : ∀ c ∈ values, c.2.IsWritten) (hi : t.insertOrSkip values = .ok t') :
    t'.Kept := by
  obtain ⟨row, hkey, ⟨-, rfl⟩ | ⟨-, rfl⟩⟩ := insertOrSkip_eq_ok hi
  · exact h.add (h.keeps_assignKey (t.keeps_rowOf hv) hkey)
  · exact h.rememberKey (h.keeps_assignKey (t.keeps_rowOf hv) hkey)

omit h in
theorem insertEach {rows : List Tuple} (h : t.Kept)
    (hv : ∀ values ∈ rows, ∀ c ∈ values, c.2.IsWritten) (hi : t.insertEach rows = .ok t') :
    t'.Kept := by
  unfold Table.insertEach at hi
  induction rows generalizing t with
  | nil =>
    obtain rfl := pure_eq_ok.1 hi
    exact h
  | cons values rest ih =>
    rw [List.foldlM_cons] at hi
    obtain ⟨next, hnext, hi⟩ := bind_eq_ok.1 hi
    obtain ⟨hvalues, hrest⟩ := List.forall_mem_cons.1 hv
    exact ih (h.insertOrSkip hvalues hnext) hrest hi

theorem update {picked : Tuple → Bool} (hv : ∀ c ∈ values, c.2.IsWritten)
    (hu : t.update picked values = .ok t') : t'.Kept := by
  obtain ⟨hd, hlast, hrows⟩ := rows_update hu
  refine kept_of_rows hd h (fun row hm => ?_) (hlast ▸ h.lastKey)
  obtain ⟨row, hrow, rfl⟩ := List.mem_map.1 (hrows.subset hm)
  unfold changed
  split
  · exact (h.rows row hrow).assign hv
  · exact h.rows row hrow

end Kept

end Table

namespace Database

variable {db : Database} {table : String}

/-- **A deletion leaves kept values.** -/
theorem kept_deleteRows {picked : Tuple → Bool} (hdb : ∀ u ∈ db.tables, u.Kept) :
    ∀ u ∈ (db.deleteRows table picked).1.tables, u.Kept := by
  intro u hu
  rw [tables_deleteRows] at hu
  obtain ⟨t, ht, rfl⟩ := List.mem_map.1 hu
  refine Table.kept_of_rows (t := t) rfl (hdb t ht) (fun row' hrow' => ?_) (hdb t ht).lastKey
  obtain ⟨row, hrow, hrelease⟩ := mem_survivors hrow'
  exact ((hdb t ht).rows row hrow).released hrelease

end Database

/-! ## Reading values back -/

namespace Schema

variable {schema : Schema} {v w : SqlValue}

/-- The value is a primary key of the schema as its column keeps it. -/
def HoldsKey (schema : Schema) (v : SqlValue) : Prop :=
  match schema.idType with
  | .uuid => ∃ s, v = .text s
  | .integer => ∃ i, v = .integer i ∧ i ≤ maxInt

/-- A primary key that is read and written again is the same. -/
theorem HoldsKey.ofJson_toJson (h : schema.HoldsKey v) :
    SqlValue.ofJson (v.toJson (.ofKey schema.idType)) = v := by
  unfold HoldsKey at h
  split at h
  · obtain ⟨s, rfl⟩ := h
    rfl
  · rename_i hi
    obtain ⟨i, rfl, hle⟩ := h
    rw [hi]
    show SqlValue.ofJson (.int i) = _
    rw [SqlValue.ofJson, if_pos hle]

/-- Equal primary keys are the same. -/
theorem HoldsKey.eq_of_equals (hv : schema.HoldsKey v) (hw : schema.HoldsKey w)
    (h : v.equals w = true) : v = w := by
  unfold HoldsKey at hv hw
  cases hi : schema.idType with
  | uuid =>
    rw [hi] at hv hw
    obtain ⟨s, rfl⟩ := hv
    obtain ⟨s', rfl⟩ := hw
    simpa [SqlValue.equals, SqlValue.compare] using h
  | integer =>
    rw [hi] at hv hw
    obtain ⟨i, rfl, -⟩ := hv
    obtain ⟨j, rfl, -⟩ := hw
    simpa [SqlValue.equals, SqlValue.compare] using h

end Schema

end ResourceApi
