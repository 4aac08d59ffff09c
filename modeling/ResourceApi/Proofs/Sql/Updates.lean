import ResourceApi.Proofs.Sql.Identity
import ResourceApi.Proofs.Store.Enumerated

/-!
# Updates that succeed

**Theorem (`Database.updateRows_of_accepts`).** An update succeeds if it keeps the keys of the rows,
if the changed rows have the values that their columns require, and if the references hold
afterwards. The rows stay in their order, so that all it does is to map them (`Database.mapRows`).

**Theorem (`Database.eq_mapRows`).** Conversely, an update that keeps the order of the rows has
mapped them.

The *frame* of a database is all of it but the rows (`Database.frame`). What statements look up by
name depends on the frame alone.
-/

namespace ResourceApi

namespace Table

variable {t t' : Table} {picked : Tuple → Bool} {values row : Tuple} {rows done : List Tuple}

/-! ## Tables -/

theorem changed_of_definition (hd : t'.definition = t.definition) :
    t'.changed picked values = t.changed picked values := by
  funext row
  simp only [changed, assign, affinity, column?, hd]

/-- The change keeps the assigned key of the rows. -/
def KeepsOrder (t : Table) (f : Tuple → Tuple) : Prop :=
  ∀ key, t.assignedKey? = some key → ∀ row ∈ t.rows, (f row).get key = row.get key

/-- Rows with the same assigned keys are in the same order. -/
theorem KeepsOrder.arrange_eq {f : Tuple → Tuple} (h : t.KeepsOrder f) (hs : t.Sound) :
    t.arrange (t.rows.map f) = t.rows.map f := by
  unfold arrange
  cases hk : t.assignedKey? with
  | none => rfl
  | some key =>
    have horder : InOrder key ([] ++ t.rows.map f) := by
      refine List.pairwise_map.2 ((hs.order key hk).imp_of_mem fun hrow hnext hlt => ?_)
      rwa [h key hk _ hrow, h key hk _ hnext]
    exact foldl_placeBy_of_inOrder horder

/-- The change keeps the values of the rows by which they differ. -/
def KeepsKeys (t : Table) (f : Tuple → Tuple) (rows : List Tuple) : Prop :=
  ∀ key ∈ t.uniqueKeys, ∀ column ∈ key, ∀ row ∈ rows, (f row).get column = row.get column

theorem KeepsKeys.keepsOrder {f : Tuple → Tuple} (h : t.KeepsKeys f t.rows) : t.KeepsOrder f := by
  intro key hk
  have hkey : [key] ∈ t.uniqueKeys := by
    unfold uniqueKeys
    rw [hk]
    exact List.mem_append_left _ List.mem_cons_self
  exact h _ hkey key (List.mem_singleton_self key)

theorem KeepsKeys.sameKey {f : Tuple → Tuple} (h : t.KeepsKeys f rows) {key : List String}
    (hkey : key ∈ t.uniqueKeys) (hrow : row ∈ rows) (other : Tuple) :
    Table.sameKey key (f row) other = Table.sameKey key row other := by
  unfold Table.sameKey
  rw [Bool.eq_iff_iff, List.all_eq_true, List.all_eq_true]
  refine forall₂_congr fun column hcolumn => ?_
  rw [h key hkey column hcolumn row hrow]

theorem assignEach_congr {picked' : Tuple → Bool} (h : ∀ row ∈ rows, picked row = picked' row) :
    t.assignEach picked values done rows = t.assignEach picked' values done rows := by
  induction rows generalizing done with
  | nil => rfl
  | cons row rest ih =>
    obtain ⟨hfirst, hrest⟩ := List.forall_mem_cons.1 h
    simp only [assignEach, hfirst, ih hrest]

theorem check_eq_ok {others : List Tuple} (ha : t.Accepts row) (he : t.Enumerates row)
    (hu : ∀ key ∈ t.uniqueKeys, ∀ other ∈ others, sameKey key row other = false) :
    t.check others row = .ok () := by
  have hfilled : t.definition.columns.find? (fun c => !c.acceptsNull (row.get c.name)) = none := by
    simpa using ha.filled
  have henumerated : t.definition.columns.find? (fun c => !c.acceptsValue (row.get c.name)) =
      none := by
    simpa [Enumerates] using he
  have hunique : t.uniqueKeys.find? (fun key => others.any (sameKey key row)) = none := by
    simpa using hu
  unfold check
  rw [hfilled, henumerated, hunique]

theorem checkKey_eq_ok (ha : t.Accepts row) : t.checkKey row = .ok () := by
  unfold checkKey
  cases hk : t.assignedKey? with
  | none => rfl
  | some key =>
    obtain ⟨i, hi⟩ := ha.key key hk
    simp [hi]

/-- Rows are changed one after the other, each beside rows with the keys that they had before. -/
theorem assignEach_of_accepts (hd : ∀ key ∈ t.uniqueKeys, Distinct key (done ++ rows))
    (hk : t.KeepsKeys (t.changed picked values) rows)
    (ha : ∀ row ∈ rows, t.Accepts (t.changed picked values row))
    (he : ∀ row ∈ rows, t.Enumerates (t.changed picked values row)) :
    t.assignEach picked values done rows = .ok (done ++ rows.map (t.changed picked values)) := by
  induction rows generalizing done with
  | nil => simp [assignEach]
  | cons row rest ih =>
    obtain ⟨harow, harest⟩ := List.forall_mem_cons.1 ha
    obtain ⟨herow, herest⟩ := List.forall_mem_cons.1 he
    have hkrest : t.KeepsKeys (t.changed picked values) rest :=
      fun key hkey column hcolumn row hrow =>
        hk key hkey column hcolumn row (List.mem_cons_of_mem _ hrow)
    have hsame {key : List String} (hkey : key ∈ t.uniqueKeys) :=
      hk.sameKey hkey List.mem_cons_self
    have hothers {key : List String} (hkey : key ∈ t.uniqueKeys) :
        (∀ other ∈ done ++ rest, sameKey key row other = false) ∧ Distinct key (done ++ rest) :=
      distinct_cons.1 ((hd key hkey).perm List.perm_middle.symm)
    have hnext : ∀ key ∈ t.uniqueKeys,
        Distinct key (done ++ [t.changed picked values row] ++ rest) := by
      intro key hkey
      rw [List.append_assoc]
      refine Distinct.perm (distinct_cons.2 ⟨fun other ho => ?_, (hothers hkey).2⟩)
        List.perm_middle
      rw [hsame hkey]
      exact (hothers hkey).1 other ho
    rw [List.map_cons, List.append_cons]
    by_cases hp : picked row = true
    · have hchanged : t.changed picked values row = t.assign values row := by
        rw [changed, if_pos hp]
      rw [hchanged] at harow herow hnext hsame ⊢
      rw [assignEach, if_pos hp]
      refine bind_eq_ok.2 ⟨(), checkKey_eq_ok harow, bind_eq_ok.2 ⟨(), ?_, ?_⟩⟩
      · refine check_eq_ok harow herow fun key hkey other ho => ?_
        rw [hsame hkey]
        exact (hothers hkey).1 other ho
      · exact ih hnext hkrest harest herest
    · have hchanged : t.changed picked values row = row := by rw [changed, if_neg hp]
      rw [hchanged] at hnext ⊢
      rw [assignEach, if_neg hp]
      exact ih hnext hkrest harest herest

/-- **An update of rows that keep their keys succeeds with acceptable rows.** -/
theorem update_of_accepts (hs : t.Sound) (hu : t.Unique)
    (hk : t.KeepsKeys (t.changed picked values) t.rows)
    (ha : ∀ row ∈ t.rows, t.Accepts (t.changed picked values row))
    (he : ∀ row ∈ t.rows, t.Enumerates (t.changed picked values row)) :
    t.update picked values = .ok { t with rows := t.rows.map (t.changed picked values) } := by
  have hassigned : t.assignEach picked values [] t.rows =
      .ok ([] ++ t.rows.map (t.changed picked values)) := assignEach_of_accepts hu hk ha he
  unfold update
  refine bind_eq_ok.2 ⟨_, hassigned, pure_eq_ok.2 ?_⟩
  rw [List.nil_append, hk.keepsOrder.arrange_eq hs]

theorem update_eq_ok (hs : t.Sound) (hk : t.KeepsOrder (t.changed picked values))
    (h : t.update picked values = .ok t') :
    t' = { t with rows := t.rows.map (t.changed picked values) } := by
  unfold update at h
  obtain ⟨rows, hrows, h⟩ := bind_eq_ok.1 h
  obtain rfl := assignEach_eq_ok hrows
  rw [List.nil_append, hk.arrange_eq hs] at h
  exact (pure_eq_ok.1 h).symm

end Table

namespace Database

variable {db db' : Database} {table name column : String} {picked : Tuple → Bool}
  {values : Tuple} {t : Table} {f : Tuple → Tuple}

/-! ## Frames -/

/-- The definitions of the tables and the keys they remember. -/
def frame (db : Database) : List (TableDefinition × Int) :=
  db.tables.map fun t => (t.definition, t.lastKey)

theorem find?_frame (db : Database) (name : String) :
    db.frame.find? (·.1.name = name) = (db.table? name).map fun t => (t.definition, t.lastKey) := by
  rw [frame, List.find?_map]
  rfl

section

variable (h : db'.frame = db.frame)
include h

/-- A table of the same frame. -/
theorem exists_table?_of_frame (ht : db.table? name = some t) :
    ∃ t', db'.table? name = some t' ∧ t'.definition = t.definition ∧ t'.lastKey = t.lastKey := by
  have hfind := db'.find?_frame name
  rw [h, find?_frame, ht] at hfind
  obtain ⟨t', ht', he⟩ := Option.map_eq_some_iff.1 hfind.symm
  obtain ⟨hd, hl⟩ := Prod.mk.inj he
  exact ⟨t', ht', hd, hl⟩

theorem definitions_of_frame : db'.tables.map (·.definition) = db.tables.map (·.definition) := by
  have hfirst := congrArg (List.map (·.1)) h
  simpa [frame, Function.comp_def] using hfirst

end

section

variable (h : db'.tables.map (·.definition) = db.tables.map (·.definition))
include h

theorem map_table?_of_definitions {β : Type} (g : TableDefinition → β) (name : String) :
    (db'.table? name).map (g ·.definition) = (db.table? name).map (g ·.definition) := by
  have hfind (db : Database) : (db.tables.map (·.definition)).find? (·.name = name) =
      (db.table? name).map (·.definition) := by
    rw [List.find?_map]
    rfl
  have hsame := hfind db'
  rw [h, hfind db] at hsame
  simpa [Function.comp_def] using congrArg (Option.map g) hsame.symm

theorem affinity_of_definitions : db'.affinity = db.affinity := by
  have haffinity (db : Database) (table column : String) : db.affinity table column =
      ((db.table? table).map fun t => Table.affinity ⟨t.definition, [], 0⟩ column).getD .text := by
    unfold affinity
    cases db.table? table <;> rfl
  funext table column
  rw [haffinity, haffinity,
    map_table?_of_definitions h fun d => Table.affinity ⟨d, [], 0⟩ column]

theorem hasColumn_of_definitions : db'.hasColumn = db.hasColumn := by
  have hcolumn (db : Database) (table column : String) : db.hasColumn table column =
      ((db.table? table).map fun t =>
        (Table.column? ⟨t.definition, [], 0⟩ column).isSome).getD false := by
    unfold hasColumn
    cases db.table? table <;> rfl
  funext table column
  rw [hcolumn, hcolumn,
    map_table?_of_definitions h fun d => (Table.column? ⟨d, [], 0⟩ column).isSome]

/-- What a statement names is looked up in the definitions. -/
theorem check_of_definitions (statement : Statement) (sql : String) :
    db'.check statement sql = db.check statement sql := by
  have hcolumn := hasColumn_of_definitions h
  have hresolves : db'.resolves = db.resolves := by
    funext names c
    simp only [resolves, hcolumn]
  cases statement <;>
    simp only [check, checkNames, checkAssigned, checkInserted, hresolves, hcolumn]

end

theorem affinity_of_frame (h : db'.frame = db.frame) : db'.affinity = db.affinity :=
  affinity_of_definitions (definitions_of_frame h)

theorem guardHolds_of_frame (h : db'.frame = db.frame) : db'.guardHolds = db.guardHolds := by
  funext table row guard
  cases guard <;> simp only [guardHolds, affinity_of_frame h]

/-- A database is its frame and its rows. -/
theorem eq_of_frame (hn : (db.tables.map Table.name).Nodup) (h : db'.frame = db.frame)
    (hr : ∀ name, db'.rows name = db.rows name) : db' = db := by
  have hdefinitions := definitions_of_frame h
  have hnames : db'.tables.map Table.name = db.tables.map Table.name := by
    have hmap := congrArg (List.map (·.name)) hdefinitions
    rwa [List.map_map, List.map_map] at hmap
  have hrows (db : Database) (hn : (db.tables.map Table.name).Nodup) (t : Table)
      (ht : t ∈ db.tables) : db.rows t.name = t.rows := by
    have hfind : db.table? t.name = some t := find?_eq_some_of_nodup hn ht
    rw [rows, hfind]
  have htables : db'.tables = db.tables := by
    have hlength : db'.tables.length = db.tables.length := by
      simpa [frame] using congrArg List.length h
    refine List.ext_getElem hlength fun i hi hi' => ?_
    have hframe : (db'.tables[i].definition, db'.tables[i].lastKey) =
        (db.tables[i].definition, db.tables[i].lastKey) := by
      have hget := List.getElem_of_eq h (i := i) (by simpa [frame] using hi)
      simpa [frame] using hget
    obtain ⟨hd, hl⟩ := Prod.mk.inj hframe
    have hname : db'.tables[i].name = db.tables[i].name := congrArg TableDefinition.name hd
    have hsame : db'.tables[i].rows = db.tables[i].rows := by
      rw [← hrows db' (hnames ▸ hn) _ (List.getElem_mem hi), ← hrows db hn _ (List.getElem_mem hi'),
        hname, hr]
    calc db'.tables[i]
        = ⟨db'.tables[i].definition, db'.tables[i].rows, db'.tables[i].lastKey⟩ := rfl
      _ = db.tables[i] := by rw [hd, hsame, hl]
  exact congrArg Database.mk htables

/-! ## Mapped rows -/

/-- The rows of a table are mapped. -/
def mapRows (db : Database) (table : String) (f : Tuple → Tuple) : Database :=
  db.modify table fun t => { t with rows := t.rows.map f }

theorem frame_mapRows (db : Database) (table : String) (f : Tuple → Tuple) :
    (db.mapRows table f).frame = db.frame := by
  rw [frame, mapRows, modify, List.map_map]
  refine List.map_congr_left fun t _ => ?_
  rw [Function.comp_apply]
  split <;> rfl

theorem table?_mapRows (db : Database) (table : String) (f : Tuple → Tuple) (name : String) :
    (db.mapRows table f).table? name =
      (db.table? name).map fun t => if t.name = table then { t with rows := t.rows.map f } else t :=
  table?_modify (f := fun t => { t with rows := t.rows.map f }) (fun _ ht => ht) name

theorem rows_mapRows_self (db : Database) (table : String) (f : Tuple → Tuple) :
    (db.mapRows table f).rows table = (db.rows table).map f := by
  rw [rows, rows, table?_mapRows]
  cases ht : db.table? table with
  | none => rfl
  | some t => simp [name_of_table? ht]

theorem rows_mapRows_of_ne (db : Database) (f : Tuple → Tuple) (hn : name ≠ table) :
    (db.mapRows table f).rows name = db.rows name := by
  rw [rows, rows, table?_mapRows]
  cases ht : db.table? name with
  | none => rfl
  | some t => simp [name_of_table? ht, hn]

theorem modify_eq_mapRows (hn : (db.tables.map Table.name).Nodup) (ht : db.table? table = some t) :
    (db.modify table fun _ => { t with rows := t.rows.map f }) = db.mapRows table f := by
  have hsame : ∀ u ∈ db.tables, (if u.name = table then { t with rows := t.rows.map f } else u) =
      if u.name = table then { u with rows := u.rows.map f } else u := by
    intro u hu
    split
    · rename_i hname
      rw [List.inj_on_of_nodup_map hn hu (mem_of_table? ht) (hname.trans (name_of_table? ht).symm)]
    · rfl
  exact congrArg Database.mk (List.map_congr_left hsame)

/-- An update depends on which rows of the table are picked. -/
theorem updateRows_congr {picked' : Tuple → Bool}
    (h : ∀ row ∈ db.rows table, picked row = picked' row) :
    db.updateRows table picked values = db.updateRows table picked' values := by
  unfold updateRows tableFor
  unfold rows at h
  cases ht : db.table? table with
  | none => rfl
  | some t =>
    rw [ht] at h
    have hupdate : t.update picked values = t.update picked' values := by
      unfold Table.update
      rw [Table.assignEach_congr h]
    simp only [bind, Except.bind, hupdate, List.filter_congr h]

/-- Where tables have names of their own, so does a deletion. -/
theorem deleteRows_congr {picked' : Tuple → Bool} (hn : (db.tables.map Table.name).Nodup)
    (h : ∀ row ∈ db.rows table, picked row = picked' row) :
    db.deleteRows table picked = db.deleteRows table picked' := by
  have hdeleted := List.filter_congr h
  have hsurvivors : ∀ t ∈ db.tables,
      db.survivors table picked t = db.survivors table picked' t := by
    intro t ht
    unfold survivors
    rw [hdeleted]
    congr 1
    refine List.filter_congr fun row hrow => ?_
    by_cases hname : t.name = table
    · have htable : db.table? table = some t := hname ▸ find?_eq_some_of_nodup hn ht
      have hrows : row ∈ db.rows table := by rwa [rows, htable]
      rw [h row hrows]
    · simp [hname]
  have htables : (db.deleteRows table picked).1.tables = (db.deleteRows table picked').1.tables := by
    rw [tables_deleteRows, tables_deleteRows]
    exact List.map_congr_left fun t ht => by rw [hsurvivors t ht]
  exact Prod.ext (congrArg Database.mk htables) (congrArg List.length hdeleted)

section

variable (hn : (db.tables.map Table.name).Nodup) (ht : db.table? table = some t) (hs : t.Sound)
include hn ht hs

/-- **An update that keeps keys succeeds with acceptable rows if the references hold.** -/
theorem updateRows_of_accepts (hu : t.Unique)
    (hk : t.KeepsKeys (t.changed picked values) t.rows)
    (ha : ∀ row ∈ t.rows, t.Accepts (t.changed picked values row))
    (he : ∀ row ∈ t.rows, t.Enumerates (t.changed picked values row))
    (hr : (db.mapRows table (t.changed picked values)).referencesHold = true) :
    db.updateRows table picked values =
      .ok (db.mapRows table (t.changed picked values), (t.rows.filter picked).length) := by
  have hfor : db.tableFor table = .ok t := by rw [tableFor, ht]
  have hupdate := Table.update_of_accepts hs hu hk ha he
  unfold updateRows
  refine bind_eq_ok.2 ⟨t, hfor, bind_eq_ok.2 ⟨_, hupdate, bind_eq_ok.2 ⟨_, ?_, rfl⟩⟩⟩
  rw [modify_eq_mapRows hn ht, checkReferences, if_pos hr]

/-- **An update that keeps the order of the rows maps them.** -/
theorem eq_mapRows (hk : t.KeepsOrder (t.changed picked values)) {n : Nat}
    (h : db.updateRows table picked values = .ok (db', n)) :
    db' = db.mapRows table (t.changed picked values) := by
  obtain ⟨u, t', hwrites, hupdate⟩ := writes_updateRows h
  obtain rfl := Option.some.inj (ht.symm.trans hwrites.before)
  rw [hwrites.after, Table.update_eq_ok hs hk hupdate, modify_eq_mapRows hn ht]

end

end Database

end ResourceApi
