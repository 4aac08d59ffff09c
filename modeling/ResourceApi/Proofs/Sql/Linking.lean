import ResourceApi.Proofs.Sql.Links

/-!
# What linking does

Links are written by one statement or by two: those that are not asked for go first, where they are
to be replaced, and those that are asked for follow. The statements write one column of one table,
or one join table (`Association.place`), and *spare* what is stored elsewhere
(`Association.Spares`).

**Theorem (`Database.Executes.tally_of_spares`).** Rows are counted as before with what an
association spares.

**Theorem (`Association.rows_of_executes`).** Where links are keys, they are the primary key of the
parent in the rows that are named, and in no others if links are replaced
(`Association.keyAfter`).
-/

namespace ResourceApi

variable {schemas : List Schema} {r : Registry} {db db' : Database} {a : Association}

namespace Schema

variable {schema : Schema} {v : SqlValue}

/-- A comparison with a primary key leaves a primary key as it is. -/
theorem HoldsKey.convert (h : schema.HoldsKey v) :
    (Affinity.ofKey schema.idType).convert v = v := by
  unfold HoldsKey at h
  split at h
  · rename_i hi
    obtain ⟨s, rfl⟩ := h
    rw [hi]
    rfl
  · rename_i hi
    obtain ⟨i, rfl, -⟩ := h
    rw [hi]
    rfl

theorem HoldsKey.ne_null (h : schema.HoldsKey v) : v ≠ .null := by
  unfold HoldsKey at h
  split at h
  · obtain ⟨s, rfl⟩ := h
    nofun
  · obtain ⟨i, rfl, -⟩ := h
    nofun

/-- A primary key is stored as it is. -/
theorem HoldsKey.store (h : schema.HoldsKey v) :
    (Affinity.ofKey schema.idType).store v = v := by
  unfold HoldsKey at h
  split at h
  · rename_i hi
    obtain ⟨s, rfl⟩ := h
    rw [hi]
    rfl
  · rename_i hi
    obtain ⟨i, rfl, -⟩ := h
    rw [hi]
    rfl

end Schema

/-- The identifier of a row is its primary key as it is stored. -/
theorem Database.Regular.holdsKey_ofJson {schema : Schema} (hdb : db.Regular r) (hc : r.Creatable)
    (hs : schema ∈ r.schemas) {id : Json} (hid : db.HasRow schema id) :
    schema.HoldsKey (.ofJson id) := by
  obtain ⟨row, hrow, rfl⟩ := hid
  rw [hdb.ofJson_idOf hc hs hrow]
  exact hdb.holdsKey hc hs hrow

/-- A row is found by its identifier. -/
theorem Database.Regular.hasId_idOf {schema : Schema} {row : Tuple} (hdb : db.Regular r)
    (hc : r.Creatable) (hs : schema ∈ r.schemas) (hrow : row ∈ db.rows schema.tableName) :
    db.hasId schema (schema.idOf row) row = true := by
  rw [hasId, affinity_idColumn hc hdb.sound hs, hdb.ofJson_idOf hc hs hrow,
    (hdb.holdsKey hc hs hrow).convert]
  exact SqlValue.equals_self (hdb.idColumn_ne_null hc hs hrow)

/-! ## Statements one after the other -/

namespace Database

/-- The statements succeed one after the other. -/
inductive Executes : Database → List Statement → Database → Prop
  | nil (db : Database) : Executes db [] db
  | cons {db mid db' : Database} {statement : Statement} {rest : List Statement} {n : Nat} :
      db.execute statement = .ok (mid, n) → Executes mid rest db' →
      Executes db (statement :: rest) db'

variable {statements : List Statement}

/-- What each of the statements keeps, they keep together. -/
theorem Executes.keeps {P : Database → Prop} (h : Executes db statements db')
    (hstep : ∀ statement ∈ statements, ∀ db db' n, P db → db.execute statement = .ok (db', n) →
      P db') (hdb : P db) : P db' := by
  induction h with
  | nil db => exact hdb
  | cons he _ ih =>
    exact ih (fun statement hm => hstep statement (List.mem_cons_of_mem _ hm))
      (hstep _ List.mem_cons_self _ _ _ hdb he)

theorem Executes.exists_of_append {first second : List Statement}
    (h : Executes db (first ++ second) db') :
    ∃ mid, Executes db first mid ∧ Executes mid second db' := by
  induction first generalizing db with
  | nil => exact ⟨db, .nil db, h⟩
  | cons statement rest ih =>
    cases h with
    | cons he h =>
      obtain ⟨mid, hfirst, hsecond⟩ := ih h
      exact ⟨mid, .cons he hfirst, hsecond⟩

theorem Executes.of_singleton {statement : Statement} (h : Executes db [statement] db') :
    ∃ n, db.execute statement = .ok (db', n) := by
  cases h with
  | cons he h =>
    cases h
    exact ⟨_, he⟩

theorem Executes.append {mid : Database} {first second : List Statement}
    (h : Executes db first mid) (h' : Executes mid second db') :
    Executes db (first ++ second) db' := by
  induction h with
  | nil => exact h'
  | cons he _ ih => exact .cons he (ih h')

/-- A statement is left out where there is nothing to do. -/
theorem executes_unless_iff {nothing : Bool} {statement : Statement} :
    Executes db (if nothing then [] else [statement]) db' ↔
      nothing = true ∧ db' = db ∨ nothing = false ∧ ∃ n, db.execute statement = .ok (db', n) := by
  cases nothing with
  | true =>
    constructor
    · intro h
      cases h
      exact .inl ⟨rfl, rfl⟩
    · rintro (⟨-, rfl⟩ | ⟨hne, -⟩)
      · exact .nil _
      · cases hne
  | false =>
    constructor
    · intro h
      exact .inr ⟨rfl, h.of_singleton⟩
    · rintro (⟨hne, -⟩ | ⟨-, n, he⟩)
      · cases hne
      · exact .cons he (.nil _)

theorem Regular.execute (hdb : db.Regular r) (hl : TablesLinked r.tables) {statement : Statement}
    {n : Nat} (hv : ∀ v ∈ statement.written, v.IsWritten)
    (h : db.execute statement = .ok (db', n)) : db'.Regular r :=
  ⟨sound_execute hl hdb.sound h, hdb.proper.execute hv h⟩

theorem Executes.regular_ofLinks {parent : Json} {ids : List Json} {replace : Bool}
    (h : Executes db statements db') (hsub : statements ⊆ Statement.ofLinks a parent ids replace)
    (hl : TablesLinked r.tables) (hdb : db.Regular r) : db'.Regular r :=
  h.keeps (fun _ hm _ _ _ hdb he => hdb.execute hl (Statement.isWritten_ofLinks _ (hsub hm)) he) hdb

end Database

/-! ## Where links are written -/

namespace Association

/-- The table that the association writes its links to, and the column, if it is only one. -/
def place (a : Association) : String × Option String :=
  match a.kind with
  | .belongsTo key => (a.source.tableName, some (columnName key))
  | .hasOne key | .hasMany key => (a.target.tableName, some (columnName key))
  | .hasManyThrough join => (join.table, none)

/-- The association writes its links to another table, or to another column than the values are in.
-/
def Spares (a : Association) (table : String) (pattern : Tuple) : Prop :=
  match a.place with
  | (written, some column) => table = written → ∀ c ∈ pattern, c.1 ≠ column
  | (written, none) => table ≠ written

variable {parent : Json} {ids : List Json} {replace : Bool} {key : String}

/-- The association is stored in a derived key of its target. -/
def HasKey (a : Association) (key : String) : Prop := a.kind = .hasOne key ∨ a.kind = .hasMany key

theorem refers_of_hasKey (hk : a.HasKey key) (hr : a.RefersToEnds r) :
    r.Refers a.target.tableName (columnName key) a.source := by
  rcases hk with hk | hk <;> simpa [RefersToEnds, hk] using hr

theorem ofLinks_of_hasKey (hk : a.HasKey key) (parent : Json) (ids : List Json) (replace : Bool) :
    Statement.ofLinks a parent ids replace =
      (if replace then
        [.setKey a.target.tableName (columnName key) none
          (.equals (columnName key) (.ofJson parent) ::
            if ids.isEmpty then [] else [.notAmong a.target.idColumn (ids.map .ofJson)])]
      else []) ++
      if ids.isEmpty then [] else
        [.setKey a.target.tableName (columnName key) (some (.ofJson parent))
          [.among a.target.idColumn (ids.map .ofJson)]] := by
  unfold Statement.ofLinks
  rcases hk with hk | hk <;> simp only [hk, List.isEmpty_map]

theorem ofLinks_of_through {join : JoinTable} (hk : a.kind = .hasManyThrough join) (parent : Json)
    (ids : List Json) (replace : Bool) :
    Statement.ofLinks a parent ids replace =
      (if replace then [.deleteLinks join.table (columnName join.sourceKey) (.ofJson parent)]
      else []) ++
      if ids.isEmpty then [] else
        [.insertLinks join.table (columnName join.sourceKey) (columnName join.targetKey)
          (.ofJson parent) (ids.map .ofJson)] := by
  unfold Statement.ofLinks
  simp only [hk, List.isEmpty_map]

/-- Links are written to the place of the association. -/
theorem mem_ofLinks {statement : Statement}
    (h : statement ∈ Statement.ofLinks a parent ids replace) :
    (∃ table column value guards, a.place = (table, some column) ∧
      statement = .setKey table column value guards) ∨
    ∃ join, a.kind = .hasManyThrough join ∧
      (statement = .deleteLinks join.table (columnName join.sourceKey) (.ofJson parent) ∨
        statement = .insertLinks join.table (columnName join.sourceKey) (columnName join.targetKey)
          (.ofJson parent) (ids.map .ofJson)) := by
  have written {key : String} (hk : a.HasKey key) : ∃ value guards,
      statement = .setKey a.target.tableName (columnName key) value guards := by
    rw [ofLinks_of_hasKey hk] at h
    rcases List.mem_append.1 h with h | h <;> split at h
    · exact ⟨_, _, List.mem_singleton.1 h⟩
    · cases h
    · cases h
    · exact ⟨_, _, List.mem_singleton.1 h⟩
  cases hk : a.kind with
  | belongsTo key =>
    unfold Statement.ofLinks at h
    simp only [hk] at h
    split at h
    · cases h
    · exact .inl ⟨_, _, _, _, by rw [place, hk], List.mem_singleton.1 h⟩
  | hasOne key =>
    obtain ⟨value, guards, rfl⟩ := written (.inl hk)
    exact .inl ⟨_, _, _, _, by rw [place, hk], rfl⟩
  | hasMany key =>
    obtain ⟨value, guards, rfl⟩ := written (.inr hk)
    exact .inl ⟨_, _, _, _, by rw [place, hk], rfl⟩
  | hasManyThrough join =>
    rw [ofLinks_of_through hk] at h
    refine .inr ⟨join, rfl, ?_⟩
    rcases List.mem_append.1 h with h | h <;> split at h
    · exact .inl (List.mem_singleton.1 h)
    · cases h
    · cases h
    · exact .inr (List.mem_singleton.1 h)

end Association

namespace Association

variable {owner other : Schema} {field : String}

/-! ### Keys -/

theorem keyOn_or_through (a : Association) :
    (∃ owner field other, a.KeyOn owner field other) ∨ ∃ join, a.kind = .hasManyThrough join := by
  cases hk : a.kind with
  | belongsTo key => exact .inl ⟨_, _, _, .belongsTo hk⟩
  | hasOne key => exact .inl ⟨_, _, _, .hasOne hk⟩
  | hasMany key => exact .inl ⟨_, _, _, .hasMany hk⟩
  | hasManyThrough join => exact .inr ⟨join, rfl⟩

theorem place_of_keyOn (h : a.KeyOn owner field other) :
    a.place = (owner.tableName, some (columnName field)) := by
  cases h <;> simp_all [place]

theorem refers_of_keyOn (h : a.KeyOn owner field other) (hr : a.RefersToEnds r) :
    r.Refers owner.tableName (columnName field) other := by
  cases h <;> simp_all [RefersToEnds]

/-- Rows with a derived key link with it and with their primary key. -/
theorem link_of_keyOn (h : a.KeyOn owner field other) (p q : SqlValue) :
    a.linkTable = owner.tableName ∧
      ∀ c ∈ a.link p q, c.1 = owner.idColumn ∨ c.1 = columnName field := by
  cases h <;> simp_all [linkTable, link, sourceColumn, targetColumn]

end Association

/-! ## What is spared -/

section

variable (h : Registry.assemble schemas = .ok r) (hc : r.Creatable)
include h hc

/-- A join table is not the table of a schema. -/
theorem Registry.Creatable.tableName_ne {schema : Schema} (ha : a ∈ r.associations)
    {join : JoinTable} (hk : a.kind = .hasManyThrough join) (hs : schema ∈ r.schemas) :
    schema.tableName ≠ join.table := by
  have hstored : a.isStoredIn join.table = true := by
    simp [Association.isStoredIn, Association.join?_eq_some.2 hk]
  obtain ⟨first, made, -, -, htable, hfilter⟩ := Registry.exists_first_of_isStoredIn h ha hstored
  have hj : (first, made) ∈ r.joinAssociations :=
    (List.mem_filter.1 (hfilter ▸ List.mem_singleton_self _)).1
  have hnames := hc.tableNames
  rw [Registry.tables, List.map_append, List.nodup_append] at hnames
  refine htable ▸ hnames.2.2 _ ?_ _ ?_
  · exact List.mem_map.2 ⟨r.tableOf schema, List.mem_map_of_mem hs, rfl⟩
  · exact List.mem_map.2 ⟨Registry.joinTableOf first made,
      List.mem_map_of_mem (f := fun x => Registry.joinTableOf x.1 x.2) hj, rfl⟩

/-- Nothing refers to the rows of a join table. -/
theorem Database.unreferenced_of_through (hd : db.tables.map (·.definition) = r.tables)
    (ha : a ∈ r.associations) {join : JoinTable} (hk : a.kind = .hasManyThrough join) :
    db.Unreferenced join.table := by
  intro t ht c hcolumn column onDelete hreference
  have hm : t.definition ∈ r.tables := hd ▸ List.mem_map_of_mem ht
  obtain ⟨target, htarget, htable, -⟩ := Registry.reference_target h hm hcolumn hreference
  exact hc.tableName_ne h ha hk htarget htable.symm

/-- **Links are written to their place only.** -/
theorem Database.Executes.tally_of_spares {parent : Json} {ids : List Json} {replace : Bool}
    (he : Executes db (Statement.ofLinks a parent ids replace) db') (ha : a ∈ r.associations)
    (hdb : db.Regular r) {table : String} {pattern : Tuple} (hspares : a.Spares table pattern) :
    db'.tally table pattern = db.tally table pattern := by
  have hl := Registry.tablesLinked h hc
  refine (he.keeps (P := fun d => d.Regular r ∧ d.tally table pattern = db.tally table pattern)
    ?_ ⟨hdb, rfl⟩).2
  rintro statement hm d d' n ⟨hd, htally⟩ hexecute
  refine ⟨hd.execute hl (Statement.isWritten_ofLinks _ hm) hexecute, Eq.trans ?_ htally⟩
  unfold Association.Spares at hspares
  rcases Association.mem_ofLinks hm with
    ⟨written, column, value, guards, hplace, rfl⟩ | ⟨join, hk, rfl | rfl⟩
  · rw [hplace] at hspares
    exact tally_updateRows hexecute fun ht c hcolumn => by simpa using hspares ht c hcolumn
  · have hne : table ≠ join.table := by simpa [Association.place, hk] using hspares
    obtain rfl := congrArg Prod.fst (Except.ok.inj hexecute)
    exact tally_deleteRows_of_unreferenced
      (unreferenced_of_through h hc hd.sound.definitions ha hk) _ hne
  · have hne : table ≠ join.table := by simpa [Association.place, hk] using hspares
    exact tally_insertLinks_of_ne hexecute hne

/-- Associations that are stored in different places spare each other's links. -/
theorem Association.spares_of_place_ne {b : Association} (ha : a ∈ r.associations)
    (hb : b ∈ r.associations) (hrb : b.RefersToEnds r) (hne : a.place ≠ b.place)
    (p q : SqlValue) : b.Spares a.linkTable (a.link p q) := by
  have hcoherent := Registry.coherent_of_assemble h
  rcases b.keyOn_or_through with ⟨owner, field, other, hon⟩ | ⟨join, hk⟩
  · have howner := hcoherent.mem_of_keyOn hb hon
    have hplace := place_of_keyOn hon
    have hrefers := refers_of_keyOn hon hrb
    rw [hplace] at hne
    unfold Spares
    rw [hplace]
    intro htable c hcolumn
    rcases a.keyOn_or_through with ⟨owner', field', other', hon'⟩ | ⟨join, hk⟩
    · obtain ⟨hlink, hcolumns⟩ := link_of_keyOn hon' p q
      rw [hlink] at htable
      rcases hcolumns c hcolumn with he | he <;> rw [he]
      · rw [← htable] at hrefers
        exact (hrefers.ne_idColumn hc (hcoherent.mem_of_keyOn ha hon')).symm
      · rw [place_of_keyOn hon', htable] at hne
        exact fun he => hne (by rw [he])
    · refine absurd htable.symm ?_
      rw [linkTable, hk]
      exact hc.tableName_ne h ha hk howner
  · unfold Spares
    rw [place, hk]
    rcases a.keyOn_or_through with ⟨owner', field', other', hon'⟩ | ⟨join', hk'⟩
    · rw [(link_of_keyOn hon' p q).1]
      exact hc.tableName_ne h hb hk (hcoherent.mem_of_keyOn ha hon')
    · rw [linkTable, hk']
      simpa [place, hk, hk'] using hne

/-- Links are not written to primary keys. -/
theorem Association.spares_idColumn {schema : Schema} (ha : a ∈ r.associations)
    (hr : a.RefersToEnds r) (hs : schema ∈ r.schemas) (v : SqlValue) :
    a.Spares schema.tableName [(schema.idColumn, v)] := by
  have hcoherent := Registry.coherent_of_assemble h
  unfold Spares
  rcases a.keyOn_or_through with ⟨owner, field, other, hon⟩ | ⟨join, hk⟩
  · have hrefers := refers_of_keyOn hon hr
    rw [place_of_keyOn hon]
    intro htable c hcolumn
    obtain rfl := List.mem_singleton.1 hcolumn
    rw [← htable] at hrefers
    exact (hrefers.ne_idColumn hc hs).symm
  · rw [place, hk]
    exact hc.tableName_ne h ha hk hs

end

/-! ## Setting keys -/

namespace Database

variable {table column : String} {schema : Schema} {value : Option SqlValue}
  {guards : List Guard} {n : Nat}

/-- What setting a key makes of the rows of its table. -/
theorem rows_setKey (hdb : db.Regular r) (hc : r.Creatable) (hr : r.Refers table column schema)
    (h : db.execute (.setKey table column value guards) = .ok (db', n)) :
    ∃ f : Tuple → Tuple, (db'.rows table).Perm ((db.rows table).map f) ∧
      (∀ row ∈ db.rows table, (f row).get column =
        if guards.all (db.guardHolds table row) = true
          then (Affinity.ofKey schema.idType).store (value.getD .null) else row.get column) ∧
      ∀ row other, other ≠ column → (f row).get other = row.get other := by
  obtain ⟨t, ht, hrows, -⟩ := rows_updateRows h
  obtain ⟨u, hu, hm, haffinity, c, hcolumn, rfl, -⟩ := exists_of_refers hc hdb.sound hr
  obtain rfl := Option.some.inj (ht.symm.trans hu)
  refine ⟨_, hrows, fun row hrow => ?_, fun row other hne => ?_⟩
  · obtain ⟨u, hu, hrow⟩ := mem_rows_iff.1 hrow
    obtain rfl := Option.some.inj (ht.symm.trans hu)
    have hname : c.name ∈ row.map (·.1) := by
      rw [((hdb.proper.kept t hm).rows row hrow).columns]
      exact List.mem_map_of_mem hcolumn
    unfold Table.changed
    split
    · rw [← haffinity]
      exact Tuple.get_set_self hname _
    · rfl
  · unfold Table.changed
    split
    · exact Tuple.get_set_of_ne hne.symm _ _
    · rfl

end Database

theorem Affinity.store_null (a : Affinity) : a.store .null = .null := by
  cases a <;> rfl

namespace Association

variable {key : String} {parent : Json} {ids : List Json} {replace : Bool}

/-- The row has one of the identifiers. -/
def isNamed (a : Association) (ids : List Json) (row : Tuple) : Bool :=
  ids.any fun id => (row.get a.target.idColumn).equals (.ofJson id)

/-- The key of a row once links are written: a named row refers to the parent, and where links are
replaced, no other row does. -/
def keyAfter (a : Association) (key : String) (parent : Json) (ids : List Json) (replace : Bool)
    (row : Tuple) : SqlValue :=
  let parent := SqlValue.ofJson parent
  if a.isNamed ids row then (Affinity.ofKey a.source.idType).store parent
  else if replace &&
      (row.get (columnName key)).equals ((Affinity.ofKey a.source.idType).convert parent)
    then .null
  else row.get (columnName key)

section

variable (hk : a.HasKey key) (hc : r.Creatable) (hr : a.RefersToEnds r) (hdb : db.Regular r)
  (ht : a.target ∈ r.schemas) (hids : ∀ id ∈ ids, a.target.HoldsKey (.ofJson id))
include hk hc hr hdb ht hids

omit hk hr in
theorem guardHolds_among (row : Tuple) :
    db.guardHolds a.target.tableName row (.among a.target.idColumn (ids.map .ofJson)) =
      a.isNamed ids row := by
  show (ids.map SqlValue.ofJson).any _ = ids.any _
  rw [List.any_map, Database.affinity_idColumn hc hdb.sound ht, Bool.eq_iff_iff, List.any_eq_true,
    List.any_eq_true]
  refine exists_congr fun id => and_congr_right fun hid => ?_
  rw [Function.comp_apply, (hids id hid).convert]

omit hk hr in
/-- A row is outside of the identifiers if it has none of them. -/
theorem guardHolds_notAmong {row : Tuple} (hrow : row ∈ db.rows a.target.tableName) :
    db.guardHolds a.target.tableName row (.notAmong a.target.idColumn (ids.map .ofJson)) =
      !a.isNamed ids row := by
  have hnone : (ids.map SqlValue.ofJson).contains .null = false := by
    rw [Bool.eq_false_iff, Ne, List.contains_iff_mem]
    intro hm
    obtain ⟨id, hid, hnull⟩ := List.mem_map.1 hm
    exact (hids id hid).ne_null hnull
  have hamong := guardHolds_among hc hdb ht hids row
  unfold Database.guardHolds at hamong ⊢
  dsimp only at hamong ⊢
  rw [hamong, hnone]
  simp [hdb.idColumn_ne_null hc ht hrow]

/-- Where links are replaced, the key is taken from the rows that are not named. -/
theorem rows_of_clearing {n : Nat}
    (h : db.execute (.setKey a.target.tableName (columnName key) none
      (.equals (columnName key) (.ofJson parent) ::
        if ids.isEmpty then [] else [.notAmong a.target.idColumn (ids.map .ofJson)])) =
          .ok (db', n)) :
    ∃ f : Tuple → Tuple, (db'.rows a.target.tableName).Perm ((db.rows a.target.tableName).map f) ∧
      (∀ row ∈ db.rows a.target.tableName, (f row).get (columnName key) =
        if !a.isNamed ids row && (row.get (columnName key)).equals
            ((Affinity.ofKey a.source.idType).convert (.ofJson parent))
          then .null else row.get (columnName key)) ∧
      ∀ row other, other ≠ columnName key → (f row).get other = row.get other := by
  have hrefers := refers_of_hasKey hk hr
  obtain ⟨f, hrows, hkeys, hothers⟩ := Database.rows_setKey hdb hc hrefers h
  refine ⟨f, hrows, fun row hrow => ?_, hothers⟩
  have hguards : (Guard.equals (columnName key) (SqlValue.ofJson parent) ::
      if ids.isEmpty then [] else [.notAmong a.target.idColumn (ids.map .ofJson)]).all
        (db.guardHolds a.target.tableName row) =
      (!a.isNamed ids row && (row.get (columnName key)).equals
        ((Affinity.ofKey a.source.idType).convert (.ofJson parent))) := by
    have hequals : db.guardHolds a.target.tableName row
        (.equals (columnName key) (.ofJson parent)) = (row.get (columnName key)).equals
          ((Affinity.ofKey a.source.idType).convert (.ofJson parent)) := by
      rw [Database.guardHolds, Database.affinity_of_refers hc hdb.sound hrefers]
    rw [List.all_cons, hequals, Bool.and_comm]
    congr 1
    by_cases hempty : ids = []
    · subst hempty
      rfl
    · rw [if_neg (by simpa using hempty), List.all_cons, List.all_nil, Bool.and_true,
        guardHolds_notAmong hc hdb ht hids hrow]
  rw [hkeys row hrow, hguards]
  exact if_congr Iff.rfl (Affinity.store_null _) rfl

/-- The named rows get the key. -/
theorem rows_of_setting {n : Nat}
    (h : db.execute (.setKey a.target.tableName (columnName key) (some (.ofJson parent))
      [.among a.target.idColumn (ids.map .ofJson)]) = .ok (db', n)) :
    ∃ f : Tuple → Tuple, (db'.rows a.target.tableName).Perm ((db.rows a.target.tableName).map f) ∧
      (∀ row ∈ db.rows a.target.tableName, (f row).get (columnName key) =
        if a.isNamed ids row then (Affinity.ofKey a.source.idType).store (.ofJson parent)
          else row.get (columnName key)) ∧
      ∀ row other, other ≠ columnName key → (f row).get other = row.get other := by
  have hrefers := refers_of_hasKey hk hr
  obtain ⟨f, hrows, hkeys, hothers⟩ := Database.rows_setKey hdb hc hrefers h
  refine ⟨f, hrows, fun row hrow => ?_, hothers⟩
  rw [hkeys row hrow, List.all_cons, List.all_nil, Bool.and_true, guardHolds_among hc hdb ht hids]
  rfl

/-- **What linking makes of the rows with the keys.** -/
theorem rows_of_executes (h : db.Executes (Statement.ofLinks a parent ids replace) db')
    (hl : TablesLinked r.tables) :
    ∃ f : Tuple → Tuple, (db'.rows a.target.tableName).Perm ((db.rows a.target.tableName).map f) ∧
      (∀ row ∈ db.rows a.target.tableName,
        (f row).get (columnName key) = a.keyAfter key parent ids replace row) ∧
      ∀ row other, other ≠ columnName key → (f row).get other = row.get other := by
  have hstatements := ofLinks_of_hasKey hk parent ids replace
  rw [hstatements] at h
  obtain ⟨mid, hclearing, hsetting⟩ := h.exists_of_append
  have hmid := hclearing.regular_ofLinks (hstatements ▸ List.subset_append_left _ _) hl hdb
  obtain ⟨f, hrows, hkeys, hothers⟩ : ∃ f : Tuple → Tuple,
      (mid.rows a.target.tableName).Perm ((db.rows a.target.tableName).map f) ∧
      (∀ row ∈ db.rows a.target.tableName, (f row).get (columnName key) =
        if replace && (!a.isNamed ids row && (row.get (columnName key)).equals
            ((Affinity.ofKey a.source.idType).convert (.ofJson parent)))
          then .null else row.get (columnName key)) ∧
      ∀ row other, other ≠ columnName key → (f row).get other = row.get other := by
    cases replace with
    | false =>
      cases hclearing
      exact ⟨id, by simp, fun _ _ => rfl, fun _ _ _ => rfl⟩
    | true =>
      obtain ⟨n, he⟩ := hclearing.of_singleton
      exact rows_of_clearing hk hc hr hdb ht hids he
  obtain ⟨g, hrows', hkeys', hothers'⟩ : ∃ g : Tuple → Tuple,
      (db'.rows a.target.tableName).Perm ((mid.rows a.target.tableName).map g) ∧
      (∀ row ∈ mid.rows a.target.tableName, (g row).get (columnName key) =
        if a.isNamed ids row then (Affinity.ofKey a.source.idType).store (.ofJson parent)
          else row.get (columnName key)) ∧
      ∀ row other, other ≠ columnName key → (g row).get other = row.get other := by
    rcases Database.executes_unless_iff.1 hsetting with ⟨hempty, rfl⟩ | ⟨-, n, he⟩
    · obtain rfl := List.isEmpty_iff.1 hempty
      exact ⟨id, by simp, fun _ _ => rfl, fun _ _ _ => rfl⟩
    · exact rows_of_setting hk hc hr hmid ht hids he
  have hid : a.target.idColumn ≠ columnName key :=
    ((refers_of_hasKey hk hr).ne_idColumn hc ht).symm
  refine ⟨g ∘ f, ?_, fun row hrow => ?_, fun row other hne => ?_⟩
  · rw [← List.map_map]
    exact hrows'.trans (hrows.map g)
  · have hnamed : a.isNamed ids (f row) = a.isNamed ids row := by
      rw [isNamed, isNamed, hothers row _ hid]
    have hm : f row ∈ mid.rows a.target.tableName :=
      hrows.symm.subset (List.mem_map_of_mem hrow)
    rw [Function.comp_apply, hkeys' _ hm, hnamed, hkeys row hrow]
    unfold keyAfter
    cases a.isNamed ids row <;> simp
  · rw [Function.comp_apply, hothers' _ _ hne, hothers _ _ hne]

omit hk hc hr hdb ht hids in
/-- Once links are written, the named rows refer to the parent, and beside them those that did,
where links are not replaced. -/
theorem equals_keyAfter_iff {p : SqlValue} {row : Tuple}
    (hp : p.equals ((Affinity.ofKey a.source.idType).convert (.ofJson parent)) = true) :
    (a.keyAfter key parent ids replace row).equals p = true ↔
      a.isNamed ids row = true ∨ replace = false ∧ (row.get (columnName key)).equals p = true := by
  have hstore := Affinity.equals_store_ofKey a.source.idType (SqlValue.equals_iff.1 hp).2.1
  unfold keyAfter
  dsimp only
  split
  · rename_i hnamed
    rw [SqlValue.equals_congr_right hp]
    simp [hnamed, hstore]
  · rename_i hnamed
    rw [SqlValue.equals_congr_right hp (row.get _)]
    cases replace with
    | false => simp [hnamed, SqlValue.equals_congr_right hp]
    | true =>
      split
      · simp [hnamed, SqlValue.equals]
      · rename_i hne
        simpa [hnamed, SqlValue.equals_congr_right hp] using hne

/-- The rows with the keys link to the given identifiers. -/
theorem linksTo_of_hasKey {p : SqlValue}
    (hp : p.equals ((Affinity.ofKey a.source.idType).convert (.ofJson parent)) = true)
    (hnone : replace = false → ∀ q, ¬db.Links a p q) (hfound : ∀ id ∈ ids, db.HasRow a.target id)
    (h : db.Executes (Statement.ofLinks a parent ids replace) db')
    (hl : TablesLinked r.tables) : db'.LinksTo a p ids := by
  obtain ⟨f, hrows, hkeys, hothers⟩ := rows_of_executes hk hc hr hdb ht hids h hl
  have hid : a.target.idColumn ≠ columnName key :=
    ((refers_of_hasKey hk hr).ne_idColumn hc ht).symm
  have hlinks (db : Database) (q : SqlValue) : db.Links a p q ↔
      ∃ row ∈ db.rows a.target.tableName, (row.get (columnName key)).equals p = true ∧
        (row.get a.target.idColumn).equals q = true := by
    rcases hk with hk | hk <;> simp [Database.Links, linkTable, sourceColumn, targetColumn, hk]
  intro q
  rw [hlinks]
  constructor
  · rintro ⟨row', hrow', hkey, hq⟩
    obtain ⟨row, hrow, rfl⟩ := List.mem_map.1 (hrows.subset hrow')
    rw [hothers row _ hid] at hq
    rw [hkeys row hrow, equals_keyAfter_iff hp] at hkey
    rcases hkey with hnamed | ⟨hadd, hkey⟩
    · obtain ⟨id, hmem, hequals⟩ := List.any_eq_true.1 hnamed
      exact ⟨id, hmem, SqlValue.equals_trans (by rwa [SqlValue.equals_comm]) hq⟩
    · exact absurd ((hlinks db q).2 ⟨row, hrow, hkey, hq⟩) (hnone hadd q)
  · rintro ⟨id, hmem, hq⟩
    obtain ⟨row, hrow, rfl⟩ := hfound id hmem
    rw [hdb.ofJson_idOf hc ht hrow] at hq
    refine ⟨f row, hrows.symm.subset (List.mem_map_of_mem hrow), ?_, ?_⟩
    · rw [hkeys row hrow, equals_keyAfter_iff hp]
      refine .inl (List.any_eq_true.2 ⟨_, hmem, ?_⟩)
      rw [hdb.ofJson_idOf hc ht hrow]
      exact SqlValue.equals_self (hdb.idColumn_ne_null hc ht hrow)
    · rwa [hothers row _ hid]

end

end Association

end ResourceApi
