import ResourceApi.Proofs.Query.Meaning
import ResourceApi.Proofs.Sql.Identity

/-!
# Links

An association *links* two primary keys when a row of its table holds both of them, where a row of a
schema's table holds its own primary key and a derived one (`Database.Links`). All four kinds of
associations store their links in this way; they differ in which table it is and in which columns.

**Theorem (`Association.idOf_relatedRows_iff`).** If the keys of an association refer to its ends,
the rows that it ties to a row are those whose primary keys it links to the primary key of that row.
-/

namespace ResourceApi

namespace Registry

variable {r : Registry} {table column : String} {schema : Schema}

/-- The column is a derived key that holds primary keys in the way the schema stores its own. -/
def StoresKeysOf (r : Registry) (table column : String) (schema : Schema) : Prop :=
  ∃ referenced, r.Refers table column referenced ∧ referenced.idType = schema.idType

theorem Refers.storesKeysOf (h : r.Refers table column schema) :
    r.StoresKeysOf table column schema :=
  ⟨schema, h, rfl⟩

theorem StoresKeysOf.affinity (h : r.StoresKeysOf table column schema) (hc : r.Creatable)
    {db : Database} (hdb : db.Sound r.tables) :
    db.affinity table column = .ofKey schema.idType := by
  obtain ⟨referenced, hrefers, htype⟩ := h
  rw [Database.affinity_of_refers hc hdb hrefers, htype]

theorem StoresKeysOf.ne_idColumn {owner : Schema} (h : r.StoresKeysOf owner.tableName column schema)
    (hc : r.Creatable) (ho : owner ∈ r.schemas) : column ≠ owner.idColumn := by
  obtain ⟨referenced, hrefers, -⟩ := h
  exact hrefers.ne_idColumn hc ho

end Registry

namespace Association

/-- The table whose rows link rows of the target to rows of the source. -/
def linkTable (a : Association) : String :=
  match a.kind with
  | .belongsTo _ => a.source.tableName
  | .hasOne _ | .hasMany _ => a.target.tableName
  | .hasManyThrough join => join.table

/-- The column of that table for the primary key of the source. -/
def sourceColumn (a : Association) : String :=
  match a.kind with
  | .belongsTo _ => a.source.idColumn
  | .hasOne key | .hasMany key => columnName key
  | .hasManyThrough join => columnName join.sourceKey

/-- The column of that table for the primary key of the target. -/
def targetColumn (a : Association) : String :=
  match a.kind with
  | .belongsTo key => columnName key
  | .hasOne _ | .hasMany _ => a.target.idColumn
  | .hasManyThrough join => columnName join.targetKey

/-- The values of a row that links two primary keys. -/
def link (a : Association) (source target : SqlValue) : Tuple :=
  [(a.sourceColumn, source), (a.targetColumn, target)]

/-- The keys of the association are derived and refer to its ends, each in a column of its own. -/
def RefersToEnds (r : Registry) (a : Association) : Prop :=
  match a.kind with
  | .belongsTo key => r.Refers a.source.tableName (columnName key) a.target
  | .hasOne key | .hasMany key => r.Refers a.target.tableName (columnName key) a.source
  | .hasManyThrough join => r.Refers join.table (columnName join.sourceKey) a.source ∧
    r.Refers join.table (columnName join.targetKey) a.target ∧
      columnName join.sourceKey ≠ columnName join.targetKey

/-- The keys of the association are derived and hold primary keys as its ends store them, each in a
column of its own. They may have been derived for another association, and refer to its ends. -/
def StoresEnds (r : Registry) (a : Association) : Prop :=
  match a.kind with
  | .belongsTo key => r.StoresKeysOf a.source.tableName (columnName key) a.target
  | .hasOne key | .hasMany key => r.StoresKeysOf a.target.tableName (columnName key) a.source
  | .hasManyThrough join => r.StoresKeysOf join.table (columnName join.sourceKey) a.source ∧
    r.StoresKeysOf join.table (columnName join.targetKey) a.target ∧
      columnName join.sourceKey ≠ columnName join.targetKey

theorem RefersToEnds.storesEnds {r : Registry} {a : Association} (h : a.RefersToEnds r) :
    a.StoresEnds r := by
  unfold RefersToEnds at h
  unfold StoresEnds
  split at h
  · exact h.storesKeysOf
  · exact h.storesKeysOf
  · exact h.storesKeysOf
  · exact ⟨h.1.storesKeysOf, h.2.1.storesKeysOf, h.2.2⟩

end Association

namespace Database

/-- The association links two primary keys. -/
def Links (db : Database) (a : Association) (source target : SqlValue) : Prop :=
  ∃ row ∈ db.rows a.linkTable, (row.get a.sourceColumn).equals source = true ∧
    (row.get a.targetColumn).equals target = true

/-- The association links a primary key to those of some identifiers, and to no others. -/
def LinksTo (db : Database) (a : Association) (source : SqlValue) (ids : List Json) : Prop :=
  ∀ target, db.Links a source target ↔ ∃ id ∈ ids, (SqlValue.ofJson id).equals target = true

variable {db db' : Database} {a : Association} {v w p q : SqlValue} {ids : List Json}

theorem links_iff : db.Links a p q ↔ 0 < db.tally a.linkTable (a.link p q) := by
  rw [tally_pos_iff]
  simp [Links, Tuple.meets, Association.link]

theorem Links.congr (h : db.Links a p q) (hp : p.equals v = true) (hq : q.equals w = true) :
    db.Links a v w := by
  obtain ⟨row, hrow, hsource, htarget⟩ := h
  exact ⟨row, hrow, SqlValue.equals_trans hsource hp, SqlValue.equals_trans htarget hq⟩

/-- What is counted alike is linked alike. -/
theorem links_congr (h : ∀ p q, db'.tally a.linkTable (a.link p q) =
    db.tally a.linkTable (a.link p q)) (p q : SqlValue) : db'.Links a p q ↔ db.Links a p q := by
  rw [links_iff, links_iff, h]

theorem LinksTo.of_tally (h : db.LinksTo a p ids) (ht : ∀ q,
    db'.tally a.linkTable (a.link p q) = db.tally a.linkTable (a.link p q)) :
    db'.LinksTo a p ids := fun q => by rw [links_iff, ht q, ← links_iff, h q]

end Database

namespace Association

variable {r : Registry} {db : Database} {a : Association}

/-! ## The columns of links -/

section

variable (hr : a.StoresEnds r) (hc : r.Creatable) (hdb : db.Regular r)
  (hs : a.source ∈ r.schemas) (ht : a.target ∈ r.schemas)
include hr hc hdb hs ht

/-- Both columns are stored as the primary keys that they hold. -/
theorem affinity_linkTable :
    db.affinity a.linkTable a.sourceColumn = .ofKey a.source.idType ∧
      db.affinity a.linkTable a.targetColumn = .ofKey a.target.idType := by
  unfold StoresEnds at hr
  unfold linkTable sourceColumn targetColumn
  cases hk : a.kind with
  | belongsTo key =>
    rw [hk] at hr
    exact ⟨Database.affinity_idColumn hc hdb.sound hs, hr.affinity hc hdb.sound⟩
  | hasOne key | hasMany key =>
    rw [hk] at hr
    exact ⟨hr.affinity hc hdb.sound, Database.affinity_idColumn hc hdb.sound ht⟩
  | hasManyThrough join =>
    rw [hk] at hr
    exact ⟨hr.1.affinity hc hdb.sound, hr.2.1.affinity hc hdb.sound⟩

/-! ## Related rows -/

omit hr hc hdb hs ht in
/-- Columns of one storage type are compared as they are. -/
theorem equalCells_of_affinity {table column table' column' : String} {row row' : Tuple}
    (h : db.affinity table column = db.affinity table' column') :
    db.equalCells ⟨table, row, column⟩ ⟨table', row', column'⟩ =
      (row.get column).equals (row'.get column') := by
  simp [Database.equalCells, Affinity.convertBoth, h]

/-- **Rows are tied when their primary keys are linked.** -/
theorem ties_iff_links {row target : Tuple} (hrow : row ∈ db.rows a.source.tableName)
    (htarget : target ∈ db.rows a.target.tableName) : a.ties db row target = true ↔
      db.Links a (row.get a.source.idColumn) (target.get a.target.idColumn) := by
  have hself := SqlValue.equals_self (hdb.idColumn_ne_null hc hs hrow)
  have hself' := SqlValue.equals_self (hdb.idColumn_ne_null hc ht htarget)
  have hsourceId := Database.affinity_idColumn hc hdb.sound hs
  have htargetId := Database.affinity_idColumn hc hdb.sound ht
  obtain ⟨hsource, htype⟩ := affinity_linkTable hr hc hdb hs ht
  unfold ties Database.Links sourceId targetId
  unfold linkTable sourceColumn targetColumn at *
  cases hk : a.kind with
  | belongsTo key =>
    simp only [hk] at hsource htype ⊢
    rw [equalCells_of_affinity (htargetId.trans htype.symm), SqlValue.equals_comm]
    constructor
    · exact fun h => ⟨row, hrow, hself, h⟩
    · rintro ⟨row', hrow', hkey, h⟩
      obtain rfl := hdb.eq_of_equals hc hs hrow' hrow hkey
      exact h
  | hasOne key | hasMany key =>
    simp only [hk] at hsource htype ⊢
    rw [equalCells_of_affinity (hsource.trans hsourceId.symm)]
    constructor
    · exact fun h => ⟨target, htarget, h, hself'⟩
    · rintro ⟨target', htarget', h, hkey⟩
      obtain rfl := hdb.eq_of_equals hc ht htarget' htarget hkey
      exact h
  | hasManyThrough join =>
    simp only [hk] at hsource htype ⊢
    rw [List.any_eq_true]
    refine exists_congr fun link => and_congr_right fun _ => ?_
    rw [Bool.and_eq_true, equalCells_of_affinity (hsource.trans hsourceId.symm),
      equalCells_of_affinity (htargetId.trans htype.symm),
      SqlValue.equals_comm (target.get _) (link.get _)]

/-- **The rows that are related to a row are those to which its primary key is linked.** -/
theorem idOf_relatedRows_iff {row : Tuple} {ids : List Json}
    (hrow : row ∈ db.rows a.source.tableName)
    (hl : db.LinksTo a (row.get a.source.idColumn) ids)
    (hids : ∀ id ∈ ids, db.HasRow a.target id) (id : Json) :
    id ∈ ids ↔ ∃ target ∈ a.relatedRows db row, a.target.idOf target = id := by
  constructor
  · intro hid
    obtain ⟨target, htarget, rfl⟩ := hids id hid
    refine ⟨target, List.mem_filter.2 ⟨htarget, ?_⟩, rfl⟩
    refine (ties_iff_links hr hc hdb hs ht hrow htarget).2 ((hl _).2 ⟨_, hid, ?_⟩)
    rw [hdb.ofJson_idOf hc ht htarget]
    exact SqlValue.equals_self (hdb.idColumn_ne_null hc ht htarget)
  · rintro ⟨target, htarget, rfl⟩
    obtain ⟨htarget, hties⟩ := List.mem_filter.1 htarget
    obtain ⟨other, hother, hequals⟩ :=
      (hl _).1 ((ties_iff_links hr hc hdb hs ht hrow htarget).1 hties)
    rw [SqlValue.equals_comm] at hequals
    rwa [(hdb.idOf_eq_iff hc ht htarget (hids other hother)).2 hequals]

end

end Association

end ResourceApi
