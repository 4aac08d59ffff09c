import ResourceApi.Proofs.Engine.Addressing
import ResourceApi.Proofs.Engine.Linkage

/-!
# Noted relationships

While keys are put into a row and links are written, the identifiers of their targets are noted. The
parts of a payload are *proper* when its relationships are stored apart from each other, in derived
keys (`Parts.Proper`). Then what is written for one relationship leaves the others alone.

**Theorems (`Engine.told_of_key`, `Engine.exists_told_of_link`).** What is noted of a relationship
is what its association links to the row (`Engine.Told`), and stays so while other links are written
(`Engine.Told.stays`).
-/

namespace ResourceApi

variable {schemas : List Schema} {r : Registry} {db mid db' : Database} {schema : Schema}
  {a : Association}

/-! ## What linkage leaves alone -/

namespace Engine

open Session

section

variable (h : Registry.assemble schemas = .ok r) (hc : r.Creatable) {table : String}
  {pattern : Tuple} {c : String × SqlValue} {other : Schema}

/-- A row of declared attributes sets the columns of fields, whatever identifier it is given. -/
theorem mem_allFields_of_sameBeside {given row : Object} {column : String}
    (hd : schema.Declares given) (hsame : given.SameBeside schema.idField row)
    (hcolumn : column ∈ row.keys.map columnName) : column ∈ schema.allFields.map columnName := by
  obtain ⟨key, hkey, rfl⟩ := List.mem_map.1 hcolumn
  refine List.mem_map_of_mem ?_
  rcases hsame.mem_keys hkey with rfl | hkey
  · exact List.mem_cons_self
  · exact List.mem_cons_of_mem _ (hd.names hkey)

namespace Resolved

variable {link : Link} {ids : List Json}

theorem regular (hl : TablesLinked r.tables) (hdb : db.Regular r)
    (hres : Resolved r a link db ids db') : db'.Regular r := by
  obtain ⟨rows, objects, hcreates, -⟩ := hres.creates
  exact hcreates.regular hl hdb

theorem rowsStay (hres : Resolved r a link db ids db') : Database.RowsStay r db db' := by
  obtain ⟨rows, objects, hcreates, -⟩ := hres.creates
  exact hcreates.rowsStay

/-- Created targets have no derived keys. -/
theorem tally_eq (hl : TablesLinked r.tables) (hc : r.Creatable) (ht : a.target ∈ r.schemas)
    (hdb : db.Regular r) (hres : Resolved r a link db ids db')
    (hdeclares : ∀ row, .create row ∈ link.targets → a.target.Declares row) (hm : c ∈ pattern)
    (hr : r.Refers table c.1 other) : db'.tally table pattern = db.tally table pattern := by
  obtain ⟨rows, objects, hcreates, hrows⟩ := hres.creates
  refine hcreates.tally_eq hc ht hl hdb hm hr fun htable row hrow hcolumn => ?_
  subst htable
  obtain ⟨given, hgiven, hsame⟩ := hrows row hrow
  exact hr.notMem hc ht (mem_allFields_of_sameBeside (hdeclares given hgiven) hsame hcolumn)

end Resolved

namespace LinksWritten

variable {parent : Json} {replace : Bool} {links first second : List (Association × Link)}
  {related noted : Object}

theorem regular (hl : TablesLinked r.tables) (hdb : db.Regular r)
    (hw : LinksWritten r parent replace db links related noted db') : db'.Regular r := by
  induction hw with
  | nil => exact hdb
  | cons hres he _ ih => exact ih (he.regular_ofLinks (List.Subset.refl _) hl (hres.regular hl hdb))

theorem exists_of_append
    (hw : LinksWritten r parent replace db (first ++ second) related noted db') :
    ∃ mid midway, LinksWritten r parent replace db first related midway mid ∧
      LinksWritten r parent replace mid second midway noted db' := by
  induction first generalizing db related with
  | nil => exact ⟨db, related, .nil db related, hw⟩
  | cons x rest ih =>
    cases hw with
    | cons hres he hw =>
      obtain ⟨mid, midway, hfirst, hsecond⟩ := ih hw
      exact ⟨mid, midway, .cons hres he hfirst, hsecond⟩

/-- What is noted of other relationships stays. -/
theorem get?_eq (hw : LinksWritten r parent replace db links related noted db') {name : String}
    (hnot : ∀ x ∈ links, x.1.name ≠ name) : noted.get? name = related.get? name := by
  induction hw with
  | nil => rfl
  | cons _ _ _ ih =>
    obtain ⟨hfirst, hothers⟩ := List.forall_mem_cons.1 hnot
    rw [ih hothers, Object.get?_insert_of_ne hfirst]

include h hc

theorem rowsStay (hdb : db.Regular r)
    (hw : LinksWritten r parent replace db links related noted db')
    (hlinks : ∀ x ∈ links, x.1 ∈ r.associations ∧ x.1.RefersToEnds r) :
    Database.RowsStay r db db' := by
  have hl := Registry.tablesLinked h hc
  induction hw with
  | nil db => exact .refl r db
  | cons hres he _ ih =>
    obtain ⟨⟨ha, hr⟩, hothers⟩ := List.forall_mem_cons.1 hlinks
    have hmid := hres.regular hl hdb
    exact (hres.rowsStay.trans (he.rowsStay h hc ha hr hmid)).trans
      (ih (he.regular_ofLinks (List.Subset.refl _) hl hmid) hothers)

/-- Rows are counted as before with a derived key to which no links are written. -/
theorem tally_eq (hdb : db.Regular r)
    (hw : LinksWritten r parent replace db links related noted db') (hm : c ∈ pattern)
    (hr : r.Refers table c.1 other)
    (hlinks : ∀ x ∈ links, x.1 ∈ r.associations ∧ x.1.Spares table pattern ∧
      ∀ row, .create row ∈ x.2.targets → x.1.target.Declares row) :
    db'.tally table pattern = db.tally table pattern := by
  have hl := Registry.tablesLinked h hc
  induction hw with
  | nil => rfl
  | cons hres he _ ih =>
    obtain ⟨⟨ha, hspares, hdeclares⟩, hothers⟩ := List.forall_mem_cons.1 hlinks
    have ht := (Registry.coherent_of_assemble h).target _ ha
    have hmid := hres.regular hl hdb
    rw [ih (he.regular_ofLinks (List.Subset.refl _) hl hmid) hothers,
      he.tally_of_spares h hc ha hmid hspares, hres.tally_eq hl hc ht hdb hdeclares hm hr]

end LinksWritten

end

end Engine

/-! ## Proper parts -/

/-- Every link holds a derived key. -/
theorem Association.exists_refers_link (hr : a.RefersToEnds r) (p q : SqlValue) :
    ∃ c ∈ a.link p q, ∃ other, r.Refers a.linkTable c.1 other := by
  unfold RefersToEnds at hr
  unfold link linkTable sourceColumn targetColumn
  cases hk : a.kind <;> simp only [hk] at hr ⊢
  · exact ⟨_, List.mem_cons_of_mem _ List.mem_cons_self, _, hr⟩
  · exact ⟨_, List.mem_cons_self, _, hr⟩
  · exact ⟨_, List.mem_cons_self, _, hr⟩
  · exact ⟨_, List.mem_cons_self, _, hr.1⟩

namespace Parts

/-- The relationships are stored apart from each other, in derived keys that refer to the ends of
their associations, and all rows hold declared attributes. -/
structure Proper (r : Registry) (schema : Schema) (p : Parts) : Prop where
  found : ∀ a ∈ p.associations, r.association? schema a.name = some a
  refers : ∀ a ∈ p.associations, a.RefersToEnds r
  places : (p.associations.map (·.place)).Nodup
  attributes : schema.Declares p.attributes
  targets : ∀ x ∈ p.links, ∀ row, .create row ∈ x.2.targets → x.1.target.Declares row
  keys : ∀ key ∈ p.keys, key.association.kind = .belongsTo key.field
  links : ∀ x ∈ p.links, ∀ field, x.1.kind ≠ .belongsTo field
  single : ∀ x ∈ p.links, x.1.cardinality = .one → x.2.targets.length ≤ 1

variable {p : Parts} {key : OwnKey} {link : Link}

theorem association_mem_of_key (h : key ∈ p.keys) : key.association ∈ p.associations :=
  List.mem_append_left _ (List.mem_map_of_mem h)

theorem association_mem_of_link {x : Association × Link} (h : x ∈ p.links) :
    x.1 ∈ p.associations :=
  List.mem_append_right _ (List.mem_map_of_mem h)

namespace Proper

variable (hp : p.Proper r schema)
include hp

theorem mem (ha : a ∈ p.associations) : a ∈ r.associations :=
  (Registry.mem_of_association? (hp.found a ha)).1

theorem source_eq (h : Registry.assemble schemas = .ok r) (hs : schema ∈ r.schemas)
    (ha : a ∈ p.associations) : a.source = schema ∧ a.target ∈ r.schemas :=
  (Registry.coherent_of_assemble h).of_association? hs (hp.found a ha)

theorem eq_of_place {b : Association} (ha : a ∈ p.associations) (hb : b ∈ p.associations)
    (h : a.place = b.place) : a = b :=
  List.inj_on_of_nodup_map hp.places ha hb h

/-- The other links are stored elsewhere, under other names. -/
theorem exists_others (h : (a, link) ∈ p.links) :
    ∃ first second, p.links = first ++ (a, link) :: second ∧
      ∀ x ∈ first ++ second, x ∈ p.links ∧ x.1.place ≠ a.place := by
  obtain ⟨first, second, hlinks⟩ := List.append_of_mem h
  refine ⟨first, second, hlinks, fun x hx => ⟨?_, ?_⟩⟩
  · rw [hlinks]
    exact List.perm_middle.symm.subset (List.mem_cons_of_mem _ hx)
  · have hplaces := hp.places
    rw [associations, List.map_append, List.nodup_append, hlinks] at hplaces
    have hnodup := hplaces.2.1
    rw [List.map_map, (List.perm_middle.map _).nodup_iff, List.map_cons, List.nodup_cons] at hnodup
    exact fun he => hnodup.1 (List.mem_map.2 ⟨x, hx, he⟩)

/-- A key is stored apart from the links. -/
theorem place_ne (hkey : key ∈ p.keys) {x : Association × Link} (hx : x ∈ p.links) :
    x.1.place ≠ key.association.place := by
  intro he
  have hsame := hp.eq_of_place (association_mem_of_link hx) (association_mem_of_key hkey) he
  exact hp.links x hx key.field (hsame ▸ hp.keys key hkey)

end Proper

end Parts

/-! ## What a record tells -/

namespace Engine

open Session

/-- What is noted of a relationship is what the association links to a primary key: all targets of
the link, and no other rows. -/
structure Told (noted : Object) (a : Association) (link : Link) (v : SqlValue) (db : Database)
    (ids : List Json) : Prop where
  noted : noted.get? a.name = some (linkedIds a ids)
  length : ids.length = link.targets.length
  named : ∀ id, .byId id ∈ link.targets → id ∈ ids
  links : db.LinksTo a v ids
  found : ∀ id ∈ ids, db.HasRow a.target id

section

variable (h : Registry.assemble schemas = .ok r) (hc : r.Creatable) (hs : schema ∈ r.schemas)
  {p : Parts} (hp : p.Proper r schema) {link : Link} {v : SqlValue} {parent : Json}
  {replace : Bool} {others : List (Association × Link)} {related noted : Object}
include h hc hs hp

omit hs in
/-- Links that are stored elsewhere leave the links of an association as they are. -/
theorem tally_link_eq (ha : a ∈ p.associations) (hdb : mid.Regular r)
    (hothers : ∀ x ∈ others, x ∈ p.links ∧ x.1.place ≠ a.place)
    (hw : LinksWritten r parent replace mid others related noted db') (u w : SqlValue) :
    db'.tally a.linkTable (a.link u w) = mid.tally a.linkTable (a.link u w) := by
  obtain ⟨c, hm, other, hr⟩ := Association.exists_refers_link (hp.refers a ha) u w
  refine hw.tally_eq h hc hdb hm hr fun x hx => ?_
  obtain ⟨hx, hne⟩ := hothers x hx
  have hb := Parts.association_mem_of_link hx
  exact ⟨hp.mem hb, Association.spares_of_place_ne h hc (hp.mem ha) (hp.mem hb)
    (hp.refers _ hb) hne.symm u w, hp.targets x hx⟩

theorem Told.stays (ha : a ∈ p.associations) {ids : List Json}
    (ht : Told related a link v mid ids) (hdb : mid.Regular r)
    (hothers : ∀ x ∈ others, x ∈ p.links ∧ x.1.place ≠ a.place)
    (hw : LinksWritten r parent replace mid others related noted db') :
    Told noted a link v db' ids := by
  have hstay := hw.rowsStay h hc hdb fun x hx =>
    have hb := Parts.association_mem_of_link (hothers x hx).1
    ⟨hp.mem hb, hp.refers _ hb⟩
  refine ⟨?_, ht.length, ht.named, ?_, fun id hid => ?_⟩
  · refine (hw.get?_eq fun x hx he => (hothers x hx).2 ?_).trans ht.noted
    -- relationships of one name are the same
    have hb := hp.found _ (Parts.association_mem_of_link (hothers x hx).1)
    rw [he, hp.found a ha] at hb
    rw [Option.some.inj hb]
  · exact ht.links.of_tally fun q => tally_link_eq h hc hp ha hdb hothers hw v q
  · exact hstay _ (hp.source_eq h hs ha).2 id (ht.found id hid)

/-- **A link that is written is told.** -/
theorem exists_told_of_link (hm : (a, link) ∈ p.links) (hdb : mid.Regular r)
    (hw : LinksWritten r parent replace mid p.links related noted db')
    (hv : v.equals ((Affinity.ofKey schema.idType).convert (.ofJson parent)) = true)
    (hnone : replace = false → ∀ q, ¬mid.Links a v q) : ∃ ids, Told noted a link v db' ids := by
  have hl := Registry.tablesLinked h hc
  have ha := Parts.association_mem_of_link hm
  obtain ⟨hsource, htarget⟩ := hp.source_eq h hs ha
  obtain ⟨first, second, hlinks, hothers⟩ := hp.exists_others hm
  rw [hlinks] at hw
  obtain ⟨before, midway, hfirst, hw⟩ := hw.exists_of_append
  cases hw with
  | @cons _ next after _ _ _ ids _ _ _ hres he hsecond =>
    have hbefore := hfirst.regular hl hdb
    have hnext := hres.regular hl hbefore
    have hafter := he.regular_ofLinks (List.Subset.refl _) hl hnext
    refine ⟨ids, Told.stays h hc hs hp ha ?_ hafter
      (fun x hx => hothers x (List.mem_append_right _ hx)) hsecond⟩
    have hfound : ∀ id ∈ ids, after.HasRow a.target id := fun id hid =>
      he.rowsStay h hc (hp.mem ha) (hp.refers a ha) hnext _ htarget id (hres.found id hid)
    refine ⟨Object.get?_insert_self _ _ _, hres.length, hres.named, ?_, hfound⟩
    refine Association.linksTo_of_executes h hc (hp.mem ha) (hp.refers a ha) hnext (hp.links _ hm)
      hres.found (hsource ▸ hv) (fun hadd q hlink => hnone hadd q ?_) he
    -- neither the links that were written before nor the created targets link the parent
    refine (Database.links_congr (fun u w => ?_) v q).1 hlink
    obtain ⟨c, hcolumn, other, hr⟩ := Association.exists_refers_link (hp.refers a ha) u w
    rw [hres.tally_eq hl hc htarget hbefore (hp.targets _ hm) hcolumn hr,
      tally_link_eq h hc hp ha hdb (fun x hx => hothers x (List.mem_append_left _ hx)) hfirst]

end

end Engine

/-! ## Keys of the row -/

/-- The columns that a row sets are those of fields and of keys. -/
theorem Parts.column_cases {p : Parts} (hd : schema.Declares p.attributes) {row : Object}
    (hsame : p.row.SameBeside schema.idField row) {column : String}
    (hcolumn : column ∈ row.keys.map columnName) :
    column ∈ schema.allFields.map columnName ∨ ∃ key ∈ p.keys, column = columnName key.field := by
  obtain ⟨field, hfield, rfl⟩ := List.mem_map.1 hcolumn
  rcases hsame.mem_keys hfield with rfl | hfield
  · exact .inl (List.mem_map_of_mem List.mem_cons_self)
  · obtain ⟨m, hm, rfl⟩ := List.mem_map.1 hfield
    rcases Object.mem_insertAll hm with hm | hm
    · have hdeclared := hd.names (List.mem_map_of_mem (f := (·.1)) hm)
      exact .inl (List.mem_map_of_mem (List.mem_cons_of_mem _ hdeclared))
    · obtain ⟨key, hkey, rfl⟩ := List.mem_map.1 hm
      exact .inr ⟨key, hkey, rfl⟩

namespace Parts.Proper

variable {p : Parts} {key : OwnKey} (h : Registry.assemble schemas = .ok r) (hc : r.Creatable)
  (hs : schema ∈ r.schemas) (hp : p.Proper r schema)
include h hc hs hp

omit hc in
theorem place_of_key (hkey : key ∈ p.keys) :
    key.association.place = (schema.tableName, some (columnName key.field)) := by
  obtain ⟨hsource, -⟩ := hp.source_eq h hs (association_mem_of_key hkey)
  rw [Association.place, hp.keys key hkey, hsource]

omit hc in
theorem refers_of_key (hkey : key ∈ p.keys) :
    r.Refers schema.tableName (columnName key.field) key.association.target := by
  have hr := hp.refers _ (association_mem_of_key hkey)
  obtain ⟨hsource, -⟩ := hp.source_eq h hs (association_mem_of_key hkey)
  rwa [Association.RefersToEnds, hp.keys key hkey, hsource] at hr

omit h hc hs in
theorem eq_of_key_place {key' : OwnKey} (hkey : key ∈ p.keys) (hkey' : key' ∈ p.keys)
    (he : key.association.place = key'.association.place) : key = key' := by
  have hplaces := hp.places
  rw [associations, List.map_append, List.nodup_append, List.map_map] at hplaces
  exact List.inj_on_of_nodup_map hplaces.1 hkey hkey' he

omit h hc hs in
theorem nodup_keys : p.keys.Nodup := by
  have hplaces := hp.places
  rw [associations, List.map_append, List.nodup_append, List.map_map] at hplaces
  exact hplaces.1.of_map _

omit hc in
/-- Keys have fields and columns of their own. -/
theorem eq_of_column {key' : OwnKey} (hkey : key ∈ p.keys) (hkey' : key' ∈ p.keys)
    (he : columnName key.field = columnName key'.field) : key = key' := by
  refine hp.eq_of_key_place hkey hkey' ?_
  rw [hp.place_of_key h hs hkey, hp.place_of_key h hs hkey', he]

/-- The row gives a key its value, whatever identifier it is given. -/
theorem gives {row : Object} (hkey : key ∈ p.keys) (hsame : p.row.SameBeside schema.idField row) :
    Tuple.Gives (row.map fun m => (columnName m.1, SqlValue.ofJson m.2)) (columnName key.field)
      (.ofJson key.value) := by
  have hrefers := hp.refers_of_key h hs hkey
  have hid := hrefers.ne_idColumn hc hs
  constructor
  · refine List.mem_map_of_mem (f := fun m : String × Json => (columnName m.1, SqlValue.ofJson m.2))
      (a := (key.field, key.value)) ((hsame _ fun he => hid (congrArg columnName he)).2 ?_)
    refine Object.mem_insertAll_of_mem ?_ (List.mem_map_of_mem hkey)
    rw [List.map_map]
    exact hp.nodup_keys.map_on fun key hkey key' hkey' he =>
      hp.eq_of_column h hs hkey hkey' (congrArg columnName he)
  · intro c hcolumn hname
    obtain ⟨m, hm, rfl⟩ := List.mem_map.1 hcolumn
    dsimp only at hname
    rw [hsame m fun he => hid (hname ▸ congrArg columnName he)] at hm
    rcases Object.mem_insertAll hm with hm | hm
    · have hdeclared := hp.attributes.names (List.mem_map_of_mem (f := (·.1)) hm)
      exact absurd (List.mem_map.2 ⟨_, List.mem_cons_of_mem _ hdeclared, hname⟩)
        (hrefers.notMem hc hs)
    · obtain ⟨key', hkey', rfl⟩ := List.mem_map.1 hm
      rw [hp.eq_of_column h hs hkey' hkey hname]

/-- An update leaves the primary key alone. -/
theorem idColumn_notMem_row :
    schema.idColumn ∉ (p.row.map fun m => (columnName m.1, SqlValue.ofJson m.2)).map (·.1) := by
  intro hcolumn
  obtain ⟨c, hm', he⟩ := List.mem_map.1 hcolumn
  obtain ⟨m, hm, rfl⟩ := List.mem_map.1 hm'
  rcases Object.mem_insertAll hm with hm | hm
  · exact hc.idColumn_notMem hs hp.attributes.names
      (List.mem_map.2 ⟨m.1, List.mem_map_of_mem (f := (·.1)) hm, he⟩)
  · obtain ⟨key, hkey, rfl⟩ := List.mem_map.1 hm
    exact (hp.refers_of_key h hs hkey).ne_idColumn hc hs he

omit h hc hs in
/-- Keys are noted under the names of their relationships. -/
theorem get?_noted (hkey : key ∈ p.keys) :
    p.noted.get? key.association.name = some key.value := by
  refine Object.get?_insertAll_of_mem ?_ (List.mem_map_of_mem hkey)
  rw [List.map_map]
  refine hp.nodup_keys.map_on fun key hkey key' hkey' he => hp.eq_of_key_place hkey hkey' ?_
  have ha := hp.found _ (association_mem_of_key hkey)
  have ha' := hp.found _ (association_mem_of_key hkey')
  have hname : key.association.name = key'.association.name := he
  rw [hname, ha'] at ha
  rw [Option.some.inj ha]

end Parts.Proper

namespace Engine

open Session

section

variable (h : Registry.assemble schemas = .ok r) (hc : r.Creatable) (hs : schema ∈ r.schemas)
  {p : Parts} (hp : p.Proper r schema) {link : Link} {v : SqlValue} {parent : Json}
  {replace : Bool} {related noted : Object} {key : OwnKey}
include h hc hs hp

/-- **A key that is stored is told.** -/
theorem told_of_key (hkey : key ∈ p.keys) (hdb : mid.Regular r)
    (htargets : link.targets = key.id.toList.map .byId)
    (hfound : ∀ id, key.id = some id → mid.HasRow key.association.target id)
    (hex : ∃ row ∈ mid.rows schema.tableName, (row.get schema.idColumn).equals v = true)
    (hstored : ∀ row ∈ mid.rows schema.tableName, (row.get schema.idColumn).equals v = true →
      row.get (columnName key.field) =
        (Affinity.ofKey key.association.target.idType).store (.ofJson key.value)) :
    Told p.noted key.association link v mid key.id.toList := by
  have hk := hp.keys key hkey
  obtain ⟨hsource, htarget⟩ := hp.source_eq h hs (Parts.association_mem_of_key hkey)
  refine ⟨?_, by rw [htargets, List.length_map], fun id hid => ?_, fun q => ?_, fun id hid => ?_⟩
  · rw [hp.get?_noted hkey, linkedIds, Association.cardinality, hk, OwnKey.value]
    cases key.id <;> rfl
  · rw [htargets] at hid
    simpa using hid
  · have hlinks : mid.Links key.association v q ↔ ∃ row ∈ mid.rows schema.tableName,
        (row.get schema.idColumn).equals v = true ∧
          (row.get (columnName key.field)).equals q = true := by
      simp [Database.Links, Association.linkTable, Association.sourceColumn,
        Association.targetColumn, hk, hsource]
    have hkeys : mid.Links key.association v q ↔
        ((Affinity.ofKey key.association.target.idType).store (.ofJson key.value)).equals q =
          true := by
      rw [hlinks]
      constructor
      · rintro ⟨row, hrow, hid, hq⟩
        rwa [hstored row hrow hid] at hq
      · intro hq
        obtain ⟨row, hrow, hid⟩ := hex
        exact ⟨row, hrow, hid, by rwa [hstored row hrow hid]⟩
    rw [hkeys, OwnKey.value]
    cases hid : key.id with
    | none =>
      have hnull : (Affinity.ofKey key.association.target.idType).store (.ofJson .null) = .null :=
        Affinity.store_null _
      simp [hnull, SqlValue.equals]
    | some id =>
      have hholds := hdb.holdsKey_ofJson hc htarget (hfound id hid)
      simp [hholds.store]
  · exact hfound id (by simpa using hid)

end

end Engine

end ResourceApi
