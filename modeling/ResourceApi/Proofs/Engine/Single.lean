import ResourceApi.Proofs.Engine.Idle
import ResourceApi.Proofs.Engine.Noted

/-!
# Single targets

A `hasOne` association *stands alone* when no other association is stored in its key and the key is
no attribute (`Association.StandsAlone`). Then the key is written by links of this association only,
and those of one row lead to a single target.

**Theorem (`Service.single_targets`).** Whatever requests are served, a row has at most one target
of such an association. It is as if its key had been declared unique: the keys are distinct
(`Table.Distinct`) in the database that a session starts with, and writes keep them so.

If a `belongsTo` association is stored in the same key, requests can give one row several targets
(`Service.several_targets`).
-/

namespace ResourceApi

variable {schemas : List Schema} {r : Registry} {db mid db' : Database} {schema : Schema}
  {a : Association} {key : String}

/-- The association has its key to itself: no other one is stored there, and it is no attribute. -/
structure Association.StandsAlone (r : Registry) (a : Association) (key : String) : Prop where
  kind : a.kind = .hasOne key
  derived : a.target.hasField key = false
  alone : ∀ b ∈ r.associations, b.place = a.place → b = a

/-- No two targets have the same key. -/
abbrev Association.KeysDistinct (a : Association) (key : String) (db : Database) : Prop :=
  Table.Distinct [columnName key] (db.rows a.target.tableName)

namespace Association.StandsAlone

variable (h : Registry.assemble schemas = .ok r) (ha : a ∈ r.associations)
  (hk : a.StandsAlone r key)
include h ha hk

/-- The key refers to the source. -/
theorem refers : a.RefersToEnds r := by
  have hon : a.KeyOn a.target key a.source := .hasOne hk.kind
  obtain ⟨first, k, hfind, hfirst, hkey⟩ := Registry.exists_first_of_keyOn h ha hon hk.derived
  have hplace : first.place = a.place := by rw [place_of_keyOn hfirst, place_of_keyOn hon]
  obtain rfl := hk.alone first (List.mem_of_find?_eq_some hfind) hplace
  obtain ⟨hm, rfl⟩ := Registry.mem_foreignKeysOf hkey
  have hsource : k.references = first.source := by simpa using hfirst.unique hon
  have hrefers := Registry.refers_of_foreignKey ((Registry.coherent_of_assemble h).target _ ha) hm
  rw [hsource] at hrefers
  simpa [RefersToEnds, hk.kind] using hrefers

/-- Other associations are stored elsewhere. -/
theorem spares (hc : r.Creatable) {b : Association} (hb : b ∈ r.associations) (hne : b ≠ a)
    (v : SqlValue) : b.Spares a.target.tableName [(columnName key, v)] := by
  unfold Spares
  rcases b.keyOn_or_through with ⟨owner, field, other, hon⟩ | ⟨join, hj⟩
  · rw [place_of_keyOn hon]
    intro htable c hm he
    obtain rfl := List.mem_singleton.1 hm
    refine hne (hk.alone b hb ?_)
    rw [place_of_keyOn hon, place_of_keyOn (.hasOne hk.kind), htable, ← he]
  · rw [place, hj]
    exact hc.tableName_ne h hb hj ((Registry.coherent_of_assemble h).target _ ha)

end Association.StandsAlone

namespace Engine

open Session Association

section

variable (h : Registry.assemble schemas = .ok r) (hc : r.Creatable) (ha : a ∈ r.associations)
  (hk : a.StandsAlone r key)
include h hc ha hk

/-! ## Links -/

omit hk in
/-- At most one row has the only identifier. -/
theorem countP_isNamed_le (hdb : db.Regular r) {ids : List Json} (hids : ids.length ≤ 1) :
    (db.rows a.target.tableName).countP (a.isNamed ids) ≤ 1 := by
  have ht := (Registry.coherent_of_assemble h).target _ ha
  match ids, hids with
  | [], _ =>
    have hnone : a.isNamed [] = fun _ => false := rfl
    simp [hnone]
  | [id], _ =>
    have hnamed : a.isNamed [id] = Tuple.meets [(a.target.idColumn, .ofJson id)] := by
      funext row
      simp [isNamed, Tuple.meets]
    rw [hnamed]
    exact Database.distinct_iff_tally.1 (hdb.distinct_idColumn hc ht) _

/-- **Links of one row lead to a single target.** The targets that had another key keep it. -/
theorem keysDistinct_of_executes {parent : Json} {ids : List Json} {replace : Bool}
    (hdb : db.Regular r) (hids : ids.length ≤ 1) (hfound : ∀ id ∈ ids, db.HasRow a.target id)
    (hfresh : replace = false → ∀ v,
      v.equals ((Affinity.ofKey a.source.idType).convert (.ofJson parent)) = true →
        db.tally a.target.tableName [(columnName key, v)] = 0)
    (he : db.Executes (Statement.ofLinks a parent ids replace) db')
    (hd : a.KeysDistinct key db) : a.KeysDistinct key db' := by
  have ht := (Registry.coherent_of_assemble h).target _ ha
  obtain ⟨f, hrows, hkeys, -⟩ := rows_of_executes (.inl hk.kind) hc (hk.refers h ha) hdb ht
    (fun id hid => hdb.holdsKey_ofJson hc ht (hfound id hid)) he (Registry.tablesLinked h hc)
  refine Database.distinct_iff_tally.2 fun v => ?_
  have htally : db'.tally a.target.tableName [(columnName key, v)] =
      (db.rows a.target.tableName).countP
        fun row => (a.keyAfter key parent ids replace row).equals v := by
    rw [Database.tally, hrows.countP_eq, List.countP_map]
    refine List.countP_congr fun row hrow => ?_
    simp [Tuple.meets, hkeys row hrow]
  rw [htally]
  by_cases hv : v.equals ((Affinity.ofKey a.source.idType).convert (.ofJson parent)) = true
  · -- only rows that are named get the key of the parent
    refine le_trans (List.countP_mono_left fun row hrow hequals => ?_)
      (countP_isNamed_le h hc ha hdb hids)
    rcases (equals_keyAfter_iff hv).1 hequals with hnamed | ⟨hadd, hequals⟩
    · exact hnamed
    · have hnone := Database.tally_eq_zero_iff.1 (hfresh hadd v hv) row hrow
      simp [Tuple.meets, hequals] at hnone
  · refine le_trans (List.countP_mono_left fun row hrow hequals => ?_)
      (Database.distinct_iff_tally.1 hd v)
    have hkept : (row.get (columnName key)).equals v = true := by
      unfold keyAfter at hequals
      dsimp only at hequals
      split at hequals
      · have hne := Affinity.convert_ne_null _ (SqlValue.equals_iff.1 hequals).1
        rw [SqlValue.equals_comm] at hequals
        exact absurd (SqlValue.equals_trans hequals (Affinity.equals_store_ofKey _ hne)) hv
      · split at hequals
        · cases hequals
        · exact hequals
    simp [Tuple.meets, hkept]

/-- **Written links keep the keys distinct.** They add to no row that has targets already. -/
theorem keysDistinct_of_linksWritten {parent : Json} {replace : Bool}
    {links : List (Association × Link)} {related noted : Object} (hdb : db.Regular r)
    (hw : LinksWritten r parent replace db links related noted db')
    (hlinks : ∀ x ∈ links, x.1 ∈ r.associations ∧
      (x.1.cardinality = .one → x.2.targets.length ≤ 1) ∧
        ∀ row, .create row ∈ x.2.targets → x.1.target.Declares row)
    (hnames : (links.map (·.1.name)).Nodup)
    (hfresh : replace = false → a ∈ links.map (·.1) → ∀ v,
      v.equals ((Affinity.ofKey a.source.idType).convert (.ofJson parent)) = true →
        db.tally a.target.tableName [(columnName key, v)] = 0)
    (hd : a.KeysDistinct key db) : a.KeysDistinct key db' := by
  have hl := Registry.tablesLinked h hc
  have hrefers := refers_of_hasKey (.inl hk.kind) (hk.refers h ha)
  induction hw with
  | nil => exact hd
  | @cons db mid next db' b link ids rest related noted hres he _ ih =>
    obtain ⟨⟨hb, hsingle, hdeclares⟩, hothers⟩ := List.forall_mem_cons.1 hlinks
    obtain ⟨hname, hrest⟩ := List.nodup_cons.1 hnames
    have hmid := hres.regular hl hdb
    have hnext := he.regular_ofLinks (List.Subset.refl _) hl hmid
    have hcreated (v : SqlValue) : mid.tally a.target.tableName [(columnName key, v)] =
        db.tally a.target.tableName [(columnName key, v)] :=
      hres.tally_eq hl hc ((Registry.coherent_of_assemble h).target _ hb) hdb hdeclares
        (List.mem_singleton_self _) hrefers
    have hdmid : a.KeysDistinct key mid := Database.distinct_iff_tally.2 fun v =>
      (hcreated v).trans_le (Database.distinct_iff_tally.1 hd v)
    by_cases hba : b = a
    · -- the association is named once, so that it is not among the other links
      subst hba
      refine ih hnext hothers hrest (fun _ hm => ?_) ?_
      · obtain ⟨x, hx, he⟩ := List.mem_map.1 hm
        exact absurd (List.mem_map.2 ⟨x, hx, congrArg Association.name he⟩) hname
      · have hone : b.cardinality = .one := by rw [cardinality, hk.kind]; rfl
        exact keysDistinct_of_executes h hc ha hk hmid (hres.length.trans_le (hsingle hone))
          hres.found (fun hadd v hv => (hcreated v).trans
            (hfresh hadd List.mem_cons_self v hv)) he hdmid
    · have hspared (v : SqlValue) : next.tally a.target.tableName [(columnName key, v)] =
          mid.tally a.target.tableName [(columnName key, v)] :=
        he.tally_of_spares h hc hb hmid (hk.spares h ha hc hb hba v)
      refine ih hnext hothers hrest (fun hadd hm v hv => ?_) ?_
      · rw [hspared, hcreated]
        exact hfresh hadd (List.mem_cons_of_mem _ hm) v hv
      · exact Database.distinct_iff_tally.2 fun v =>
          (hspared v).trans_le (Database.distinct_iff_tally.1 hdmid v)

/-! ## Rows -/

variable (hs : schema ∈ r.schemas)
include hs

theorem tally_of_created {row object : Object} (hdb : db.Regular r)
    (hcreated : created schema row r db = .ok (db', object))
    (hnot : a.target.tableName = schema.tableName → columnName key ∉ row.keys.map columnName)
    (v : SqlValue) : db'.tally a.target.tableName [(columnName key, v)] =
      db.tally a.target.tableName [(columnName key, v)] := by
  obtain ⟨stored, hinsert, -⟩ := created_eq_ok hcreated
  refine Database.tally_insert_of_refers hc hdb hs hinsert (List.mem_singleton_self _)
    (refers_of_hasKey (.inl hk.kind) (hk.refers h ha)) fun ht => ?_
  rw [columns_of_row]
  exact hnot ht

omit h hc ha hk hs in
theorem tally_of_updated {row : Object} {filter : Predicate} {n : Nat}
    (hupdated : updated schema row filter r db = .ok (db', n))
    (hnot : a.target.tableName = schema.tableName → columnName key ∉ row.keys.map columnName)
    (v : SqlValue) : db'.tally a.target.tableName [(columnName key, v)] =
      db.tally a.target.tableName [(columnName key, v)] := by
  cases hempty : row.isEmpty with
  | true =>
    unfold updated at hupdated
    rw [if_pos hempty] at hupdated
    obtain ⟨_, -, he⟩ := map_eq_ok.1 hupdated
    rw [(Prod.mk.inj he).1]
  | false =>
    obtain ⟨rows, -, hupdate⟩ := updateRows_of_updated hempty hupdated
    refine Database.tally_updateRows hupdate fun ht c hm => ?_
    obtain rfl := List.mem_singleton.1 hm
    rw [columns_of_row]
    exact hnot ht

omit h hc ha hk hs in
/-- A deletion deletes the rows that it picks. -/
theorem deleteRows_of_destroyed {filter : Predicate} {n : Nat}
    (hdestroyed : destroyed schema filter r db = .ok (db', n)) :
    ∃ rows : KeyQuery, db' = (db.deleteRows rows.table (db.hasKeyOf rows)).1 := by
  obtain ⟨statement, hstatement, hexecuted⟩ := bind_eq_ok.1 hdestroyed
  obtain ⟨rows, -, hpure⟩ := bind_eq_ok.1 (mapError_eq_ok.1 hstatement)
  obtain rfl := pure_eq_ok.1 hpure
  obtain ⟨⟨⟩, -, hexecute⟩ := bind_eq_ok.1 hexecuted
  exact ⟨rows, (congrArg Prod.fst (Except.ok.inj (mapError_eq_ok.1 hexecute))).symm⟩

/-- Declared attributes leave the key alone. -/
theorem key_notMem_of_declares {given row : Object} (hd : schema.Declares given)
    (hsame : given.SameBeside schema.idField row)
    (ht : a.target.tableName = schema.tableName) : columnName key ∉ row.keys.map columnName := by
  have hrefers := refers_of_hasKey (.inl hk.kind) (hk.refers h ha)
  rw [ht] at hrefers
  exact fun hm => hrefers.notMem hc hs (mem_allFields_of_sameBeside hd hsame hm)

section

variable {payload : Payload} {p : Parts} (hparts : parts r schema payload = .ok p)
  (hd : payload.Declared r schema) (hn : (payload.relationships.map (·.1)).Nodup)
include hparts hd

/-- So do the keys of the row, which belong to other associations. -/
theorem key_notMem_of_parts {row : Object} (hsame : p.row.SameBeside schema.idField row)
    (ht : a.target.tableName = schema.tableName) : columnName key ∉ row.keys.map columnName := by
  obtain ⟨hattributes, hsorts⟩ := Parts.sorts_of_parts hparts
  have hrefers := refers_of_hasKey (.inl hk.kind) (hk.refers h ha)
  rw [ht] at hrefers
  intro hm
  rcases Parts.column_cases (hattributes ▸ hd.attributes) hsame hm with hfield | ⟨own, hown, he⟩
  · exact hrefers.notMem hc hs hfield
  · obtain ⟨hkind, name, hfound⟩ := hsorts.of_mem_keys own hown
    obtain ⟨hsource, -⟩ := (Registry.coherent_of_assemble h).of_association? hs hfound
    have hplace : own.association.place = a.place := by
      rw [place_of_keyOn (.belongsTo hkind), hsource, ← he, ← ht, place_of_keyOn (.hasOne hk.kind)]
    rw [hk.alone _ (Registry.mem_of_association? hfound).1 hplace, hk.kind] at hkind
    cases hkind

omit h hc ha hk hs in
theorem links_of_parts : ∀ x ∈ p.links, x.1 ∈ r.associations ∧
    (x.1.cardinality = .one → x.2.targets.length ≤ 1) ∧
      ∀ row, .create row ∈ x.2.targets → x.1.target.Declares row := by
  intro x hx
  obtain ⟨-, hsingle, name, hfound, hm⟩ :=
    (Parts.sorts_of_parts hparts).2.of_mem_links x.1 x.2 hx
  exact ⟨(Registry.mem_of_association? hfound).1, hsingle, hd.targets name x.2 x.1 hm hfound⟩

include hn

/-- **Creates keep the keys distinct.** A new row has no targets yet. -/
theorem keysDistinct_of_createWith {scope : Scope} {given : Option Json} {record : Record}
    (ht : Action.Takes r (createWith scope schema given p) db record db')
    (hdistinct : a.KeysDistinct key db) : a.KeysDistinct key db' := by
  have hl := Registry.tablesLinked h hc
  have hdb := ht.regular
  obtain ⟨row, mid, hmid, -, hsame, hcreated, hid, hw⟩ :=
    exists_of_createWith hl hc (target_mem_of_parts h hs hparts) ht
  have hnot := key_notMem_of_parts h hc ha hk hs hparts hd hsame
  have htally := tally_of_created h hc ha hk hs hdb hcreated hnot
  have hsorts := (Parts.sorts_of_parts hparts).2
  refine keysDistinct_of_linksWritten h hc ha hk hmid hw (links_of_parts hparts hd)
    (hn.sublist hsorts.sublist_names) (fun _ hm v hv => ?_) ?_
  · obtain ⟨x, hx, rfl⟩ := List.mem_map.1 hm
    obtain ⟨-, -, name, hfound, -⟩ := hsorts.of_mem_links x.1 x.2 hx
    obtain ⟨hsource, -⟩ := (Registry.coherent_of_assemble h).of_association? hs hfound
    obtain ⟨stored, hinsert, hget⟩ := exists_stored_of_created hc hdb.sound hs hcreated
    have hrow : stored ∈ mid.rows schema.tableName :=
      (Database.rows_insert hinsert).1.symm.subset List.mem_cons_self
    have hstored : schema.idOf stored = record.id := Option.some.inj (hget.symm.trans hid)
    rw [hsource, ← hstored, hmid.ofJson_idOf hc hs hrow, (hmid.holdsKey hc hs hrow).convert] at hv
    have hrefers := refers_of_hasKey (.inl hk.kind) (hk.refers h ha)
    rw [hsource] at hrefers
    refine Database.tally_eq_zero_iff.2 fun other ho => ?_
    have hfalse := Database.not_refers_of_insert hc hdb hs hinsert hmid hrefers
      (fun ht => by rw [columns_of_row]; exact hnot ht) other ho
    rw [← SqlValue.equals_congr_right hv] at hfalse
    simp [Tuple.meets, hfalse]
  · exact Database.distinct_iff_tally.2 fun v =>
      (htally v).trans_le (Database.distinct_iff_tally.1 hdistinct v)

/-- **Updates keep the keys distinct.** They replace the target of the row. -/
theorem keysDistinct_of_updateWith {scope : Scope} {id : Json} {record : Record}
    (ht : Action.Takes r (updateWith r scope schema id p) db record db')
    (hdistinct : a.KeysDistinct key db) : a.KeysDistinct key db' := by
  have hl := Registry.tablesLinked h hc
  obtain ⟨-, mid, hmid, -, -, -, hupdated, hw, -⟩ :=
    exists_of_updateWith hl hc (target_mem_of_parts h hs hparts) ht
  refine keysDistinct_of_linksWritten h hc ha hk hmid hw (links_of_parts hparts hd)
    (hn.sublist (Parts.sorts_of_parts hparts).2.sublist_names) nofun ?_
  rcases hupdated with ⟨-, rfl⟩ | ⟨-, n, hupdated⟩
  · exact hdistinct
  · have hnot := key_notMem_of_parts h hc ha hk hs hparts hd (.refl _ _)
    exact Database.distinct_iff_tally.2 fun v =>
      (tally_of_updated hupdated hnot v).trans_le (Database.distinct_iff_tally.1 hdistinct v)

end

end

end Engine

namespace Service

open Session Program Engine

section

variable (h : Registry.assemble schemas = .ok r) (hc : r.Creatable) (ha : a ∈ r.associations)
  (hk : a.StandsAlone r key)
include h hc ha hk

/-! ## Requests -/

theorem writesKeep_keysDistinct : WritesKeep r (a.KeysDistinct key) := by
  have hl := Registry.tablesLinked h hc
  have hcounted {db db' : Database} (hd : a.KeysDistinct key db)
      (htally : ∀ v, db'.tally a.target.tableName [(columnName key, v)] ≤
        db.tally a.target.tableName [(columnName key, v)]) : a.KeysDistinct key db' :=
    Database.distinct_iff_tally.2 fun v =>
      (htally v).trans (Database.distinct_iff_tally.1 hd v)
  refine ⟨fun schema hs payload hd hn => ?_, fun schema hs id payload hd hn => ?_,
    fun schema hs id => ?_⟩
  · refine keepsIdle_checked fun p hparts => ?_
    split
    · exact keepsIdle_inTransaction hl (within_createWith _ _ p) fun db record db' ht =>
        keysDistinct_of_createWith h hc ha hk hs hparts hd hn ht
    · refine keepsIdle_assignId fun row hsame => ?_
      have hcreates : Changes (perform (.create schema row)) (created schema row) :=
        changes_create schema row
      refine (keepsIdle_of_changes hl hcreates fun db db' object hdb hdistinct hcreated =>
        hcounted hdistinct fun v => ?_).bind_run fun object =>
          keepsIdle_checked fun id _ => keepsIdle_done _
      refine (tally_of_created h hc ha hk hs hdb hcreated ?_ v).le
      rw [(Parts.sorts_of_parts hparts).1] at hsame
      exact key_notMem_of_declares h hc ha hk hs hd.attributes hsame
  · refine keepsIdle_checked fun _ _ => keepsIdle_checked fun p hparts => ?_
    split
    · exact keepsIdle_inTransaction hl (within_updateWith _ _ _ p) fun db record db' ht =>
        keysDistinct_of_updateWith h hc ha hk hs hparts hd hn ht
    · have hupdates : Changes (perform (.update schema p.attributes (.idIs schema id))) _ :=
        changes_update schema p.attributes (.idIs schema id)
      refine (keepsIdle_of_changes hl hupdates fun db db' n hdb hdistinct hupdated =>
        hcounted hdistinct fun v => ?_).bind_run fun n => ?_
      · refine (tally_of_updated hupdated ?_ v).le
        rw [(Parts.sorts_of_parts hparts).1]
        exact key_notMem_of_declares h hc ha hk hs hd.attributes (.refl _ _)
      · split
        · exact keepsIdle_done _
        · exact (keepsIdle_findOne hl).bind_run fun _ => keepsIdle_done _
  · have hdestroys : Changes (perform (.destroy schema (.idIs schema id))) _ :=
      changes_destroy schema (.idIs schema id)
    refine (keepsIdle_of_changes hl hdestroys fun db db' n hdb hdistinct hdestroyed =>
      hcounted hdistinct fun v => ?_).bind_run fun n => ?_
    · obtain ⟨rows, rfl⟩ := deleteRows_of_destroyed hdestroyed
      exact Database.tally_deleteRows_le _
    · split <;> exact keepsIdle_done _

end

/-- **A row has at most one target.** -/
theorem single_targets {service : Service} {s : Session}
    (h : Registry.assemble schemas = .ok service.registry)
    (hn : (service.registry.tables.map (·.name)).Nodup) (hs : service.Served s)
    (ha : a ∈ service.registry.associations) (hk : a.StandsAlone service.registry key) :
    ∀ row ∈ s.database.rows a.source.tableName, (a.relatedRows s.database row).length ≤ 1 := by
  have hc := (regular_of_reachable h hn hs.reachable).1
  have hcoherent := Registry.coherent_of_assemble h
  have hsource := hcoherent.source a ha
  have hrefers := hk.refers h ha
  have hidle := hs.idle h hn (P := a.KeysDistinct key) (fun s hstart => ?_) fun hc =>
    writesKeep_keysDistinct h hc ha hk
  · intro row hrow
    have hone := Database.distinct_iff_tally.1 hidle.holds (row.get a.source.idColumn)
    refine le_trans (le_of_eq ?_) hone
    rw [Association.relatedRows, ← List.countP_eq_length_filter]
    refine List.countP_congr fun target htarget => ?_
    have hcells : s.database.affinity a.target.tableName (columnName key) =
        s.database.affinity a.source.tableName a.source.idColumn := by
      rw [Database.affinity_of_refers hc hidle.regular.sound
        (Association.refers_of_hasKey (.inl hk.kind) hrefers),
        Database.affinity_idColumn hc hidle.regular.sound hsource]
    simp [Association.ties, hk.kind, Association.sourceId,
      Association.equalCells_of_affinity hcells, Tuple.meets]
  · unfold Association.KeysDistinct
    rw [rows_of_start hn hstart]
    exact List.Pairwise.nil

end Service

/-! ## Passports -/

/-- Citizens, each with one passport. -/
def citizen : Schema where
  name := "Citizen"
  idType := .integer
  relationships := [("passport", .hasOne "Passport" none)]

/-- Passports. -/
def passport : Schema where
  name := "Passport"
  idType := .integer

/-- The passport of a citizen. -/
def citizenPassport : Association := ⟨"passport", citizen, passport, .hasOne "citizenId"⟩

/-- Citizens and their passports. -/
def passports : Registry :=
  ⟨[citizen, passport], [citizenPassport], [⟨"Passport", "citizenId", citizen⟩]⟩

/-- Linkage to a row. -/
def linkedTo (target : Json) : Json := .obj [("data", target)]

/-- A document that gives a citizen a new passport. -/
def issuing : Json :=
  document "Citizen" [] [("passport", linkedTo (.obj [("attributes", .obj [])]))]

/-- A citizen comes with a passport and then gets another one. -/
def reissued : Session :=
  let serve := passports.service.next fun _ => "a"
  serve (serve passports.unused ⟨.post, "/api/citizens", "", some issuing⟩)
    ⟨.patch, "/api/citizens/1", "", some issuing⟩

/-- Passports that belong to citizens. -/
def ownedPassport : Schema :=
  { passport with relationships := [("citizen", .belongsTo "Citizen" none)] }

/-- The passport of a citizen, stored in the key of its owner. -/
def ownerPassport : Association := ⟨"passport", citizen, ownedPassport, .hasOne "citizenId"⟩

/-- Citizens and passports, each leading to the other. -/
def ownedPassports : Registry where
  schemas := [citizen, ownedPassport]
  associations := [ownerPassport, ⟨"citizen", ownedPassport, citizen, .belongsTo "citizenId"⟩]
  foreignKeys := [⟨"Passport", "citizenId", citizen⟩]

/-- A request for a passport of the first citizen. -/
def postPassport : Request :=
  posting "/api/passports" "Passport" [] [("citizen", linkedTo (.obj [("id", .int 1)]))]

/-- A session with one citizen. -/
def staying : Session :=
  ownedPassports.service.next (fun _ => "a") ownedPassports.unused
    (posting "/api/citizens" "Citizen" [] [])

/-- Two passports are made for the citizen. -/
def travelling : Session :=
  ownedPassports.service.next (fun _ => "a")
    (ownedPassports.service.next (fun _ => "a") staying postPassport) postPassport

namespace Service

/-- The new passport replaces the old one. -/
theorem reissued_passport :
    Registry.assemble [citizen, passport] = .ok passports ∧
      (passports.tables.map (·.name)).Nodup ∧ passports.service.Served reissued ∧
      citizenPassport.StandsAlone passports "citizenId" ∧
      reissued.database.rows "passport" = [[("id", .integer 1), ("citizen_id", .null)],
        [("id", .integer 2), ("citizen_id", .integer 1)]] ∧
      (citizenPassport.relatedRows reissued.database [("id", .integer 1)]).length ≤ 1 := by
  have h : Registry.assemble [citizen, passport] = .ok passports := by decide +kernel
  have hn : (passports.tables.map (·.name)).Nodup := by decide +kernel
  have hstart : passports.service.Served passports.unused :=
    .start (Registry.start_unused (by decide +kernel))
  have hs : passports.service.Served reissued :=
    (hstart.next (by decide +kernel) _).next (by decide +kernel) _
  have hk : citizenPassport.StandsAlone passports "citizenId" :=
    ⟨rfl, rfl, fun b hb _ => List.mem_singleton.1 hb⟩
  exact ⟨h, hn, hs, hk, by decide +kernel,
    single_targets h hn hs List.mem_cons_self hk _ (by decide +kernel)⟩

/-- **A row may have several targets.** Two passports of one owner are both passports of that
citizen, though a citizen has one. -/
theorem several_targets :
    Registry.assemble [citizen, ownedPassport] = .ok ownedPassports ∧
      (ownedPassports.tables.map (·.name)).Nodup ∧
      ownerPassport ∈ ownedPassports.associations ∧ ownerPassport.kind = .hasOne "citizenId" ∧
      ownedPassports.service.Served travelling ∧
      [("id", .integer 1)] ∈ travelling.database.rows "citizen" ∧
      ownerPassport.relatedRows travelling.database [("id", .integer 1)] =
        [[("id", .integer 1), ("citizen_id", .integer 1)],
          [("id", .integer 2), ("citizen_id", .integer 1)]] := by
  have hstart : ownedPassports.service.Served staying :=
    (Served.start (Registry.start_unused (by decide +kernel))).next (by decide +kernel) _
  have hs : ownedPassports.service.Served travelling :=
    (hstart.next (by decide +kernel) _).next (by decide +kernel) _
  exact ⟨by decide +kernel, by decide +kernel, by decide, rfl, hs, by decide +kernel,
    by decide +kernel⟩

end Service

end ResourceApi
