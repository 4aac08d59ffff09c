import ResourceApi.Proofs.Engine.Noted
import ResourceApi.Proofs.Engine.Records
import ResourceApi.Proofs.Engine.Served

/-!
# Records that tell

The record of a create or an update shows, for each relationship of its payload, the identifiers of
the rows that the relationship leads to (`Record.Tells`).

**Theorem (`Engine.records_tell`).** After a successful create or update with linkage that is stored
apart, in derived keys, these are the rows that a find relates to the row. An update finds its row
by the name of the primary key, which must have no dots for that.

The parts of the proof are: what a create or an update stores in the row itself
(`Engine.stored_of_created`, `Engine.stored_of_updated`), what is noted while links are written, and
that the rows to which a primary key is linked are the related ones.
-/

namespace ResourceApi

variable {schemas : List Schema} {r : Registry} {db mid db' : Database} {schema : Schema}
  {a : Association}

/-! ## Rows that a find relates -/

/-- The rows that a query for related rows joins to the rows of a frame. -/
def RelatedQuery.targets (db : Database) (f : Frame) : RelatedQuery → List Tuple
  | .mk _ _ _ _ table inner condition => db.joined f table inner condition

/-- A find that includes the association joins these rows to a row of its source. -/
def Association.IsJoined (r : Registry) (db : Database) (a : Association) (row : Tuple)
    (targets : List Tuple) : Prop :=
  ∃ plan query outputs node related, Statement.ofPlan r a.source plan = .ok (query, outputs) ∧
    (node, related) ∈ plan.includes.zip query.related ∧ node.relationship = a.name ∧
    targets = related.targets db [⟨query.aliasId, query.table, row⟩]

/-- A find joins the related rows. -/
theorem Association.IsJoined.perm {row : Tuple} {targets : List Tuple}
    (ha : r.association? a.source a.name = some a) (h : a.IsJoined r db row targets) :
    targets.Perm (a.relatedRows db row) := by
  obtain ⟨plan, query, outputs, node, related, hquery, hm, hname, rfl⟩ := h
  obtain ⟨hrenders, -⟩ := Statement.renders_ofPlan hquery
  obtain ⟨n, m, hn, hrendered⟩ := List.forall₂_zip hrenders.related hm
  obtain ⟨relationship, target, selection, nested⟩ := node
  obtain ⟨b, members, condition, k, l, hb, -, -, hjoin, hl, rfl⟩ :=
    Rendering.related_eq_ok hrendered
  obtain rfl : relationship = a.name := hname
  obtain rfl := Option.some.inj (hb.symm.trans ha)
  have hbinds := Frame.binds_push [] query.aliasId b.source.tableName row
  rw [hrenders.table]
  exact Rendering.perm_joined hjoin hl hn hbinds

/-- The record tells which rows the association leads to from its row: the related rows, as a find
joins them. All targets of the link are among them. -/
def Record.Tells (r : Registry) (record : Record) (db : Database) (a : Association) (link : Link) :
    Prop :=
  ∃ row ∈ db.rows a.source.tableName, db.hasId a.source record.id row = true ∧
    ∃ ids, record.relationships.get? a.name = some (Engine.linkedIds a ids) ∧
      ids.length = link.targets.length ∧ (a.cardinality = .one → ids.length ≤ 1) ∧
      (∀ targets, targets = a.relatedRows db row ∨ a.IsJoined r db row targets →
        ∀ id, id ∈ ids ↔ ∃ target ∈ targets, a.target.idOf target = id) ∧
      ∀ id, .byId id ∈ link.targets → id ∈ ids ∧ db.HasRow a.target id

/-! ## Creates and updates -/

namespace Engine

open Session

section

variable (h : Registry.assemble schemas = .ok r) (hc : r.Creatable) (hs : schema ∈ r.schemas)
  {p : Parts} (hp : p.Proper r schema) {link : Link} {v : SqlValue} {parent : Json}
  {replace : Bool} {related noted : Object} {record : Record}
include h hc hs hp

/-- What is told of the primary key of a row is told of its record. -/
theorem Told.tells {ids : List Json} (ha : a ∈ p.associations) (hdb : db.Regular r)
    (hsingle : a.cardinality = .one → link.targets.length ≤ 1) {stored : Tuple}
    (ht : Told record.relationships a link (stored.get schema.idColumn) db ids)
    (hrow : stored ∈ db.rows schema.tableName) (hid : db.hasId schema record.id stored = true) :
    record.Tells r db a link := by
  obtain ⟨hsource, htarget⟩ := hp.source_eq h hs ha
  subst hsource
  refine ⟨stored, hrow, hid, ids, ht.noted, ht.length, ht.length ▸ hsingle,
    fun targets htargets id => ?_, fun id hid => ⟨ht.named id hid, ht.found id (ht.named id hid)⟩⟩
  have hperm : targets.Perm (a.relatedRows db stored) := by
    rcases htargets with rfl | hjoined
    · exact .refl _
    · exact hjoined.perm (hp.found a ha)
  rw [Association.idOf_relatedRows_iff (hp.refers a ha).storesEnds hc hdb hs htarget hrow ht.links
    ht.found]
  exact exists_congr fun target => and_congr_left' hperm.mem_iff.symm

omit h hp in
/-- A row that stays keeps its primary key. -/
theorem exists_row_of_rowsStay (hmid : mid.Regular r) (hdb : db.Regular r)
    (hstay : Database.RowsStay r mid db) {stored : Tuple}
    (hrow : stored ∈ mid.rows schema.tableName) : ∃ row ∈ db.rows schema.tableName,
      row.get schema.idColumn = stored.get schema.idColumn := by
  obtain ⟨row, hm, hid⟩ := hstay schema hs _ ⟨stored, hrow, rfl⟩
  refine ⟨row, hm, ?_⟩
  rw [← hdb.ofJson_idOf hc hs hm, hid, hmid.ofJson_idOf hc hs hrow]

/-- **A record tells what links were written and what keys were stored.** -/
theorem tells_of_linksWritten (hmid : mid.Regular r)
    (hw : LinksWritten r record.id replace mid p.links p.noted record.relationships db)
    {stored : Tuple} (hrow : stored ∈ mid.rows schema.tableName)
    (hid : mid.hasId schema record.id stored = true)
    (hnone : replace = false → ∀ x ∈ p.links, ∀ q,
      ¬mid.Links x.1 (stored.get schema.idColumn) q)
    (hfound : p.KeysFound mid)
    (hkeys : ∀ key ∈ p.keys, stored.get (columnName key.field) =
      (Affinity.ofKey key.association.target.idType).store (.ofJson key.value)) :
    (∀ key ∈ p.keys, ∀ link : Link, link.targets = key.id.toList.map .byId →
      record.Tells r db key.association link) ∧
    ∀ a link, (a, link) ∈ p.links → record.Tells r db a link := by
  have hdb := hw.regular (Registry.tablesLinked h hc) hmid
  have hself := SqlValue.equals_self (hmid.idColumn_ne_null hc hs hrow)
  have hstay := hw.rowsStay h hc hmid fun x hx =>
    have hb := Parts.association_mem_of_link hx
    ⟨hp.mem hb, hp.refers _ hb⟩
  obtain ⟨row, hm, hkey⟩ := exists_row_of_rowsStay hc hs hmid hdb hstay hrow
  have hid' : db.hasId schema record.id row = true := by
    unfold Database.hasId at hid ⊢
    rwa [hkey, Database.affinity_idColumn hc hdb.sound hs,
      ← Database.affinity_idColumn hc hmid.sound hs]
  rw [← hkey] at hnone
  constructor
  · intro key hk link htargets
    have htold := told_of_key h hc hs hp hk hmid htargets (hfound key hk)
      ⟨stored, hrow, hself⟩ fun other ho he => by
        rw [hmid.eq_of_equals hc hs ho hrow he, hkeys key hk]
    rw [← hkey] at htold
    have ha := Parts.association_mem_of_key hk
    have hlength : link.targets.length ≤ 1 := by
      rw [htargets, List.length_map]
      exact Option.length_toList_le
    exact (htold.stays h hc hs hp ha hmid (fun x hx => ⟨hx, hp.place_ne hk hx⟩) hw).tells
      h hc hs hp ha hdb (fun _ => hlength) hm hid'
  · intro a link hlink
    have hv : (row.get schema.idColumn).equals
        ((Affinity.ofKey schema.idType).convert (.ofJson record.id)) = true := by
      rw [← Database.affinity_idColumn hc hdb.sound hs]
      exact hid'
    obtain ⟨ids, htold⟩ := exists_told_of_link h hc hs hp hlink hmid hw hv
      fun hadd => hnone hadd _ hlink
    exact htold.tells h hc hs hp (Parts.association_mem_of_link hlink) hdb (hp.single _ hlink) hm
      hid'

/-- What is created has the keys that it was given, and nothing is linked to it yet. -/
theorem stored_of_created {row object : Object} (hdb : db.Regular r) (hmid : mid.Regular r)
    (hfound : p.KeysFound db) (hsame : p.row.SameBeside schema.idField row)
    (hcreated : created schema row r db = .ok (mid, object)) {id : Json}
    (hid : object.get? schema.idField = some id) :
    ∃ stored ∈ mid.rows schema.tableName, mid.hasId schema id stored = true ∧
      p.KeysFound mid ∧
      (∀ x ∈ p.links, ∀ q, ¬mid.Links x.1 (stored.get schema.idColumn) q) ∧
      ∀ key ∈ p.keys, stored.get (columnName key.field) =
        (Affinity.ofKey key.association.target.idType).store (.ofJson key.value) := by
  obtain ⟨stored, hinsert, hget⟩ := exists_stored_of_created hc hdb.sound hs hcreated
  obtain rfl := Option.some.inj (hget.symm.trans hid)
  have hrow : stored ∈ mid.rows schema.tableName :=
    (Database.rows_insert hinsert).1.symm.subset List.mem_cons_self
  refine ⟨stored, hrow, ?_, fun key hk id hid => ?_, fun x hx q hlink => ?_, fun key hk => ?_⟩
  · exact hmid.hasId_idOf hc hs hrow
  · obtain ⟨-, htarget⟩ := hp.source_eq h hs (Parts.association_mem_of_key hk)
    exact rowsStay_of_created hcreated _ htarget id (hfound key hk id hid)
  · have ha := Parts.association_mem_of_link hx
    obtain ⟨hsource, -⟩ := hp.source_eq h hs ha
    have hrefers := hp.refers _ ha
    obtain ⟨row', hrow', hequals, -⟩ := hlink
    have href : r.Refers x.1.linkTable x.1.sourceColumn schema := by
      unfold Association.RefersToEnds at hrefers
      unfold Association.linkTable Association.sourceColumn
      cases hk : x.1.kind with
      | belongsTo field => exact absurd hk (hp.links x hx field)
      | hasOne key | hasMany key => simpa [hk, hsource] using hrefers
      | hasManyThrough join =>
        simp only [hk, hsource] at hrefers
        exact hrefers.1
    refine Bool.eq_false_iff.1 (Database.not_refers_of_insert hc hdb hs hinsert hmid href
      (fun ht hcolumn => ?_) row' hrow') hequals
    rw [ht] at href
    rw [columns_of_row] at hcolumn
    rcases Parts.column_cases hp.attributes hsame hcolumn with hm | ⟨key, hk, he⟩
    · exact href.notMem hc hs hm
    · -- a key of the row in the column of the link would be stored in its place
      refine hp.place_ne hk hx ?_
      rw [hp.place_of_key h hs hk, ← he, ← ht]
      unfold Association.place Association.linkTable Association.sourceColumn
      cases hkind : x.1.kind with
      | belongsTo field => exact absurd hkind (hp.links x hx field)
      | hasOne key | hasMany key => rfl
      | hasManyThrough join =>
        rw [Association.linkTable, hkind] at ht
        exact absurd ht.symm (hc.tableName_ne h (hp.mem ha) hkind hs)
  · rw [Database.get_of_insert_of_refers hc hdb hs hinsert (hp.refers_of_key h hs hk),
      (hp.gives h hc hs hk hsame).get_eq]

/-- What is updated has the keys that it was given. -/
theorem stored_of_updated (ha : schema.Addressable) {id : Json} {found : List Json}
    (hdb : db.Regular r) (hmid : mid.Regular r) (hkeys : p.KeysFound db)
    (hfound : existing schema [id] db = .ok found)
    (hne : found ≠ []) (hupdated : p.row.isEmpty = true ∧ mid = db ∨ p.row.isEmpty = false ∧
      ∃ n, updated schema p.row (.idIs schema id) r db = .ok (mid, n)) :
    ∃ stored ∈ mid.rows schema.tableName, mid.hasId schema id stored = true ∧
      p.KeysFound mid ∧
      ∀ key ∈ p.keys, stored.get (columnName key.field) =
        (Affinity.ofKey key.association.target.idType).store (.ofJson key.value) := by
  obtain ⟨others, hothers, hnil⟩ := existing_id db schema id
  obtain rfl := Except.ok.inj (hfound.symm.trans hothers)
  obtain ⟨before, hbefore, hid⟩ : ∃ row ∈ db.rows schema.tableName,
      db.hasId schema id row = true := by
    simpa using mt hnil.2 hne
  rcases hupdated with ⟨hempty, rfl⟩ | ⟨hempty, n, hn⟩
  · -- a row in which nothing is set has no keys
    refine ⟨before, hbefore, hid, hkeys, fun key hk => ?_⟩
    have hgiven := (hp.gives h hc hs hk (.refl _ _)).1
    rw [List.isEmpty_iff.1 hempty] at hgiven
    cases hgiven
  · have hupdate := updateRows_of_idIs ha hempty hn
    have hnot := hp.idColumn_notMem_row h hc hs
    have hstay := Database.rowsStay_of_updateRows hc hs hdb hmid hupdate hnot
    obtain ⟨t, ht, hrows, -⟩ := Database.rows_updateRows hupdate
    have hpicked := Database.hasKeyOf_of_hasId hc hdb.sound hs hbefore hid
    have hsame : (t.changed (db.hasKeyOf (.idIs schema id)) (p.row.map fun m =>
        (columnName m.1, SqlValue.ofJson m.2)) before) = t.assign (p.row.map fun m =>
          (columnName m.1, SqlValue.ofJson m.2)) before := if_pos hpicked
    refine ⟨_, hrows.symm.subset (List.mem_map_of_mem hbefore), ?_, fun key hk id hid => ?_,
      fun key hk => ?_⟩
    · rw [hsame, Database.hasId, Table.get_assign_of_notMem hnot,
        Database.affinity_idColumn hc hmid.sound hs, ← Database.affinity_idColumn hc hdb.sound hs]
      exact hid
    · obtain ⟨-, htarget⟩ := hp.source_eq h hs (Parts.association_mem_of_key hk)
      exact hstay _ htarget id (hkeys key hk id hid)
    · obtain ⟨u, hu, hm, haffinity, c, hcolumn, hname, -⟩ :=
        Database.exists_of_refers hc hdb.sound (hp.refers_of_key h hs hk)
      obtain rfl := Option.some.inj (ht.symm.trans hu)
      obtain ⟨u, hu, hbefore⟩ := Database.mem_rows_iff.1 hbefore
      obtain rfl := Option.some.inj (ht.symm.trans hu)
      rw [hsame, Table.get_assign_of_gives (hp.gives h hc hs hk (.refl _ _)), haffinity]
      rw [((hdb.proper.kept t hm).rows before hbefore).columns, ← hname]
      exact List.mem_map_of_mem hcolumn

end

end Engine

/-! ## Payloads -/

namespace Payload

/-- The associations of the relationships that the payload names. -/
def associations (r : Registry) (schema : Schema) (payload : Payload) : List Association :=
  payload.relationships.filterMap fun relationship => r.association? schema relationship.1

end Payload

theorem Parts.proper_of_parts {payload : Payload} {p : Parts}
    (hparts : Engine.parts r schema payload = .ok p) (hd : payload.Declared r schema)
    (hr : ∀ a ∈ payload.associations r schema, a.RefersToEnds r)
    (hplaces : ((payload.associations r schema).map (·.place)).Nodup) : p.Proper r schema := by
  obtain ⟨hattributes, hsorts⟩ := sorts_of_parts hparts
  have hperm : (payload.associations r schema).Perm p.associations := hsorts.perm
  refine ⟨fun a ha => ?_, fun a ha => hr a (hperm.symm.subset ha),
    (hperm.map _).nodup_iff.1 hplaces, hattributes ▸ hd.attributes, fun x hx row hrow => ?_,
    fun key hkey => (hsorts.of_mem_keys key hkey).1,
    fun x hx => (hsorts.of_mem_links x.1 x.2 hx).1,
    fun x hx => (hsorts.of_mem_links x.1 x.2 hx).2.1⟩
  · obtain ⟨name, hfound⟩ := hsorts.exists_name a ha
    rwa [(Registry.mem_of_association? hfound).2.2]
  · obtain ⟨-, -, name, hfound, hm⟩ := hsorts.of_mem_links x.1 x.2 hx
    exact hd.targets name x.2 x.1 hm hfound row hrow

namespace Engine

open Session

section

variable (h : Registry.assemble schemas = .ok r) (hc : r.Creatable) (hs : schema ∈ r.schemas)
  {payload : Payload} {p : Parts} {record : Record}
  (hparts : parts r schema payload = .ok p) (hp : p.Proper r schema)
include h hc hs hparts hp

omit hparts hc in
theorem target_mem_of_associations : ∀ a ∈ p.associations, a.target ∈ r.schemas :=
  fun _ ha => (hp.source_eq h hs ha).2

omit h hc hs hp in
/-- What is told of keys and links is told of relationships. -/
theorem tells_of_parts
    (hkeys : ∀ key ∈ p.keys, ∀ link : Link, link.targets = key.id.toList.map .byId →
      record.Tells r db key.association link)
    (hlinks : ∀ a link, (a, link) ∈ p.links → record.Tells r db a link) :
    ∀ name link, (name, link) ∈ payload.relationships →
      ∃ a, r.association? schema name = some a ∧ record.Tells r db a link := by
  intro name link hm
  obtain ⟨a, ha, ⟨key, hkey, rfl, htargets⟩ | hlink⟩ :=
    (Parts.sorts_of_parts hparts).2.exists_of_mem name link hm
  · exact ⟨_, ha, hkeys key hkey link htargets⟩
  · exact ⟨a, ha, hlinks a link hlink⟩

/-- **The record of a create tells the relationships of its payload.** -/
theorem tells_of_createWith {scope : Scope} {given : Option Json}
    (ht : Action.Takes r (createWith scope schema given p) db record db') :
    ∀ name link, (name, link) ∈ payload.relationships →
      ∃ a, r.association? schema name = some a ∧ record.Tells r db' a link := by
  have hl := Registry.tablesLinked h hc
  obtain ⟨row, mid, hmid, hfound, hsame, hcreated, hid, hw⟩ :=
    exists_of_createWith hl hc (target_mem_of_associations h hs hp) ht
  obtain ⟨stored, hrow, hstored, hfound, hnone, hkeys⟩ :=
    stored_of_created h hc hs hp ht.regular hmid hfound hsame hcreated hid
  obtain ⟨hkeys, hlinks⟩ := tells_of_linksWritten h hc hs hp hmid hw hrow hstored
    (fun _ => hnone) hfound hkeys
  exact tells_of_parts hparts hkeys hlinks

/-- **The record of an update tells the relationships of its payload.** -/
theorem tells_of_updateWith (ha : schema.Addressable) {scope : Scope} {id : Json}
    (ht : Action.Takes r (updateWith r scope schema id p) db record db') :
    ∀ name link, (name, link) ∈ payload.relationships →
      ∃ a, r.association? schema name = some a ∧ record.Tells r db' a link := by
  have hl := Registry.tablesLinked h hc
  obtain ⟨found, mid, hmid, hexisting, hne, hfound, hupdated, hw, rfl⟩ :=
    exists_of_updateWith hl hc (target_mem_of_associations h hs hp) ht
  obtain ⟨stored, hrow, hstored, hfound, hkeys⟩ :=
    stored_of_updated h hc hs hp ha ht.regular hmid hfound hexisting hne hupdated
  obtain ⟨hkeys, hlinks⟩ := tells_of_linksWritten h hc hs hp hmid hw hrow hstored
    nofun hfound hkeys
  exact tells_of_parts hparts hkeys hlinks

end

/-- **Records tell what their relationships lead to.** -/
theorem records_tell {payload : Payload} {s : Session} (h : Registry.assemble schemas = .ok r)
    (hn : (r.tables.map (·.name)).Nodup) (hreachable : Reachable r s) (hs : schema ∈ r.schemas)
    (hd : payload.Declared r schema)
    (hr : ∀ a ∈ payload.associations r schema, a.RefersToEnds r)
    (hplaces : ((payload.associations r schema).map (·.place)).Nodup) (supply : Nat → String)
    (id : Json) :
    ∀ action, action ∈ [create r schema payload, createIn r schema payload] ∨
      schema.Addressable ∧ action ∈ [update r schema id payload, updateIn r schema id payload] →
    ∀ record s', run supply action.run s = (.ok (.ok record), s') →
    ∀ name link, (name, link) ∈ payload.relationships →
      ∃ a, r.association? schema name = some a ∧ record.Tells r s'.database a link := by
  intro action haction record s' hrun name link hm
  obtain ⟨hc, hregular⟩ := regular_of_reachable h hn hreachable
  have hl := Registry.tablesLinked h hc
  have hregistry := (sound_of_reachable h hn hreachable).2.registry
  have ht : Action.Takes r action s.database record s'.database :=
    ⟨supply, s, s', hregistry, hregular, hrun, rfl, rfl⟩
  have hproper {p : Parts} (hparts : parts r schema payload = .ok p) : p.Proper r schema :=
    Parts.proper_of_parts hparts hd hr hplaces
  have hlinked {p : Parts} (hparts : parts r schema payload = .ok p) :
      p.hasRelationships = true := by
    simp [hasRelationships_parts hparts, List.ne_nil_of_mem hm]
  simp only [List.mem_cons, List.not_mem_nil, or_false] at haction
  rcases haction with (rfl | rfl) | ⟨ha, rfl | rfl⟩
  · obtain ⟨p, mid, hchecked, hrest⟩ := ht.of_bind hl
    obtain ⟨hparts, rfl⟩ := hchecked.of_liftM
    rw [if_pos (hlinked hparts)] at hrest
    exact tells_of_createWith h hc hs hparts (hproper hparts) (hrest.of_inTransaction hl) name link
      hm
  · obtain ⟨p, mid, hchecked, hrest⟩ := ht.of_bind hl
    obtain ⟨hparts, rfl⟩ := hchecked.of_liftM
    exact tells_of_createWith h hc hs hparts (hproper hparts) hrest name link hm
  · obtain ⟨_, mid, hid, hrest⟩ := ht.of_bind hl
    obtain ⟨-, rfl⟩ := hid.of_liftM
    obtain ⟨p, mid, hchecked, hlast⟩ := hrest.of_bind hl
    obtain ⟨hparts, rfl⟩ := hchecked.of_liftM
    rw [if_pos (hlinked hparts)] at hlast
    exact tells_of_updateWith h hc hs hparts (hproper hparts) ha (hlast.of_inTransaction hl) name link
      hm
  · obtain ⟨_, mid, hid, hrest⟩ := ht.of_bind hl
    obtain ⟨-, rfl⟩ := hid.of_liftM
    obtain ⟨p, mid, hchecked, hlast⟩ := hrest.of_bind hl
    obtain ⟨hparts, rfl⟩ := hchecked.of_liftM
    exact tells_of_updateWith h hc hs hparts (hproper hparts) ha hlast name link hm

/-! ## A team and its members -/

/-- A session with one person. -/
def onePerson : Session :=
  (Session.run (fun _ => "") (create staff person
    ⟨"Person", none, [("active", .bool true)], []⟩).run staff.unused).2

/-- A team of the person that is there and of another one. -/
def foundingMembers : Link := .many [.byId (.int 1), .create [("active", .bool false)]]

/-- The payload of the team. -/
def founding : Payload := ⟨"Team", none, [("name", .str "a")], [("members", foundingMembers)]⟩

/-- The record of the team. -/
def foundedTeam : Record :=
  ⟨.int 1, [("id", .int 1), ("name", .str "a")], [("members", .arr [.int 1, .int 2])]⟩

/-- The team is told with its members, the one that was there and the one that is new. -/
theorem team_tells_members :
    ∃ s', Session.run (fun _ => "") (create staff team founding).run onePerson =
        (.ok (.ok foundedTeam), s') ∧
      s'.database.rows "person" = [
        [("id", .integer 1), ("active", .integer 1), ("team_id", .integer 1)],
        [("id", .integer 2), ("active", .integer 0), ("team_id", .integer 1)]] ∧
      foundedTeam.Tells staff s'.database teamMembers foundingMembers := by
  have hr : Registry.assemble [team, person] = .ok staff := by decide +kernel
  have hreachable : Reachable staff onePerson :=
    .run _ _ (.start (Registry.start_unused (by decide +kernel)))
  have hassociations : founding.associations staff team = [teamMembers] := by decide +kernel
  have hd : founding.Declared staff team := by
    refine ⟨⟨by decide, by decide⟩, fun name link a hm ha row hrow => ?_⟩
    obtain ⟨rfl, rfl⟩ := Prod.mk.inj (List.mem_singleton.1 hm)
    obtain rfl := Option.some.inj ha
    obtain rfl : row = [("active", .bool false)] := by
      simpa [foundingMembers, Link.targets] using hrow
    exact ⟨by decide, by decide⟩
  have hrefers : ∀ a ∈ founding.associations staff team, a.RefersToEnds staff := by
    rw [hassociations]
    refine List.forall_mem_singleton.2 (Registry.refers_of_foreignKey
      (k := ⟨"Person", "teamId", team⟩) (by decide) (by decide))
  have hrun : Session.run (fun _ => "") (create staff team founding).run onePerson =
      (.ok (.ok foundedTeam),
        (Session.run (fun _ => "") (create staff team founding).run onePerson).2) :=
    Prod.ext (by decide +kernel) rfl
  refine ⟨_, hrun, by decide +kernel, ?_⟩
  obtain ⟨a, ha, htells⟩ := records_tell hr (by decide +kernel) hreachable (by decide) hd hrefers
    (by rw [hassociations]; decide) (fun _ => "") .null _ (.inl List.mem_cons_self) _ _ hrun "members"
    foundingMembers List.mem_cons_self
  obtain rfl := Option.some.inj ha
  exact htells

/-! ## Records that do not tell -/

/-- A record that shows targets where no row is related, or none where one is, does not tell. -/
theorem not_tells {record : Record} {link : Link} {shown : List Json}
    (hmany : a.cardinality = .many) (hshown : record.relationships.get? a.name = some (.arr shown))
    (h : ∀ row ∈ db.rows a.source.tableName, (a.relatedRows db row).isEmpty = !shown.isEmpty) :
    ¬record.Tells r db a link := by
  rintro ⟨row, hrow, -, ids, hget, -, -, htells, -⟩
  simp only [hshown, linkedIds, hmany, Option.some.injEq, Json.arr.injEq] at hget
  subst hget
  have hrelated := htells _ (.inl rfl)
  have hempty := h row hrow
  cases hrows : a.relatedRows db row with
  | nil =>
    rw [hrows] at hrelated hempty
    cases shown with
    | nil => cases hempty
    | cons id rest => simpa using (hrelated id).1 List.mem_cons_self
  | cons target rest =>
    rw [hrows] at hrelated hempty
    cases shown with
    | nil => simpa using (hrelated _).2 ⟨target, List.mem_cons_self, rfl⟩
    | cons id rest => cases hempty

/-- A create that succeeds and does not tell one of its relationships. -/
def LeavesUntold (r : Registry) (schema : Schema) (payload : Payload) (s : Session)
    (a : Association) : Prop :=
  ∃ record s', Session.run (fun _ => "") (create r schema payload).run s = (.ok (.ok record), s') ∧
    ∃ link, payload.relationships = [(a.name, link)] ∧
      r.association? schema a.name = some a ∧ ¬record.Tells r s'.database a link

theorem leavesUntold_of_run {payload : Payload} {s : Session} (record : Record) {link : Link}
    {shown : List Json} (ha : r.association? schema a.name = some a)
    (hpayload : payload.relationships = [(a.name, link)])
    (hrun : (Session.run (fun _ => "") (create r schema payload).run s).1 = .ok (.ok record))
    (hmany : a.cardinality = .many) (hshown : record.relationships.get? a.name = some (.arr shown))
    (h : ((Session.run (fun _ => "") (create r schema payload).run s).2.database.rows
      a.source.tableName).all (fun row => (a.relatedRows
        (Session.run (fun _ => "") (create r schema payload).run s).2.database row).isEmpty ==
          !shown.isEmpty) = true) :
    LeavesUntold r schema payload s a :=
  ⟨record, _, Prod.ext hrun rfl, link, hpayload, ha, not_tells hmany hshown fun row hrow =>
    beq_iff_eq.1 (List.all_eq_true.1 h row hrow)⟩

/-- Errands that declare a key, in a table of the same name. -/
def looseErrand : Schema := { errand with relationships := [] }

/-- Both kinds of errands, one of them related to owners. -/
def looseErrands : Registry where
  schemas := [plainOwner, looseErrand, plainErrand]
  associations := [plainErrands]
  foreignKeys := [⟨"errand", "ownerId", plainOwner⟩]

/-- A session with an errand for an owner who is not there. -/
def oneLooseErrand : Session :=
  (Session.run (fun _ => "") (create looseErrands looseErrand
    ⟨"Errand", none, [("ownerId", .int 7)], []⟩).run looseErrands.unused).2

/-- An owner without errands. -/
def idling : Payload := ⟨"Owner", some (.int 7), [], [("errands", .many [])]⟩

/-- Nodes with the nodes below them. -/
def parentNode : Schema where
  name := "Node"
  idType := .integer
  relationships := [("children", .hasMany "Node" none)]

/-- The nodes below a node. -/
def nodeChildren : Association := ⟨"children", parentNode, parentNode, .hasMany "nodeId"⟩

/-- The registry of nodes with the nodes below them. -/
def parentNodes : Registry := ⟨[parentNode], [nodeChildren], [⟨"Node", "nodeId", parentNode⟩]⟩

/-- A node with nothing below it, but itself. -/
def looping : Payload := ⟨"Node", some (.int 1), [("nodeId", .int 1)], [("children", .many [])]⟩

/-- Rooms, which have labels and doors to other rooms. -/
def room : Schema where
  name := "Room"
  idType := .integer
  relationships := [
    ("labels", .hasManyThrough "Label" (some "Links") (some "roomId") (some "labelId")),
    ("doors", .hasManyThrough "Room" (some "Links") (some "roomId") (some "room_id"))]

/-- Labels. -/
def roomLabel : Schema where
  name := "Label"
  idType := .integer

/-- The rooms behind the doors of a room. -/
def roomDoors : Association :=
  ⟨"doors", room, room, .hasManyThrough ⟨"Links", "links", "roomId", "room_id"⟩⟩

/-- The labels of a room. -/
def roomLabels : Association :=
  ⟨"labels", room, roomLabel, .hasManyThrough ⟨"Links", "links", "roomId", "labelId"⟩⟩

/-- Rooms and labels. -/
def rooms : Registry := ⟨[room, roomLabel], [roomLabels, roomDoors], []⟩

/-- A room with a door to a new one. -/
def adjoining : Payload := ⟨"Room", none, [], [("doors", .many [.create []])]⟩

/-- **Records may not tell.** An errand whose table lacks the key of its schema, a node that is
given its key as an attribute, and a door, both keys of which are in one column: the relationships
that the records show are not those that were stored. -/
theorem records_may_not_tell :
    (Registry.assemble [plainOwner, looseErrand, plainErrand] = .ok looseErrands ∧
      (∀ a ∈ looseErrands.associations, a.RefersToEnds looseErrands) ∧
      Reachable looseErrands oneLooseErrand ∧
      LeavesUntold looseErrands plainOwner idling oneLooseErrand plainErrands) ∧
    (Registry.assemble [parentNode] = .ok parentNodes ∧
      (∀ a ∈ parentNodes.associations, a.RefersToEnds parentNodes) ∧
      Reachable parentNodes parentNodes.unused ∧
      LeavesUntold parentNodes parentNode looping parentNodes.unused nodeChildren) ∧
    Registry.assemble [room, roomLabel] = .ok rooms ∧
      rooms.associations = [roomLabels, roomDoors] ∧ roomLabels.RefersToEnds rooms ∧
      rooms.Refers "links" "room_id" room ∧
      Reachable rooms rooms.unused ∧
      LeavesUntold rooms room adjoining rooms.unused roomDoors := by
  have hj : (roomLabels, ⟨"Links", "links", "roomId", "labelId"⟩) ∈ rooms.joinAssociations := by
    decide +kernel
  have hlinks := Registry.refers_of_joinTable hj
  refine ⟨⟨by decide +kernel, ?_, ?_, ?_⟩, ⟨by decide +kernel, ?_, ?_, ?_⟩, by decide +kernel, rfl,
    ⟨hlinks.1, hlinks.2, by decide⟩, hlinks.1, ?_, ?_⟩
  · exact List.forall_mem_singleton.2 (Registry.refers_of_foreignKey
      (k := ⟨"errand", "ownerId", plainOwner⟩) (by decide) (by decide))
  · exact .run _ _ (.start (Registry.start_unused (by decide +kernel)))
  · exact leavesUntold_of_run ⟨.int 7, [("id", .int 7)], [("errands", .arr [])]⟩
      rfl rfl (by decide +kernel) rfl rfl (by decide +kernel)
  · exact List.forall_mem_singleton.2 (Registry.refers_of_foreignKey
      (k := ⟨"Node", "nodeId", parentNode⟩) (by decide) (by decide))
  · exact .start (Registry.start_unused (by decide +kernel))
  · exact leavesUntold_of_run
      ⟨.int 1, [("id", .int 1), ("nodeId", .int 1)], [("children", .arr [])]⟩
      rfl rfl (by decide +kernel) rfl rfl (by decide +kernel)
  · exact .start (Registry.start_unused (by decide +kernel))
  · exact leavesUntold_of_run
      ⟨.int 1, [("id", .int 1)], [("doors", .arr [.int 2])]⟩
      rfl rfl (by decide +kernel) rfl rfl (by decide +kernel)

end Engine

end ResourceApi
