import ResourceApi.Proofs.Engine.Agreement
import ResourceApi.Proofs.Engine.Telling
import ResourceApi.Proofs.Store.Expressible

/-!
# Records that mirror rows

The record of a create or an update shows the row of its identifier. An update reads this row again
once its links are written. A create answers with the row that was inserted, and writes its links
after that.

**Theorem (`Engine.records_mirror_rows`).** A find by the identifier of an updated record answers
the row that the record shows, in the same scope. So it does for a created record, but for the keys
by which the payload links the new row to itself.

A row of a regular database is read again as it is told (`Session.found_reloadPlan`), in the form in
which the statement that inserts a row answers it. Links are written to a row only where it is named
as a target (`Engine.LinksWritten.holdsBeside`), so that a find tells it as the create did.
-/

namespace ResourceApi

variable {schemas : List Schema} {r : Registry} {db mid db' : Database} {schema : Schema}
  {a : Association} {row : Tuple} {written : String → Prop} {key : String} {parent : Json}
  {id : Json} {ids : List Json}

/-! ## Reading a row again -/

section

variable (hc : r.Creatable) (hs : schema ∈ r.schemas)
include hc hs

/-- A decoded row that was read again is the row as it is told. -/
theorem Registry.eq_objectOf_of_decode {related : List Json} {object : Object}
    (h : r.decode ((Engine.reloadPlan r schema id).outputs r schema)
      (((Engine.reloadPlan r schema id).attributes.names schema).map fun field =>
        row.get (columnName field), related) = .ok object) :
    object = r.objectOf schema row := by
  obtain ⟨members, hmembers, rfl⟩ := decode_eq_ok h
  cases hmembers
  have hnames : (Engine.reloadPlan r schema id).attributes.names schema =
      (r.columns schema).map (·.field) := Session.fields_eq r schema
  rw [hnames, List.append_nil, List.map_map]
  refine congrArg Object.ofList (List.map_congr_left fun c hm => ?_)
  simp [hc.column?_of_mem hs hm, column_of_mem hm]

/-- One row has the identifier. -/
theorem Database.Regular.filter_hasId (hdb : db.Regular r) (hrow : row ∈ db.rows schema.tableName)
    (hid : db.hasId schema id row = true) :
    (db.rows schema.tableName).filter (db.hasId schema id) = [row] := by
  have hall : ∀ other ∈ (db.rows schema.tableName).filter (db.hasId schema id), other = row := by
    intro other ho
    obtain ⟨ho, hother⟩ := List.mem_filter.1 ho
    refine hdb.eq_of_equals hc hs ho hrow (SqlValue.equals_trans hother ?_)
    rwa [SqlValue.equals_comm]
  have hdistinct : Table.Distinct [schema.idColumn]
      ((db.rows schema.tableName).filter (db.hasId schema id)) :=
    (hdb.distinct_idColumn hc hs).filter _
  have hm := List.mem_filter.2 ⟨hrow, hid⟩
  have hself := SqlValue.equals_self (hdb.idColumn_ne_null hc hs hrow)
  generalize (db.rows schema.tableName).filter (db.hasId schema id) = rows at *
  match rows with
  | [] => cases hm
  | [only] => rw [hall only List.mem_cons_self]
  | first :: second :: rest =>
    -- two rows with the identifier would be the same
    have hdiffers := (Table.distinct_cons.1 hdistinct).1 second List.mem_cons_self
    rw [hall first List.mem_cons_self, hall second (List.mem_cons_of_mem _ List.mem_cons_self),
      Table.sameKey_singleton, hself] at hdiffers
    cases hdiffers

/-- **A row is read again as it is told.** -/
theorem Session.found_reloadPlan (hdb : db.Regular r) (hk : schema.Addressable)
    (hrow : row ∈ db.rows schema.tableName) (hid : db.hasId schema id row = true) :
    found schema (Engine.reloadPlan r schema id) r db = .ok [r.objectOf schema row] := by
  obtain ⟨object, rest, hfound⟩ := exists_found_reloadPlan hc hdb.sound hs hk hrow hid
  obtain ⟨query, outputs, related, hquery, hall⟩ := select_of_found hfound
  obtain ⟨q, hq, hreloads⟩ := exists_reloads r hk id
  obtain ⟨rfl, rfl⟩ := Prod.mk.inj (Except.ok.inj (hq.symm.trans hquery))
  have hsorted : db.sorted q = [row] := by
    refine List.perm_singleton.1 ((db.sorted_perm q).trans ?_)
    rw [hreloads.addresses.filtered_eq hc hdb.sound hs, hdb.filter_hasId hc hs hrow hid]
  unfold Database.select Database.selected at hall
  rw [List.forall₂_map_left_iff, List.forall₂_map_left_iff,
    hreloads.addresses.window_eq] at hall
  change List.Forall₂ _ (db.sorted q) _ at hall
  rw [hsorted] at hall
  cases hall with
  | cons hdecode hrest =>
    cases hrest
    have hvalues := hreloads.renders.values_eq row
    dsimp only at hdecode
    rw [hvalues] at hdecode
    rw [hfound, Registry.eq_objectOf_of_decode hc hs hdecode]

end

/-! ## Rows and what is written to them -/

namespace Database

/-- The database has the row, which may have other values now in columns that were written. It has
its primary key in any case. -/
def HoldsBeside (db : Database) (schema : Schema) (row : Tuple) (written : String → Prop) : Prop :=
  ∃ row' ∈ db.rows schema.tableName,
    ∀ column, column = schema.idColumn ∨ ¬written column → row'.get column = row.get column

theorem HoldsBeside.of_mem (h : row ∈ db.rows schema.tableName) :
    db.HoldsBeside schema row written :=
  ⟨row, h, fun _ _ => rfl⟩

/-- It still has the identifier of the row. -/
theorem HoldsBeside.hasRow (h : db.HoldsBeside schema row written) :
    db.HasRow schema (schema.idOf row) := by
  obtain ⟨row', hrow', hsame⟩ := h
  exact ⟨row', hrow', by rw [Schema.idOf, hsame _ (.inl rfl), Schema.idOf]⟩

/-- Rows are left alone by what is written to another table. -/
theorem HoldsBeside.of_rows_eq (h : db.HoldsBeside schema row written)
    (hrows : db'.rows schema.tableName = db.rows schema.tableName) :
    db'.HoldsBeside schema row written := by
  obtain ⟨row', hrow', hsame⟩ := h
  exact ⟨row', hrows ▸ hrow', hsame⟩

/-- An update leaves a row alone unless it is picked, and then all but the columns that it sets. -/
theorem HoldsBeside.of_updateRows {table : String} {picked : Tuple → Bool} {values : Tuple}
    {n : Nat} (h : db.HoldsBeside schema row written)
    (hupdate : db.updateRows table picked values = .ok (db', n))
    (hset : ∀ t, db.table? schema.tableName = some t → table = schema.tableName →
      ∀ row' ∈ db.rows schema.tableName, row'.get schema.idColumn = row.get schema.idColumn →
        picked row' = true → ∀ column, column = schema.idColumn ∨ ¬written column →
          (t.assign values row').get column = row'.get column) :
    db'.HoldsBeside schema row written := by
  obtain ⟨t, ht, hrows, hothers⟩ := rows_updateRows hupdate
  by_cases htable : schema.tableName = table
  · subst htable
    obtain ⟨row', hrow', hsame⟩ := h
    refine ⟨_, hrows.symm.subset (List.mem_map_of_mem hrow'), fun column hcolumn => ?_⟩
    refine Eq.trans ?_ (hsame column hcolumn)
    unfold Table.changed
    split
    · rename_i hpicked
      exact hset t ht rfl row' hrow' (hsame _ (.inl rfl)) hpicked column hcolumn
    · rfl
  · exact h.of_rows_eq (hothers _ htable)

end Database

namespace Association

section

variable (hc : r.Creatable) (hs : schema ∈ r.schemas) (hdb : db.Regular r)
include hc hs hdb

omit hs in
/-- The identifier that names a row is that of the row. -/
theorem idOf_mem_of_isNamed (ht : a.target ∈ r.schemas) (hfound : ∀ id ∈ ids, db.HasRow a.target id)
    (hrow : row ∈ db.rows a.target.tableName) (h : a.isNamed ids row = true) :
    a.target.idOf row ∈ ids := by
  obtain ⟨id, hid, hequals⟩ := List.any_eq_true.1 h
  rwa [(hdb.idOf_eq_iff hc ht hrow (hfound id hid)).2 hequals]

/-- **Links by keys are written to the rows that they name**, and to no other columns. -/
theorem holdsBeside_of_keys (hk : a.HasKey key) (ht : a.target ∈ r.schemas)
    (hfound : ∀ id ∈ ids, db.HasRow a.target id)
    (h : db.Executes (Statement.ofLinks a (schema.idOf row) ids false) db')
    (hrow : db.HoldsBeside schema row written)
    (hwritten : a.target = schema → schema.idOf row ∈ ids → written (columnName key)) :
    db'.HoldsBeside schema row written := by
  rw [ofLinks_of_hasKey hk, if_neg Bool.false_ne_true, List.nil_append] at h
  split at h
  · cases h
    exact hrow
  obtain ⟨n, hexecute⟩ := h.of_singleton
  refine hrow.of_updateRows hexecute ?_
  intro t htable hname row' hrow' hid hpicked column hcolumn
  obtain rfl := hc.eq_of_tableName hs ht hname
  have hids : ∀ id ∈ ids, a.target.HoldsKey (.ofJson id) :=
    fun id hid => hdb.holdsKey_ofJson hc ht (hfound id hid)
  have hnamed : a.isNamed ids row' = true := by
    rwa [List.all_cons, List.all_nil, Bool.and_true, guardHolds_among hc hdb ht hids] at hpicked
  have hsame : a.target.idOf row' = a.target.idOf row := by
    rw [Schema.idOf, hid, Schema.idOf]
  have hmem := idOf_mem_of_isNamed hc hdb ht hfound hrow' hnamed
  rw [hsame] at hmem
  show (row'.set (columnName key) _).get column = _
  rw [Tuple.get_set]
  split
  · rename_i heq
    obtain ⟨rfl, -⟩ := heq
    obtain hcolumn | hnot := hcolumn
    · -- a key in the column of the primary key is the primary key
      have haffinity := Database.affinity_idColumn hc hdb.sound ht
      rw [Database.affinity, htable] at haffinity
      dsimp only at haffinity
      rw [hcolumn, haffinity, ← hsame]
      show (Affinity.ofKey a.target.idType).store (.ofJson (a.target.idOf row')) = _
      rw [hdb.ofJson_idOf hc ht hrow', (hdb.holdsKey hc ht hrow').store]
    · exact absurd (hwritten rfl hmem) hnot
  · rfl

end

/-- Links through a join table are written to no row of a schema. -/
theorem holdsBeside_of_through (h : Registry.assemble schemas = .ok r) (hc : r.Creatable)
    (hs : schema ∈ r.schemas) (ha : a ∈ r.associations) {join : JoinTable}
    (hk : a.kind = .hasManyThrough join)
    (he : db.Executes (Statement.ofLinks a parent ids false) db')
    (hrow : db.HoldsBeside schema row written) : db'.HoldsBeside schema row written := by
  rw [ofLinks_of_through hk, if_neg Bool.false_ne_true, List.nil_append] at he
  split at he
  · cases he
    exact hrow
  obtain ⟨n, hexecute⟩ := he.of_singleton
  obtain ⟨t, t', hwrites, -⟩ := Database.writes_insertLinks hexecute
  exact hrow.of_rows_eq (hwrites.rows_of_ne (hc.tableName_ne h ha hk hs))

end Association

/-! ## Links -/

namespace Engine

open Session

section

variable (h : Registry.assemble schemas = .ok r) (hc : r.Creatable) (hs : schema ∈ r.schemas)
include h hc hs

/-- **Links are written to a row only where it is named as a target.** -/
theorem LinksWritten.holdsBeside {links : List (Association × Link)} {related noted : Object}
    (hdb : db.Regular r)
    (hw : LinksWritten r (schema.idOf row) false db links related noted db')
    (hlinks : ∀ x ∈ links, x.1 ∈ r.associations ∧ ∀ field, x.1.kind ≠ .belongsTo field)
    (hwritten : ∀ x ∈ links, ∀ key, x.1.HasKey key → x.1.target = schema →
      .byId (schema.idOf row) ∈ x.2.targets → written (columnName key))
    (hrow : db.HoldsBeside schema row written) : db'.HoldsBeside schema row written := by
  have hl := Registry.tablesLinked h hc
  induction hw with
  | nil => exact hrow
  | @cons db mid next db' a link ids rest related noted hres he _ ih =>
    obtain ⟨⟨ha, hkind⟩, hothers⟩ := List.forall_mem_cons.1 hlinks
    obtain ⟨hfirst, hrest⟩ := List.forall_mem_cons.1 hwritten
    have hmid := hres.regular hl hdb
    refine ih (he.regular_ofLinks (List.Subset.refl _) hl hmid) hothers hrest ?_
    have hkept : mid.HoldsBeside schema row written := by
      obtain ⟨rows, objects, hcreates, -⟩ := hres.creates
      obtain ⟨row', hrow', hsame⟩ := hrow
      exact ⟨row', hcreates.mem_rows hrow', hsame⟩
    have ht := (Registry.coherent_of_assemble h).target _ ha
    have hkey {key : String} (hk : a.HasKey key) : next.HoldsBeside schema row written := by
      refine Association.holdsBeside_of_keys hc hs hmid hk ht hres.found he hkept ?_
      intro htarget hmem
      have hbefore : db.HasRow a.target (schema.idOf row) := by
        rw [htarget]
        exact hrow.hasRow
      -- the row was there before, so that it was not created as a target
      exact hfirst key hk htarget ((hres.fresh _ hmem).resolve_right (not_not.2 hbefore))
    cases hk : a.kind with
    | belongsTo field => exact absurd hk (hkind field)
    | hasOne key => exact hkey (.inl hk)
    | hasMany key => exact hkey (.inr hk)
    | hasManyThrough join => exact Association.holdsBeside_of_through h hc hs ha hk he hkept

end

end Engine

/-! ## Rows that a find answers -/

/-- A relationship of the payload links the row of the identifier to itself, by a key of this
name. -/
def Payload.LinksItself (payload : Payload) (r : Registry) (schema : Schema) (id : Json)
    (field : String) : Prop :=
  ∃ name link a, (name, link) ∈ payload.relationships ∧ r.association? schema name = some a ∧
    a.HasKey field ∧ a.target = schema ∧ .byId id ∈ link.targets

/-- A find by the identifier of the record, of all columns, answers the row. -/
def Record.IsFoundAs (record : Record) (r : Registry) (schema : Schema) (scope : Scope)
    (s : Session) (row : Object) : Prop :=
  ∀ supply, (Session.run supply (Engine.findOne scope schema record.id
    (Engine.reloadPlan r schema record.id)).run s).1 = .ok (.ok row)

namespace Engine

open Session

variable {payload : Payload} {scope : Scope} {record : Record}

theorem isFoundAs_of_found {s : Session} {object : Object} (hs : s.Serves scope) (h : ∃ rest,
    found schema (reloadPlan r schema record.id) s.registry s.database = .ok (object :: rest)) :
    record.IsFoundAs r schema scope s object := by
  intro supply
  have hends : Ends supply (findOne scope schema record.id
      (reloadPlan r schema record.id) >>= pure) s (.ok object) s.database :=
    ends_findOne hs rfl rfl h fun s' hhas => hhas.database ▸ ends_pure object
  rw [bind_pure] at hends
  exact hends.result

/-! ## Updates -/

section

variable {supply : Nat → String} {s s' : Session}

/-- A record that was read again shows the first row that a find answers. -/
theorem found_of_run_reload {related : Object}
    (hrun : run supply (reload r scope schema id related).run s = (.ok (.ok record), s')) :
    s'.Serves scope ∧ ∃ rest, found schema (reloadPlan r schema record.id) s'.registry s'.database =
      .ok (record.attributes :: rest) := by
  obtain ⟨object, answered, hfind, hpure⟩ := Action.exists_of_run_bind hrun
  obtain ⟨rfl, rfl⟩ := Action.of_run_pure hpure
  obtain ⟨rows, read, hread, hrow⟩ := Action.exists_of_run_bind hfind
  split at hrow
  · obtain ⟨rfl, rfl⟩ := Action.of_run_pure hrow
    obtain ⟨hserves, hperform⟩ := Action.of_run_perform hread
    obtain ⟨hreads, hcomputes⟩ := computes_find schema (reloadPlan r schema id)
    have hview := hreads s
    have hfound := hcomputes s
    change (find schema (reloadPlan r schema id)).run s = _ at hperform
    rw [hperform] at hview hfound
    obtain ⟨hregistry, hview⟩ := hview
    obtain ⟨hdatabase, hsaved⟩ := Prod.mk.inj hview
    rw [← hregistry, ← hdatabase] at hfound
    exact ⟨fun hscope => hsaved.trans (hserves hscope), _, hfound.symm⟩
  · exact absurd hrow Action.not_run_throw

/-- An update with linkage reads its record again at its end. -/
theorem exists_reload_of_run_updateWith {p : Parts}
    (hrun : run supply (updateWith r scope schema id p).run s = (.ok (.ok record), s')) :
    ∃ mid related, run supply (reload r scope schema id related).run mid =
      (.ok (.ok record), s') := by
  have hlast {mid : Session} {related : Object} (h : run supply
      (writeLinks scope (fun a ids => .setLinks a id ids) p.links related >>= fun related =>
        reload r scope schema id related).run mid = (.ok (.ok record), s')) :
      ∃ mid related, run supply (reload r scope schema id related).run mid =
        (.ok (.ok record), s') := by
    obtain ⟨noted, written, -, hreload⟩ := Action.exists_of_run_bind h
    exact ⟨written, noted, hreload⟩
  unfold updateWith at hrun
  obtain ⟨found, read, -, hrest⟩ := Action.exists_of_run_bind hrun
  split at hrest
  · obtain ⟨_, _, hthrow, -⟩ := Action.exists_of_run_bind hrest
    exact absurd hthrow Action.not_run_throw
  obtain ⟨out, inlined, -, hwork⟩ := Action.exists_of_run_bind hrest
  dsimp only at hwork
  split at hwork
  · obtain ⟨n, changed, -, hlinks⟩ := Action.exists_of_run_bind hwork
    exact hlast hlinks
  · exact hlast hwork

/-- **An update answers with the row that it reads at its end.** -/
theorem found_of_run_update
    (hrun : run supply (update r schema id payload).run s = (.ok (.ok record), s')) :
    s'.Serves .store ∧ ∃ rest, found schema (reloadPlan r schema record.id) s'.registry
      s'.database = .ok (record.attributes :: rest) := by
  unfold update at hrun
  obtain ⟨-, checked, -, hrest⟩ := Action.exists_of_run_bind hrun
  obtain ⟨p, sorted, -, hwork⟩ := Action.exists_of_run_bind hrest
  split at hwork
  · obtain ⟨begun, ended, hupdate, hregistry, hdatabase, hsaved⟩ :=
      Action.exists_of_run_inTransaction hwork
    obtain ⟨mid, related, hreload⟩ := exists_reload_of_run_updateWith hupdate
    rw [hregistry, hdatabase]
    exact ⟨fun _ => hsaved, (found_of_run_reload hreload).2⟩
  · obtain ⟨n, changed, -, hlast⟩ := Action.exists_of_run_bind hwork
    dsimp only at hlast
    split at hlast
    · obtain ⟨_, _, hthrow, -⟩ := Action.exists_of_run_bind hlast
      exact absurd hthrow Action.not_run_throw
    · exact found_of_run_reload hlast

theorem found_of_run_updateIn
    (hrun : run supply (updateIn r schema id payload).run s = (.ok (.ok record), s')) :
    ∃ rest, found schema (reloadPlan r schema record.id) s'.registry s'.database =
      .ok (record.attributes :: rest) := by
  unfold updateIn at hrun
  obtain ⟨-, checked, -, hrest⟩ := Action.exists_of_run_bind hrun
  obtain ⟨p, sorted, -, hwork⟩ := Action.exists_of_run_bind hrest
  obtain ⟨mid, related, hreload⟩ := exists_reload_of_run_updateWith hwork
  exact (found_of_run_reload hreload).2

end

/-! ## Creates -/

/-- No transaction is open after a create. -/
theorem saved_of_run_create {supply : Nat → String} {s s' : Session}
    (hrun : run supply (create r schema payload).run s = (.ok (.ok record), s')) :
    s'.saved = none := by
  unfold create at hrun
  obtain ⟨p, checked, -, hwork⟩ := Action.exists_of_run_bind hrun
  split at hwork
  · obtain ⟨-, -, -, -, -, hsaved⟩ := Action.exists_of_run_inTransaction hwork
    exact hsaved
  · obtain ⟨row, assigned, -, hrest⟩ := Action.exists_of_run_bind hwork
    obtain ⟨object, inserted, hcreate, hlast⟩ := Action.exists_of_run_bind hrest
    obtain ⟨key, keyed, hkey, hpure⟩ := Action.exists_of_run_bind hlast
    obtain rfl := Action.of_run_liftM hkey
    obtain ⟨-, rfl⟩ := Action.of_run_pure hpure
    exact Action.saved_of_run_perform hcreate

section

variable (h : Registry.assemble schemas = .ok r) (hc : r.Creatable) (hs : schema ∈ r.schemas)
include h hc hs

/-- **A create leaves its row as it was answered**, beside the keys by which it links itself. -/
theorem holdsBeside_of_create :
    ∀ action ∈ [create r schema payload, createIn r schema payload],
      Action.Takes r action db record db' → ∃ row,
        record.id = schema.idOf row ∧ record.attributes = r.objectOf schema row ∧
        db'.HoldsBeside schema row fun column =>
          ∃ field, payload.LinksItself r schema record.id field ∧ columnName field = column := by
  intro action haction ht
  have hl := Registry.tablesLinked h hc
  obtain ⟨p, scope, hp, ht⟩ := exists_takes_createWith hl action haction ht
  obtain ⟨given, mid, hmid, -, -, hcreated, hid, hw⟩ :=
    exists_of_createWith hl hc (target_mem_of_parts h hs hp) ht
  obtain ⟨row, hinsert, hrow⟩ := exists_objectOf_of_created hc ht.regular.sound hs hcreated
  have hkey : record.id = schema.idOf row := by
    rw [hrow, Registry.get?_objectOf hc hs List.mem_cons_self] at hid
    exact (Option.some.inj hid).symm
  rw [hkey] at hw
  have hsorts := (Parts.sorts_of_parts hp).2
  have hm : row ∈ mid.rows schema.tableName :=
    (Database.rows_insert hinsert).1.symm.subset List.mem_cons_self
  refine ⟨row, hkey, hrow, hw.holdsBeside h hc hs hmid (fun x hx => ?_)
    (fun x hx key hk htarget hid => ?_) (.of_mem hm)⟩
  · obtain ⟨hkind, -, name, hfound, -⟩ := hsorts.of_mem_links x.1 x.2 hx
    exact ⟨(Registry.mem_of_association? hfound).1, hkind⟩
  · obtain ⟨-, -, name, hfound, hname⟩ := hsorts.of_mem_links x.1 x.2 hx
    exact ⟨key, ⟨name, x.2, x.1, hname, hfound, hk, htarget, hkey ▸ hid⟩, rfl⟩

omit hc in
/-- A key by which a row is linked to itself has a column of its table. -/
theorem exists_column_of_linksItself {field : String}
    (hlinks : payload.LinksItself r schema id field) :
    ∃ c ∈ r.columns schema, c.field = field := by
  obtain ⟨name, link, a, -, hfound, hk, rfl, -⟩ := hlinks
  have hon : a.KeyOn a.target field a.source := hk.elim .hasOne .hasMany
  obtain ⟨c, hcolumn⟩ :=
    Registry.exists_column_of_keyOn h (Registry.mem_of_association? hfound).1 hon
  exact ⟨c, List.mem_of_find?_eq_some hcolumn, by simpa using List.find?_some hcolumn⟩

/-- What is beside the keys by which a row links itself is read again as it was. -/
theorem exists_found_of_holdsBeside (hdb : db.Regular r) (hk : schema.Addressable)
    (hrow : db.HoldsBeside schema row fun column =>
      ∃ field, payload.LinksItself r schema id field ∧ columnName field = column) :
    ∃ row', found schema (reloadPlan r schema (schema.idOf row)) r db =
        .ok [r.objectOf schema row'] ∧
      ∀ field, ¬payload.LinksItself r schema id field →
        (r.objectOf schema row').get? field = (r.objectOf schema row).get? field := by
  obtain ⟨row', hm, hsame⟩ := hrow
  have hid : schema.idOf row' = schema.idOf row := by
    rw [Schema.idOf, hsame _ (.inl rfl), Schema.idOf]
  have hfound := found_reloadPlan hc hs hdb hk hm (hdb.hasId_idOf hc hs hm)
  rw [hid] at hfound
  refine ⟨row', hfound, fun field hnot => Registry.get?_objectOf_congr hc hs fun c hcolumn hfield =>
    hsame _ (.inr ?_)⟩
  rintro ⟨other, hlinks, hname⟩
  obtain ⟨d, hd, rfl⟩ := exists_column_of_linksItself h hs hlinks
  rw [← Registry.column_of_mem hd] at hname
  obtain rfl := List.inj_on_of_nodup_map (hc.nodup_columns hs) hd hcolumn hname
  exact hnot (hfield ▸ hlinks)

end

/-! ## Records and rows -/

/-- **A create answers with its row**, beside the keys by which it links itself. -/
theorem exists_found_of_run_create {supply : Nat → String} {s s' : Session}
    (h : Registry.assemble schemas = .ok r) (hn : (r.tables.map (·.name)).Nodup)
    (hreachable : Reachable r s) (hs : schema ∈ r.schemas) (hk : schema.Addressable) :
    ∀ action ∈ [create r schema payload, createIn r schema payload],
      run supply action.run s = (.ok (.ok record), s') → ∃ row,
        found schema (reloadPlan r schema record.id) s'.registry s'.database = .ok [row] ∧
        (∀ field ∈ schema.allFields ++ (r.foreignKeysOf schema).map (·.field),
          (record.attributes.get? field).isSome) ∧
        ∀ field, ¬payload.LinksItself r schema record.id field →
          row.get? field = record.attributes.get? field := by
  intro action haction hrun
  obtain ⟨hc, hregular⟩ := regular_of_reachable h hn hreachable
  have hregistry := (sound_of_reachable h hn hreachable).2.registry
  have hkept := registry_of_run supply action.run s
  rw [hrun, hregistry] at hkept
  have ht : Action.Takes r action s.database record s'.database :=
    ⟨supply, s, s', hregistry, hregular, hrun, rfl, rfl⟩
  have hregular' := ht.regular_after (Registry.tablesLinked h hc)
  obtain ⟨row, hid, hrow, hbeside⟩ := holdsBeside_of_create h hc hs action haction ht
  obtain ⟨row', hfound, hsame⟩ := exists_found_of_holdsBeside h hc hs hregular' hk hbeside
  refine ⟨_, by rw [hkept, hid, hfound], fun field hfield => ?_, fun field hnot => ?_⟩
  · rw [fields_eq] at hfield
    obtain ⟨c, hm, rfl⟩ := List.mem_map.1 hfield
    rw [hrow, Registry.get?_objectOf hc hs hm, Option.isSome_some]
  · rw [hrow, hsame field hnot]

/-- **Records mirror rows.** An update answers with its row as a find reads it afterwards. A create
does so beside the keys by which its payload links the row to itself. -/
theorem records_mirror_rows (r : Registry) (schema : Schema) (payload : Payload) (id : Json)
    (supply : Nat → String) (s : Session) :
    (∀ x ∈ [(Scope.store, update r schema id payload),
        (Scope.transaction, updateIn r schema id payload)],
      ∀ record s', run supply x.2.run s = (.ok (.ok record), s') →
        record.IsFoundAs r schema x.1 s' record.attributes) ∧
    (∀ schemas, Registry.assemble schemas = .ok r → (r.tables.map (·.name)).Nodup →
      Reachable r s → schema ∈ r.schemas → schema.Addressable →
      ∀ x ∈ [(Scope.store, create r schema payload),
          (Scope.transaction, createIn r schema payload)],
        ∀ record s', run supply x.2.run s = (.ok (.ok record), s') →
          ∃ row, record.IsFoundAs r schema x.1 s' row ∧
            (∀ field ∈ schema.allFields ++ (r.foreignKeysOf schema).map (·.field),
              (record.attributes.get? field).isSome) ∧
            ∀ field, ¬payload.LinksItself r schema record.id field →
              row.get? field = record.attributes.get? field) := by
  constructor
  · intro x hx record s' hrun
    rcases List.mem_pair.1 hx with rfl | rfl
    · obtain ⟨hserves, hfound⟩ := found_of_run_update hrun
      exact isFoundAs_of_found hserves hfound
    · exact isFoundAs_of_found nofun (found_of_run_updateIn hrun)
  · intro schemas h hn hreachable hs hk x hx record s' hrun
    have hserves : s'.Serves x.1 := by
      rcases List.mem_pair.1 hx with rfl | rfl
      · exact fun _ => saved_of_run_create hrun
      · exact nofun
    have haction : x.2 ∈ [create r schema payload, createIn r schema payload] :=
      List.mem_map_of_mem (f := Prod.snd) hx
    obtain ⟨row, hfound, hfields, hsame⟩ :=
      exists_found_of_run_create h hn hreachable hs hk x.2 haction hrun
    exact ⟨row, isFoundAs_of_found hserves ⟨[], hfound⟩, hfields, hsame⟩

/-! ## Nodes below nodes -/

/-- A session with one node. -/
def loneNode : Session :=
  (Session.run (fun _ => "") (create parentNodes parentNode ⟨"Node", none, [], []⟩).run
    parentNodes.unused).2

/-- The first node comes below a node. -/
def adopting : Payload := ⟨"Node", none, [], [("children", .many [.byId (.int 1)])]⟩

/-- A new node above the first one. -/
def newParent : Record :=
  ⟨.int 2, [("id", .int 2), ("nodeId", .null)], [("children", .arr [.int 1])]⟩

/-- The first node above itself. -/
def ownParent : Record :=
  ⟨.int 1, [("id", .int 1), ("nodeId", .int 1)], [("children", .arr [.int 1])]⟩

/-- Both the node that is created above the first one and the first one that is put above itself
are mirrored. -/
theorem adopting_mirrors_rows :
    ∃ created updated,
      run (fun _ => "") (create parentNodes parentNode adopting).run loneNode =
        (.ok (.ok newParent), created) ∧
      (∃ row, newParent.IsFoundAs parentNodes parentNode .store created row ∧
        row.get? "id" = some (.int 2) ∧ row.get? "nodeId" = some .null) ∧
      run (fun _ => "") (update parentNodes parentNode (.int 1) adopting).run loneNode =
        (.ok (.ok ownParent), updated) ∧
      ownParent.IsFoundAs parentNodes parentNode .store updated ownParent.attributes := by
  have hreachable : Reachable parentNodes loneNode :=
    .run _ _ (.start (Registry.start_unused (by decide +kernel)))
  have hcreate : run (fun _ => "") (create parentNodes parentNode adopting).run loneNode =
      (.ok (.ok newParent),
        (run (fun _ => "") (create parentNodes parentNode adopting).run loneNode).2) :=
    Prod.ext (by decide +kernel) rfl
  have hupdate : run (fun _ => "") (update parentNodes parentNode (.int 1) adopting).run loneNode =
      (.ok (.ok ownParent),
        (run (fun _ => "") (update parentNodes parentNode (.int 1) adopting).run loneNode).2) :=
    Prod.ext (by decide +kernel) rfl
  obtain ⟨hupdates, hcreates⟩ :=
    records_mirror_rows parentNodes parentNode adopting (.int 1) (fun _ => "") loneNode
  obtain ⟨row, hfound, -, hsame⟩ := hcreates [parentNode] (by decide +kernel) (by decide +kernel)
    hreachable (by decide) (by decide) _ List.mem_cons_self _ _ hcreate
  have hnot (field : String) :
      ¬adopting.LinksItself parentNodes parentNode newParent.id field := by
    rintro ⟨name, link, a, hm, -, -, -, hid⟩
    obtain ⟨rfl, rfl⟩ := Prod.mk.inj (List.mem_singleton.1 hm)
    simp [Link.targets, newParent] at hid
  exact ⟨_, _, hcreate, ⟨row, hfound, hsame "id" (hnot "id"), hsame "nodeId" (hnot "nodeId")⟩,
    hupdate, hupdates _ List.mem_cons_self _ _ hupdate⟩

/-! ## Records that do not mirror rows -/

/-- A create that succeeds, after which a find does not answer what was recorded. -/
def LeavesUnmirrored (r : Registry) (schema : Schema) (payload : Payload) (s : Session) : Prop :=
  ∃ record s', run (fun _ => "") (create r schema payload).run s = (.ok (.ok record), s') ∧
    ¬∃ row, record.IsFoundAs r schema .store s' row ∧
      ∀ field, row.get? field = record.attributes.get? field

theorem leavesUnmirrored_of_run {s : Session} (record : Record) (field : String)
    (hcreate : (run (fun _ => "") (create r schema payload).run s).1 = .ok (.ok record))
    (hdiffers : ((run (fun _ => "") (findOne .store schema record.id
      (reloadPlan r schema record.id)).run
        (run (fun _ => "") (create r schema payload).run s).2).1.toOption.bind (·.toOption)).map
          (·.get? field) ≠ some (record.attributes.get? field)) :
    LeavesUnmirrored r schema payload s := by
  refine ⟨record, _, Prod.ext hcreate rfl, ?_⟩
  rintro ⟨row, hfound, hsame⟩
  rw [hfound] at hdiffers
  exact hdiffers (congrArg some (hsame field))

/-- Items. -/
def bareItem : Schema where
  name := "Item"
  idType := .integer

/-- Items with a price, in a table of the same name. -/
def pricedItem : Schema where
  name := "item"
  idType := .integer
  attributes := [{ name := "price", type := .integer }]

/-- Both kinds of items. -/
def mixedItems : Registry := ⟨[bareItem, pricedItem], [], []⟩

/-- **Records may not mirror rows.** A node that is created above itself, a row of a schema whose
table was created for another one, and a row whose primary key has a dot in its name: a find does
not answer what was recorded. -/
theorem records_may_not_mirror :
    (Registry.assemble [parentNode] = .ok parentNodes ∧
      (parentNodes.tables.map (·.name)).Nodup ∧ Reachable parentNodes parentNodes.unused ∧
      parentNode.Addressable ∧
      LeavesUnmirrored parentNodes parentNode adopting parentNodes.unused) ∧
    (Registry.assemble [bareItem, pricedItem] = .ok mixedItems ∧
      Reachable mixedItems mixedItems.unused ∧ pricedItem.Addressable ∧
      LeavesUnmirrored mixedItems pricedItem ⟨"item", none, [], []⟩ mixedItems.unused) ∧
    Registry.assemble [dottedNote] = .ok dottedNotes ∧
      (dottedNotes.tables.map (·.name)).Nodup ∧ Reachable dottedNotes dottedNotes.unused ∧
      LeavesUnmirrored dottedNotes dottedNote ⟨"Note", none, [], []⟩ dottedNotes.unused := by
  refine ⟨⟨by decide +kernel, by decide +kernel, ?_, by decide, ?_⟩,
    ⟨by decide +kernel, ?_, by decide, ?_⟩, by decide +kernel, by decide +kernel, ?_, ?_⟩
  · exact .start (Registry.start_unused (by decide +kernel))
  · exact leavesUnmirrored_of_run
      ⟨.int 1, [("id", .int 1), ("nodeId", .null)], [("children", .arr [.int 1])]⟩ "nodeId"
      (by decide +kernel) (by decide +kernel)
  · exact .start (Registry.start_unused (by decide +kernel))
  · exact leavesUnmirrored_of_run ⟨.int 1, [("id", .int 1)], []⟩ "id" (by decide +kernel)
      (by decide +kernel)
  · exact .start (Registry.start_unused (by decide +kernel))
  · exact leavesUnmirrored_of_run ⟨.int 1, [("a.b", .int 1), ("text", .null)], []⟩ "a.b"
      (by decide +kernel) (by decide +kernel)

end Engine

end ResourceApi
