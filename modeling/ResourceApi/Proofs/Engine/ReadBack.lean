import ResourceApi.Proofs.Engine.Member
import ResourceApi.Proofs.Engine.Mirroring
import ResourceApi.Proofs.Service.Answers
import ResourceApi.Proofs.Write.Coerced

/-!
# Created rows that are read back

**Theorem (`Service.created_reads_back`).** After a document without relationships was answered with
a created record, a find by the identifier of the record answers the values that the document was
coerced to, and null for attributes that it neither gives nor leaves to a default. The record shows
the same.

Between the document and the find, the coerced values are stored in the columns of their attributes,
and other columns are null (`Registry.get?_objectOf_of_mem`, `Registry.get?_objectOf_of_notMem`). A
find by an identifier answers the row that has it (`Session.exists_found_forId`). A primary key whose
name has a dot cannot be looked for in this way (`Service.created_may_not_be_found`).
-/

namespace ResourceApi

variable {schemas : List Schema} {r : Registry} {db db' : Database} {schema : Schema}
  {row stored : Tuple} {id : Json} {a : Attribute}

/-! ## Stored attributes -/

section

variable (hc : r.Creatable) (hs : schema ∈ r.schemas)
include hc hs

/-- Fields have columns of their own. -/
theorem Registry.Creatable.eq_of_columnName {field field' : String}
    (hf : field ∈ schema.allFields) (hf' : field' ∈ schema.allFields)
    (he : columnName field = columnName field') : field = field' := by
  have hcolumn {field : String} (hf : field ∈ schema.allFields) :
      ∃ c ∈ r.columns schema, c.field = field := by
    have hm := List.mem_append_left ((r.foreignKeysOf schema).map (·.field)) hf
    rw [Session.fields_eq] at hm
    exact List.mem_map.1 hm
  obtain ⟨c, hm, rfl⟩ := hcolumn hf
  obtain ⟨c', hm', rfl⟩ := hcolumn hf'
  rw [← Registry.column_of_mem hm, ← Registry.column_of_mem hm'] at he
  rw [List.inj_on_of_nodup_map (hc.nodup_columns hs) hm hm' he]

theorem Registry.Creatable.nodup_allFields : schema.allFields.Nodup := by
  have hfields := hc.nodup_fields hs
  rw [← Session.fields_eq] at hfields
  exact (List.nodup_append.1 hfields).1

theorem Registry.Creatable.name_ne_idField (ha : a ∈ schema.attributes) :
    a.name ≠ schema.idField := fun he =>
  (List.nodup_cons.1 (hc.nodup_allFields hs)).1 (he ▸ List.mem_map_of_mem ha)

theorem Registry.Creatable.columnName_ne_idColumn (ha : a ∈ schema.attributes) :
    columnName a.name ≠ schema.idColumn := fun he =>
  hc.name_ne_idField hs ha (hc.eq_of_columnName hs
    (List.mem_cons_of_mem _ (List.mem_map_of_mem ha)) List.mem_cons_self he)

omit hc hs in
theorem Registry.column_mem_of_attribute (ha : a ∈ schema.attributes) :
    ⟨a.name, columnName a.name, .ofAttribute a.type⟩ ∈ r.columns schema := by
  unfold Registry.columns
  refine List.mem_append_left _ (List.mem_cons_of_mem _ ?_)
  exact List.mem_map_of_mem (f := fun a : Attribute =>
    (⟨a.name, columnName a.name, .ofAttribute a.type⟩ : Column)) ha

/-- The column of an attribute stores values as the attribute's type asks for. -/
theorem Database.affinity_of_attribute (hdb : db.Sound r.tables) (ha : a ∈ schema.attributes) :
    db.affinity schema.tableName (columnName a.name) = .ofAttribute a.type := by
  obtain ⟨t, ht, hd⟩ := exists_tableOf hdb.definitions hc.tableNames hs
  have hm : ⟨columnName a.name, .ofAttribute a.type, a.constraints⟩ ∈ t.definition.columns := by
    rw [hd]
    refine List.mem_append_left _ (List.mem_cons_of_mem _ ?_)
    exact List.mem_map_of_mem (f := fun a : Attribute =>
      (⟨columnName a.name, .ofAttribute a.type, a.constraints⟩ : ColumnDefinition)) ha
  have haffinity := affinity_of_mem hc (hd ▸ Registry.tableOf_mem_tables hs) hm
  rw [affinity, ht]
  exact haffinity

section

variable {attributes given : Object} (hrow : schema.Declares attributes)
  (hsame : attributes.SameBeside schema.idField given) (ha : a ∈ schema.attributes)
include hrow hsame ha

/-- What is set in the column of an attribute is the value of the attribute. -/
theorem Registry.Creatable.eq_of_column_of_attribute {m : String × Json} (hm : m ∈ given)
    (hcolumn : columnName m.1 = columnName a.name) : m ∈ attributes ∧ m.1 = a.name := by
  have hfield : a.name ∈ schema.allFields := List.mem_cons_of_mem _ (List.mem_map_of_mem ha)
  have hname : m.1 = a.name := by
    refine hc.eq_of_columnName hs ?_ hfield hcolumn
    rcases hsame.mem_keys (List.mem_map_of_mem hm) with hid | hkey
    · exact hid ▸ List.mem_cons_self
    · exact List.mem_cons_of_mem _ (hrow.names hkey)
  exact ⟨(hsame m fun he => hc.name_ne_idField hs ha (hname ▸ he)).1 hm, hname⟩

variable (hdb : db.Regular r)
  (h : db.insert schema.tableName (given.map fun m => (columnName m.1, SqlValue.ofJson m.2)) =
    .ok (db', stored))
include hdb h

/-- A value that is set is stored as the column asks for. -/
theorem Registry.get?_objectOf_of_mem {value : Json} (hm : (a.name, value) ∈ attributes) :
    (r.objectOf schema stored).get? a.name = some (a.readBack value) := by
  have hid := hc.name_ne_idField hs ha
  have hgives : Tuple.Gives (given.map fun m => (columnName m.1, SqlValue.ofJson m.2))
      (columnName a.name) (.ofJson value) := by
    refine ⟨List.mem_map.2 ⟨(a.name, value), (hsame (a.name, value) hid).2 hm, rfl⟩, ?_⟩
    intro c hcolumn hname
    obtain ⟨m, hm', rfl⟩ := List.mem_map.1 hcolumn
    obtain ⟨hmem, he⟩ := hc.eq_of_column_of_attribute hs hrow hsame ha hm' hname
    rw [List.inj_on_of_nodup_map hrow.nodup hmem hm he]
  have hm := Registry.column_mem_of_attribute (r := r) ha
  have hnamed : columnName a.name ∈ (r.tableOf schema).columns.map (·.name) := by
    rw [Registry.names_tableOf]
    exact List.mem_map.2 ⟨_, hm, rfl⟩
  have hget : (r.objectOf schema stored).get? a.name =
      some ((stored.get (columnName a.name)).toJson (.ofAttribute a.type)) :=
    Registry.get?_objectOf hc hs hm
  rw [hget, Database.get_of_insert hc hdb hs h (hc.columnName_ne_idColumn hs ha), if_pos hnamed,
    hgives.get_eq, Database.affinity_of_attribute hc hs hdb.sound ha]
  rfl

/-- A value that is not set is null. -/
theorem Registry.get?_objectOf_of_notMem (hm : a.name ∉ attributes.keys) :
    (r.objectOf schema stored).get? a.name = some .null := by
  have hunset : columnName a.name ∉
      (given.map fun m => (columnName m.1, SqlValue.ofJson m.2)).map (·.1) := by
    rw [Session.columns_of_row]
    intro hkey
    obtain ⟨key, hkey, hname⟩ := List.mem_map.1 hkey
    obtain ⟨m, hm', rfl⟩ := List.mem_map.1 hkey
    obtain ⟨hmem, he⟩ := hc.eq_of_column_of_attribute hs hrow hsame ha hm' hname
    exact hm (he ▸ List.mem_map_of_mem hmem)
  have hget : (r.objectOf schema stored).get? a.name =
      some ((stored.get (columnName a.name)).toJson (.ofAttribute a.type)) :=
    Registry.get?_objectOf hc hs (column_mem_of_attribute ha)
  rw [hget, Database.get_eq_null_of_insert hc hdb hs h (hc.columnName_ne_idColumn hs ha)
    hunset]
  rfl

end

end

/-! ## Rows that are found -/

section

variable (hc : r.Creatable) (hs : schema ∈ r.schemas) (hdb : db.Regular r) (hk : schema.Addressable)
include hc hs hdb hk

/-- The plan for an identifier is rendered as a query that the store accepts. -/
theorem Session.exists_prepared_forId (id : Json) :
    ∃ q, Statement.ofPlan r schema (Plan.forId schema id) =
      .ok (q, (Plan.forId schema id).outputs r schema) ∧ prepared q db = .ok q := by
  obtain ⟨q, hq, hrenders, haddresses⟩ :
      ∃ q, Statement.ofPlan r schema (Plan.forId schema id) =
          .ok (q, (Plan.forId schema id).outputs r schema) ∧
        q.Renders r schema (Plan.forId schema id) ∧ Addresses schema id q :=
    exists_addresses r hk rfl fun _ hf => exists_column_of_reload (List.mem_append_left _ hf)
  have hselected : q.columns = schema.allFields.map (⟨q.aliasId, columnName ·⟩) :=
    hrenders.columns
  have hlength : q.columns.length ≤ Statement.maxTerms := by
    have hall := hc.length_columns hs
    rw [List.length_append] at hall
    rw [hselected, List.length_map]
    omega
  refine ⟨q, hq, prepared_of_fits (haddresses.finds hc hdb.sound hs
    (List.subset_append_left _ _ : _ ⊆ r.columns schema) ?_) (haddresses.fits hlength) ?_⟩
  · rw [hselected]
    simp [Schema.allFields, Schema.attributeNames, Schema.idColumn, Function.comp_def]
  · rw [hselected]
    exact List.cons_ne_nil _ _

variable (hrow : row ∈ db.rows schema.tableName) (hid : db.hasId schema id row = true)
include hrow hid

/-- The row that has the identifier is the one that the plan for it asks for. -/
theorem Plan.satisfying_forId : (Plan.forId schema id).satisfying r db schema = [row] := by
  rw [← hdb.filter_hasId hc hs hrow hid]
  refine List.filter_congr fun other _ => ?_
  have hholds : (Plan.forId schema id).filter.Holds r db schema other ↔
      db.hasId schema id other = true := by
    show Predicate.AllHold r db schema other [.idIs schema id] ↔ _
    rw [Predicate.allHold_iff, List.forall_mem_singleton, Predicate.holds_idIs_iff hk]
  exact Bool.eq_iff_iff.2 (decide_eq_true_iff.trans hholds)

/-- **A find by an identifier answers the row that has it.** -/
theorem Session.exists_found_forId (hr : r.Coherent) :
    ∃ object, found schema (Plan.forId schema id) r db = .ok [object] ∧
      ∀ field ∈ schema.allFields, object.get? field = (r.objectOf schema row).get? field := by
  obtain ⟨q, hq, hprepared⟩ := exists_prepared_forId hc hs hdb hk id
  obtain ⟨objects, hfound, -⟩ := exists_found_of_prepared hq hprepared fun _ => .inl rfl
  have hvalued : (Plan.forId schema id).filter.Valued := by
    refine ⟨?_, trivial⟩
    show id ≠ .null
    rintro rfl
    refine (SqlValue.equals_iff.1 hid).2.1 ?_
    cases db.affinity schema.tableName schema.idColumn <;> rfl
  have hreads : (Plan.forId schema id).Reads r schema :=
    ⟨fun field hf => Schema.hasField_iff.2 hf, hvalued, trivial⟩
  have hfiltered : (Plan.forId schema id).filter ≠ .any [] := by
    intro hany
    cases hany
  obtain ⟨ordered, hperm, -, hshows⟩ :=
    rows_of_found hr hs hreads hfiltered (List.forall_mem_nil _) hfound
  rw [Plan.satisfying_forId hc hs hdb hk hrow hid, List.perm_singleton] at hperm
  subst hperm
  cases hshows with
  | cons hshows hnone =>
    cases hnone
    refine ⟨_, hfound, fun field hf => ?_⟩
    obtain ⟨c, hcolumn⟩ := exists_column_of_reload (r := r) (List.mem_append_left _ hf)
    have hm := List.mem_of_find?_eq_some hcolumn
    have hname : c.field = field := by simpa using List.find?_some hcolumn
    subst hname
    rw [hshows.fields c.field hf, hcolumn, Registry.get?_objectOf hc hs hm,
      ← Registry.column_of_mem hm]
    rfl

end

/-! ## Created rows -/

namespace Engine

open Session

variable {payload : Payload} {record : Record} {supply : Nat → String} {s s' : Session}

/-- What a create without linkage has stored: its attributes, and an identifier beside them. -/
theorem exists_insert_of_run_create (h : Registry.assemble schemas = .ok r)
    (hn : (r.tables.map (·.name)).Nodup) (hreachable : Reachable r s) (hs : schema ∈ r.schemas)
    (hr : payload.relationships = [])
    (hrun : run supply (create r schema payload).run s = (.ok (.ok record), s')) :
    ∃ given stored, payload.attributes.SameBeside schema.idField given ∧
      s.database.insert schema.tableName
        (given.map fun m => (columnName m.1, SqlValue.ofJson m.2)) = .ok (s'.database, stored) ∧
      record.attributes = r.objectOf schema stored ∧ record.id = schema.idOf stored := by
  obtain ⟨hc, hregular⟩ := regular_of_reachable h hn hreachable
  have hregistry := (sound_of_reachable h hn hreachable).2.registry
  have ht : Action.Takes r (create r schema payload) s.database record s'.database :=
    ⟨supply, s, s', hregistry, hregular, hrun, rfl, rfl⟩
  rw [create_eq_createWith hr] at ht
  obtain ⟨given, mid, -, -, hsame, hcreated, hid, hlinks⟩ :=
    exists_of_createWith (Registry.tablesLinked h hc) hc (List.forall_mem_nil _) ht
  have hdb : s'.database = mid := by
    generalize record.relationships = noted at hlinks
    cases hlinks
    rfl
  subst hdb
  obtain ⟨stored, hinsert, hobject⟩ :=
    exists_objectOf_of_created hc hregular.database.sound hs hcreated
  refine ⟨given, stored, hsame, hinsert, hobject, ?_⟩
  rw [hobject, Registry.get?_objectOf hc hs List.mem_cons_self] at hid
  exact (Option.some.inj hid).symm

end Engine

/-- The attributes that the document of a request gives. -/
def Request.attributes (request : Request) : Object :=
  (((request.body.getD .null).getD "data").getD "attributes").asObject?.getD []

/-- The relationships that the document of a request gives. -/
def Request.relationships (request : Request) : Object :=
  (((request.body.getD .null).getD "data").getD "relationships").asObject?.getD []

/-- The row shows what was given for it: each value as it was coerced, and null where there is
neither a value nor a default. -/
structure Schema.ShowsGiven (schema : Schema) (given row : Object) : Prop where
  values : ∀ member ∈ given, ∃ written read,
    Document.coerceMember schema ["data", "attributes"] member = .ok (member.1, written) ∧
      written.ReadsBack read ∧ row.get? member.1 = some read
  absent : ∀ a ∈ schema.attributes, a.name ∉ given.keys → a.default = none →
    row.get? a.name = some .null

namespace Service

variable {service : Service} {request : Request} {serving : Serving Outcome} {record : Record}
  {supply : Nat → String} {s s' : Session}

/-- **Created rows are read back as they were given.** -/
theorem created_reads_back (h : Registry.assemble schemas = .ok service.registry)
    (hn : (service.registry.tables.map (·.name)).Nodup)
    (hreachable : Session.Reachable service.registry s)
    (hroute : service.route? request = some (.create schema)) (hk : schema.Addressable)
    (hnames : request.attributes.keys.Nodup)
    (hranged : ∀ member ∈ request.attributes, member.2.IsRanged)
    (hunlinked : request.relationships = [])
    (hdispatch : service.dispatch request = some serving)
    (hrun : Session.run supply serving.run s = (.ok (.ok (.created record)), s')) :
    ∃ row, (∀ supply, (Session.run supply (Engine.findOne .store schema record.id
        (Plan.forId schema record.id)).run s').1 = .ok (.ok row)) ∧
      row.get? schema.idField = some record.id ∧
      schema.ShowsGiven request.attributes row ∧
      ∀ field ∈ schema.allFields, record.attributes.get? field = row.get? field := by
  have hs : schema ∈ service.registry.schemas := Route.schema_mem_of_resolve? hroute
  rw [dispatch_of_route hroute] at hdispatch
  obtain rfl := Option.some.inj hdispatch
  obtain ⟨payload, hpayload, hcreate⟩ := answers_created_iff.1 hrun
  have hcoerced : Document.coerceAttributes schema .create ["data", "attributes"]
      request.attributes = (payload.attributes, []) := Payload.coerced_of_ofDocument hpayload
  have hdeclares := Payload.attributes_of_ofDocument hpayload
  have hr := Payload.relationships_of_ofDocument hpayload hunlinked
  obtain ⟨hc, hregular⟩ := Session.regular_of_reachable h hn hreachable
  obtain ⟨given, stored, hsame, hinsert, hobject, hid⟩ :=
    Engine.exists_insert_of_run_create h hn hreachable hs hr hcreate
  have hafter : Session.Reachable service.registry s' := by
    have hnext := hreachable.run supply (Engine.create service.registry schema payload).run
    rwa [hcreate] at hnext
  have hregular' := (Session.regular_of_reachable h hn hafter).2.database
  have hm : stored ∈ s'.database.rows schema.tableName :=
    (Database.rows_insert hinsert).1.symm.subset List.mem_cons_self
  obtain ⟨row, hfound, hrow⟩ := Session.exists_found_forId hc hs hregular' hk hm
    (hregular'.hasId_idOf hc hs hm) (Registry.coherent_of_assemble h)
  have hshown {field : String} {value : Json} (hf : field ∈ schema.allFields)
      (hget : (service.registry.objectOf schema stored).get? field = some value) :
      row.get? field = some value := (hrow field hf).trans hget
  have hattribute {a : Attribute} (ha : a ∈ schema.attributes) : a.name ∈ schema.allFields :=
    List.mem_cons_of_mem _ (List.mem_map_of_mem ha)
  refine ⟨row, fun supply => ?_, ?_, ⟨?_, ?_⟩, fun field hf => hobject ▸ (hrow field hf).symm⟩
  · obtain ⟨found, -, hfind⟩ := Engine.run_findOne supply schema record.id
      (Plan.forId schema record.id) (Engine.saved_of_run_create hcreate)
    rw [hfind, (Session.sound_of_reachable h hn hafter).2.registry, hid, hfound]
    rfl
  · exact hid ▸ hshown List.mem_cons_self (Registry.get?_objectOf hc hs List.mem_cons_self)
  · rintro ⟨name, value⟩ hmember
    obtain ⟨⟨name', written⟩, hcoerce, hmem⟩ :=
      Document.mem_coerceAttributes hnames hmember (congrArg Prod.snd hcoerced)
    obtain rfl : name' = name := Document.name_of_coerceMember hcoerce
    obtain ⟨a, ha, hback⟩ :=
      Document.exists_readsBack_of_coerceMember (hranged _ hmember) hcoerce
    have hname : a.name = name' := by simpa using List.find?_some ha
    subst hname
    have ha := List.mem_of_find?_eq_some ha
    rw [hcoerced] at hmem
    exact ⟨written, _, hcoerce, hback, hshown (hattribute ha)
      (Registry.get?_objectOf_of_mem hc hs hdeclares hsame ha hregular.database hinsert hmem)⟩
  · intro a ha hnot hdefault
    have hunset : a.name ∉ (Document.coerceAttributes schema .create ["data", "attributes"]
        request.attributes).1.keys :=
      Document.notMem_coerceAttributes (List.nodup_cons.1 (hc.nodup_allFields hs)).2 ha hnot hdefault
    rw [hcoerced] at hunset
    exact hshown (hattribute ha)
      (Registry.get?_objectOf_of_notMem hc hs hdeclares hsame ha hregular.database hinsert hunset)

/-- Samples with a value of each kind, and one that is left out. -/
def sample : Schema where
  name := "Sample"
  idType := .integer
  attributes := [{ name := "label", type := .string, nullable := false },
    { name := "weight", type := .float }, { name := "count", type := .integer },
    { name := "dried", type := .boolean, default := some (.bool true) },
    { name := "takenAt", type := .datetime }, { name := "remark", type := .text }]
  relationships := [("source", .belongsTo "Sample" none)]

/-- A sample may be taken from another one. -/
def sampleSource : Association := ⟨"source", sample, sample, .belongsTo "sourceId"⟩

/-- Samples, served alone. -/
def samples : Registry := ⟨[sample], [sampleSource], [⟨"Sample", "sourceId", sample⟩]⟩

/-- A request for a new sample. Its weight is a whole number, its count a number without
fraction. -/
def sampling : Request where
  method := .post
  path := "/api/samples"
  query := ""
  body := some (.obj [("data", .obj [
    ("attributes", .obj [("count", .float (.ofInt 3)), ("label", .str "a"),
      ("takenAt", .str "2024-01-02T03:04:05Z"), ("weight", .int 2)]),
    ("type", .str "Sample")])])

/-- The first sample. -/
def firstSample : Record where
  id := .int 1
  attributes := [("count", .int 3), ("dried", .bool true), ("id", .int 1), ("label", .str "a"),
    ("remark", .null), ("sourceId", .null), ("takenAt", .str "2024-01-02T03:04:05.000Z"),
    ("weight", .float (.ofInt 2))]
  relationships := []

/-- The payload of the request. -/
def samplingPayload : Payload where
  resourceType := "Sample"
  attributes := [("count", .int 3), ("dried", .bool true), ("label", .str "a"),
    ("takenAt", .str "2024-01-02T03:04:05.000Z"), ("weight", .float (.ofInt 2))]

/-- The session after the request. -/
def afterSampling : Session :=
  (Session.run (fun _ => "") (Engine.create samples sample samplingPayload).run samples.unused).2

/-- The first sample is read back as it was given: its whole weight as a floating point number, its
count as an integer, and nothing for the remark that was left out. -/
theorem sampling_reads_back : Registry.assemble [sample] = .ok samples ∧ sample.Addressable ∧
    sampling.attributes.keys.Nodup ∧ (∀ member ∈ sampling.attributes, member.2.IsRanged) ∧
    ∃ serving, samples.service.dispatch sampling = some serving ∧
      Session.run (fun _ => "") serving.run samples.unused =
        (.ok (.ok (.created firstSample)), afterSampling) ∧
      ∃ row, (∀ supply, (Session.run supply (Engine.findOne .store sample (.int 1)
          (Plan.forId sample (.int 1))).run afterSampling).1 = .ok (.ok row)) ∧
        row.get? sample.idField = some (.int 1) ∧ sample.ShowsGiven sampling.attributes row ∧
        ∀ field ∈ sample.allFields, firstSample.attributes.get? field = row.get? field := by
  have h : Registry.assemble [sample] = .ok samples.service.registry := by decide +kernel
  have hn : (samples.service.registry.tables.map (·.name)).Nodup := by decide +kernel
  have hreachable : Session.Reachable samples.service.registry samples.unused :=
    .start (Registry.start_unused (by decide +kernel))
  have hroute : samples.service.route? sampling = some (.create sample) := by decide +kernel
  have hdispatch := dispatch_of_route hroute
  have hpayload : Payload.ofDocument samples sample .create (sampling.body.getD .null) =
      .ok samplingPayload := by decide +kernel
  have hcreate : Session.run (fun _ => "")
      (Engine.create samples sample samplingPayload).run samples.unused =
        (.ok (.ok firstSample), afterSampling) := Prod.ext (by decide +kernel) rfl
  have hrun : Session.run (fun _ => "") (serve samples sampling.query (sampling.body.getD .null)
      (.create sample)).run samples.unused = (.ok (.ok (.created firstSample)), afterSampling) :=
    answers_created_iff.2 ⟨samplingPayload, hpayload, hcreate⟩
  have hk : sample.Addressable := by decide
  have hnames : sampling.attributes.keys.Nodup := by decide +kernel
  have hranged : ∀ member ∈ sampling.attributes, member.2.IsRanged := by decide +kernel
  have hunlinked : sampling.relationships = [] := by decide +kernel
  have hread :=
    created_reads_back h hn hreachable hroute hk hnames hranged hunlinked hdispatch hrun
  exact ⟨h, hk, hnames, hranged, _, hdispatch, hrun, hread⟩

/-- A request for a note whose primary key has a dotted name. -/
def noting : Request where
  method := .post
  path := "/api/notes"
  query := ""
  body := some (.obj [("data", .obj [("attributes", .obj [("text", .str "w")]),
    ("type", .str "Note")])])

/-- The session after the request. -/
def afterNoting : Session :=
  (Session.run (fun _ => "") (Engine.create dottedNotes dottedNote
    ⟨"Note", none, [("text", .str "w")], []⟩).run dottedNotes.unused).2

/-- **A created row may not be found.** The name of its primary key is split at its dot, so that the
find of the row is not expressed. -/
theorem created_may_not_be_found : Registry.assemble [dottedNote] = .ok dottedNotes ∧
    (dottedNotes.tables.map (·.name)).Nodup ∧
    Session.Reachable dottedNotes dottedNotes.unused ∧
    ∃ serving record, dottedNotes.service.dispatch noting = some serving ∧
      Session.run (fun _ => "") serving.run dottedNotes.unused =
        (.ok (.ok (.created record)), afterNoting) ∧
      (Session.run (fun _ => "") (Engine.findOne .store dottedNote record.id
        (Plan.forId dottedNote record.id)).run afterNoting).1 =
          .ok (.error (.ofInternal
            "unable to execute plan: 'Note' has no relationship 'a'")) := by
  have hroute : dottedNotes.service.route? noting = some (.create dottedNote) := by decide +kernel
  have hpayload : Payload.ofDocument dottedNotes dottedNote .create (noting.body.getD .null) =
      .ok ⟨"Note", none, [("text", .str "w")], []⟩ := by decide +kernel
  have hcreate : Session.run (fun _ => "") (Engine.create dottedNotes dottedNote
      ⟨"Note", none, [("text", .str "w")], []⟩).run dottedNotes.unused =
        (.ok (.ok ⟨.int 1, [("a.b", .int 1), ("text", .str "w")], []⟩), afterNoting) :=
    Prod.ext (by decide +kernel) rfl
  have hdispatch := dispatch_of_route hroute
  refine ⟨assemble_dottedNote, by decide +kernel, .start (Registry.start_unused (by decide +kernel)),
    _, _, hdispatch, answers_created_iff.2 ⟨_, hpayload, hcreate⟩, ?_⟩
  decide +kernel

end Service

end ResourceApi
