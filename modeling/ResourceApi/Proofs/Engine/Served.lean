import ResourceApi.Proofs.Sql.References
import ResourceApi.Service.Dispatch

/-!
# Served requests

A session is *served* when it comes from a database with the registry's empty tables by serving
requests, one after the other, whatever they ask for and whether they succeed or not
(`Service.Served`). Every served session is reachable.

**Theorem (`Service.keys_lead_to_rows`).** In a served session, every key that the database derived
leads to a row of the schema that the *first* association in need of its column assigns to it. Both
keys of a join row lead to rows at the ends of the first association that is stored in its table. A
key that is also a declared attribute is a value like any other.
-/

namespace ResourceApi

/-! ## Serving requests -/

/-- The document names no relationship twice, as no JSON object has two members of one name. -/
def Request.NamesRelationshipsOnce (request : Request) : Prop :=
  ((((request.body.getD .null).getD "data").getD "relationships").asObject?.getD []).keys.Nodup

instance (request : Request) : Decidable request.NamesRelationshipsOnce :=
  inferInstanceAs (Decidable (List.Nodup _))

namespace Service

/-- The session comes from one with empty tables by serving requests. -/
inductive Served (service : Service) : Session → Prop
  | start {s : Session} : Session.start service.registry = .ok s → Served service s
  | serve {s : Session} {request : Request} {serving : Serving Outcome} (supply : Nat → String) :
      Served service s → request.NamesRelationshipsOnce →
      service.dispatch request = some serving →
      Served service (Session.run supply serving.run s).2

variable {service : Service} {s : Session}

theorem Served.reachable (h : Served service s) : Session.Reachable service.registry s := by
  induction h with
  | start h => exact .start h
  | serve supply _ _ _ ih => exact .run supply _ ih

/-- The session after a request was served. -/
def next (service : Service) (supply : Nat → String) (s : Session) (request : Request) : Session :=
  match service.dispatch request with
  | some serving => (Session.run supply serving.run s).2
  | none => s

theorem Served.next (h : Served service s) {request : Request} (hr : request.NamesRelationshipsOnce)
    (supply : Nat → String) : Served service (service.next supply s request) := by
  unfold Service.next
  split
  · rename_i serving hd
    exact .serve supply h hr hd
  · exact h

end Service

/-! ## Keys -/

/-- The keys that store the association are null or lead to rows at its ends. -/
structure Association.KeysLead (a : Association) (db : Database) : Prop where
  own : ∀ owner field other, a.KeyOn owner field other → ∀ row ∈ db.rows owner.tableName,
    row.get (columnName field) ≠ .null → db.IsKeyOf other (row.get (columnName field))
  join : ∀ join, a.kind = .hasManyThrough join → ∀ row ∈ db.rows join.table,
    (row.get (columnName join.sourceKey) ≠ .null →
      db.IsKeyOf a.source (row.get (columnName join.sourceKey))) ∧
    (row.get (columnName join.targetKey) ≠ .null →
      db.IsKeyOf a.target (row.get (columnName join.targetKey)))

namespace Service

variable {schemas : List Schema} {service : Service} {s : Session}

/-- **Keys lead to rows.** -/
theorem keys_lead_to_rows (h : Registry.assemble schemas = .ok service.registry)
    (hn : (service.registry.tables.map (·.name)).Nodup) (hs : service.Served s) :
    (∀ a ∈ service.registry.associations, ∀ owner field other, a.KeyOn owner field other →
      owner.hasField field = false →
      ∃ first assigned, service.registry.associations.find? (·.needs owner field) = some first ∧
        first.KeyOn owner field assigned ∧
        ∀ row ∈ s.database.rows owner.tableName, row.get (columnName field) ≠ .null →
          s.database.IsKeyOf assigned (row.get (columnName field))) ∧
    ∀ a ∈ service.registry.associations, ∀ join, a.kind = .hasManyThrough join →
      ∃ first made,
        service.registry.associations.find? (·.isStoredIn join.table) = some first ∧
        first.kind = .hasManyThrough made ∧ made.table = join.table ∧
        ∀ row ∈ s.database.rows join.table,
          s.database.IsKeyOf first.source (row.get (columnName made.sourceKey)) ∧
          s.database.IsKeyOf first.target (row.get (columnName made.targetKey)) := by
  obtain ⟨hc, hsound⟩ := Session.sound_of_reachable h hn hs.reachable
  have hp := (Session.proper_of_reachable hn hs.reachable).database
  have hcoherent := Registry.coherent_of_assemble h
  constructor
  · intro a ha owner field other hon hf
    obtain ⟨first, k, hfind, hfirst, hkey⟩ := Registry.exists_first_of_keyOn h ha hon hf
    obtain ⟨hk, rfl⟩ := Registry.mem_foreignKeysOf hkey
    have hrefers := Registry.refers_of_foreignKey (hcoherent.mem_of_keyOn ha hon) hk
    have hreferences := Registry.references_mem h (List.mem_filter.1 hk).1
    exact ⟨first, k.references, hfind, hfirst, fun row hrow hne =>
      Database.isKeyOf_of_refers hc hsound.database hp hreferences hrefers hrow hne⟩
  · intro a ha join hkind
    have hstored : a.isStoredIn join.table = true := by
      simp [Association.isStoredIn, Association.join?_eq_some.2 hkind]
    obtain ⟨first, made, hfind, hfirst, htable, hfilter⟩ :=
      Registry.exists_first_of_isStoredIn h ha hstored
    have hj : (first, made) ∈ service.registry.joinAssociations :=
      (List.mem_filter.1 (hfilter ▸ List.mem_singleton_self _)).1
    refine ⟨first, made, hfind, hfirst, htable, ?_⟩
    rw [← htable]
    intro row hrow
    have hfirst := (Registry.mem_joinAssociations hj).1
    obtain ⟨hsource, htarget⟩ := Registry.refers_of_joinTable hj
    obtain ⟨hne, hne'⟩ := Database.joinRow_ne_null hc hsound.database hj hrow
    exact ⟨Database.isKeyOf_of_refers hc hsound.database hp (hcoherent.source first hfirst) hsource
        hrow hne,
      Database.isKeyOf_of_refers hc hsound.database hp (hcoherent.target first hfirst) htarget
        hrow hne'⟩

end Service

/-! ## Stray keys -/

/-- The service of a registry under the usual prefix. -/
def Registry.service (r : Registry) : Service := ⟨r, "/api"⟩

/-- A session with the empty tables of a registry. -/
def Registry.unused (r : Registry) : Session where
  registry := r
  database := (Database.empty.createAll r.tables).toOption.getD .empty

theorem Registry.start_unused {r : Registry}
    (h : (Database.empty.createAll r.tables).toOption.isSome) : Session.start r = .ok r.unused := by
  unfold Session.start Registry.unused
  cases hdb : Database.empty.createAll r.tables with
  | ok db => rfl
  | error v =>
    rw [hdb] at h
    cases h

/-- A document of a type. -/
def document (type : String) (attributes relationships : Object) : Json :=
  .obj [("data", .obj [("attributes", .obj attributes), ("relationships", .obj relationships),
    ("type", .str type)])]

/-- A request to create what a document describes. -/
def posting (path type : String) (attributes relationships : Object) : Request :=
  ⟨.post, path, "", some (document type attributes relationships)⟩

/-- Linkage to one new row without attributes. -/
def linkedToNew : Json := .obj [("data", .arr [.obj [("attributes", .obj [])]])]

/-- The other users, as their todos know them. -/
def adminTodos : Association := ⟨"todos", adminUser, todo, .hasMany "userId"⟩

/-- An administrator who has something to do. -/
def postAdmin : Request := posting "/api/admin/users" "Admin_User" [] [("todos", linkedToNew)]

/-- The session after the administrator was created. -/
def busyAdmin : Session := duties.service.next (fun _ => "a") duties.unused postAdmin

theorem served_busyAdmin : duties.service.Served busyAdmin :=
  (Service.Served.start (Registry.start_unused (by decide +kernel))).next (by decide +kernel) _

namespace Service

/-- The todo leads to the administrator, who was registered first. -/
theorem todo_leads_to_admin :
    Registry.assemble [todo, adminUser, user] = .ok duties ∧
      (duties.tables.map (·.name)).Nodup ∧ duties.service.Served busyAdmin ∧
      busyAdmin.database.rows "todo" = [[("id", .text "a"), ("user_id", .text "a")]] ∧
      busyAdmin.database.IsKeyOf adminUser (.text "a") := by
  have hn : (duties.tables.map (·.name)).Nodup := by decide +kernel
  have hrows : busyAdmin.database.rows "todo" = [[("id", .text "a"), ("user_id", .text "a")]] := by
    decide +kernel
  refine ⟨Registry.assemble_duties, hn, served_busyAdmin, hrows, ?_⟩
  obtain ⟨first, assigned, hfind, hon, hlead⟩ :=
    (keys_lead_to_rows Registry.assemble_duties hn served_busyAdmin).1 userTodos (by decide) todo
      "userId" user (.hasMany rfl) (by decide)
  have hfirst : duties.associations.find? (·.needs todo "userId") = some adminTodos := by
    decide +kernel
  obtain rfl : adminTodos = first := Option.some.inj (hfirst.symm.trans hfind)
  have hadmin : adminTodos.KeyOn todo "userId" adminUser := .hasMany rfl
  cases hadmin.unique hon
  exact hlead [("id", .text "a"), ("user_id", .text "a")]
    (show _ ∈ busyAdmin.database.rows "todo" from hrows ▸ List.mem_singleton_self _)
    (by decide +kernel)

end Service

/-- Owners. -/
def owner : Schema where
  name := "Owner"
  idType := .integer

/-- Errands, which declare the key of their owner as an attribute. -/
def errand : Schema where
  name := "Errand"
  idType := .integer
  attributes := [{ name := "ownerId", type := .integer }]
  relationships := [("owner", .belongsTo "Owner" none)]

/-- The owner of an errand. -/
def errandOwner : Association := ⟨"owner", errand, owner, .belongsTo "ownerId"⟩

/-- Owners and their errands. -/
def errands : Registry := ⟨[owner, errand], [errandOwner], []⟩

/-- An errand of an owner who is not there. -/
def postErrand : Request := posting "/api/errands" "Errand" [("ownerId", .int 7)] []

/-- Errands without a declared key, in a table of the same name. -/
def plainErrand : Schema where
  name := "errand"
  idType := .integer

/-- Owners of errands without a declared key. -/
def plainOwner : Schema := { owner with relationships := [("errands", .hasMany "errand" none)] }

/-- The errands of such an owner. -/
def plainErrands : Association := ⟨"errands", plainOwner, plainErrand, .hasMany "ownerId"⟩

/-- Both kinds of errands. -/
def mixedErrands : Registry where
  schemas := [plainOwner, errand, plainErrand]
  associations := [plainErrands, ⟨"owner", errand, plainOwner, .belongsTo "ownerId"⟩]
  foreignKeys := [⟨"errand", "ownerId", plainOwner⟩]

/-- Posts, which have labels. -/
def labelledPost : Schema where
  name := "Post"
  relationships := [("tags",
    .hasManyThrough "Tag" (some "Labels") (some "itemId") (some "tagId"))]

/-- Photos, which have labels of the same table. -/
def labelledPhoto : Schema := { labelledPost with name := "Photo" }

/-- The join table of labels. -/
def labels : JoinTable := ⟨"Labels", "labels", "itemId", "tagId"⟩

/-- The labels of a photo. -/
def labelledPhotoTags : Association := ⟨"tags", labelledPhoto, tag, .hasManyThrough labels⟩

/-- Posts and photos, labelled in one table. -/
def labelledItems : Registry where
  schemas := [tag, labelledPost, labelledPhoto]
  associations := [⟨"tags", labelledPost, tag, .hasManyThrough labels⟩, labelledPhotoTags]
  foreignKeys := []

/-- A post with a label. -/
def postPost : Request := posting "/api/posts" "Post" [] [("tags", linkedToNew)]

/-- The session after the post was created. -/
def postedPost : Session :=
  labelledItems.service.next (fun _ => "a") labelledItems.unused postPost

/-- One request can leave a key of the association that leads nowhere. -/
def Association.Strays (a : Association) (schemas : List Schema) (r : Registry) : Prop :=
  Registry.assemble schemas = .ok r ∧ a ∈ r.associations ∧
    ∃ s, r.service.Served s ∧ ¬ a.KeysLead s.database

namespace Service

theorem strays_of_own {a : Association} {schemas : List Schema} {r : Registry} {o other : Schema}
    {field : String} (request : Request) (h : Registry.assemble schemas = .ok r)
    (ha : a ∈ r.associations) (hstart : (Database.empty.createAll r.tables).toOption.isSome)
    (hr : request.NamesRelationshipsOnce) (hon : a.KeyOn o field other)
    (hstray : ∃ row ∈ (r.service.next (fun _ => "a") r.unused request).database.rows o.tableName,
      row.get (columnName field) ≠ .null ∧
        ((r.service.next (fun _ => "a") r.unused request).database.rows other.tableName).all
          (fun target => !(target.get other.idColumn).equals (row.get (columnName field)))) :
    a.Strays schemas r := by
  refine ⟨h, ha, _, (Served.start (Registry.start_unused hstart)).next hr (fun _ => "a"),
    fun hlead => ?_⟩
  obtain ⟨row, hrow, hne, hall⟩ := hstray
  obtain ⟨target, htarget, hequals⟩ := hlead.own o field other hon row hrow hne
  simpa [hequals] using List.all_eq_true.1 hall target htarget

/-- **Keys may stray.** A declared key holds whatever it is given; a key of todos leads to the users
who were registered first; a table that is not created a second time lacks the second schema's key;
and labels lead to posts, not to photos. -/
theorem keys_may_stray :
    errandOwner.Strays [owner, errand] errands ∧
      userTodos.Strays [todo, adminUser, user] duties ∧
      plainErrands.Strays [plainOwner, errand, plainErrand] mixedErrands ∧
      labelledPhotoTags.Strays [tag, labelledPost, labelledPhoto] labelledItems := by
  refine ⟨?_, ?_, ?_, ?_⟩
  · exact strays_of_own postErrand (by decide +kernel) (by decide)
      (by decide +kernel) (by decide +kernel) (.belongsTo rfl) (by decide +kernel)
  · exact strays_of_own postAdmin Registry.assemble_duties (by decide)
      (by decide +kernel) (by decide +kernel) (.hasMany rfl) (by decide +kernel)
  · exact strays_of_own postErrand (by decide +kernel) (by decide)
      (by decide +kernel) (by decide +kernel) (.hasMany rfl) (by decide +kernel)
  · have hserved : labelledItems.service.Served postedPost :=
      (Served.start (Registry.start_unused (by decide +kernel))).next (by decide +kernel) _
    refine ⟨by decide +kernel, by decide, postedPost, hserved, fun hlead => ?_⟩
    have hrow : [("item_id", .text "a"), ("tag_id", .text "a")] ∈
        postedPost.database.rows "labels" := by decide +kernel
    obtain ⟨photo, hphoto, -⟩ := (hlead.join labels rfl _ hrow).1 (by decide +kernel)
    have hnone : postedPost.database.rows labelledPhotoTags.source.tableName = [] := by
      decide +kernel
    rw [hnone] at hphoto
    cases hphoto

end Service

end ResourceApi
