import ResourceApi.Proofs.Engine.ReadBack
import ResourceApi.Proofs.Engine.Redone

/-!
# Requests for updates that are repeated

**Theorem (`Service.updates_repeat`).** After a request was answered with an updated record, the
same request is answered with the same record, and leaves the database as it is. It may set
attributes and write links of every kind, also to the updated row itself. The rows that it links are
there before it, and each association has a place of its own, apart from keys of rows
(`Request.Repeatable`).

What is asked of a request carries over to its payload (`Request.Repeatable.payload`), and from
there to the parts of the update, which can be done again (`Engine.UpdatesWith.again`). Where it is
not met, requests may not repeat (`Service.updates_may_not_repeat`).
-/

namespace ResourceApi

variable {schemas : List Schema} {r : Registry} {schema : Schema} {a : Association} {link : Link}
  {id : Json}

/-! ## Payloads -/

/-- The derived key that the association is stored in. -/
def Association.derivedKey? (a : Association) : Option String :=
  match a.kind with
  | .hasOne key | .hasMany key => some key
  | .belongsTo _ | .hasManyThrough _ => none

theorem Association.derivedKey?_eq_some_iff {key : String} :
    a.derivedKey? = some key ↔ a.HasKey key := by
  unfold derivedKey? HasKey
  cases a.kind <;> simp

/-- The links of the association can be written again beside the fields: they are no primary keys,
and none of the fields is kept in their column and identifies rows. -/
def Association.RepeatsBeside (a : Association) (schema : Schema) (fields : List String) : Prop :=
  ∀ key ∈ a.derivedKey?, columnName key ≠ a.target.idColumn ∧
    (a.target = schema → ∀ b ∈ schema.attributes, b.name ∈ fields →
      columnName b.name = columnName key → b.unique = false)

instance (a : Association) (schema : Schema) (fields : List String) :
    Decidable (a.RepeatsBeside schema fields) :=
  inferInstanceAs (Decidable (∀ key ∈ a.derivedKey?, _ ∧ _))

theorem Association.exists_hasKey_of_place {table column : String}
    (hk : ∀ key, a.kind ≠ .belongsTo key) (h : a.place = (table, some column)) :
    ∃ key, a.HasKey key ∧ a.target.tableName = table ∧ columnName key = column := by
  unfold place at h
  split at h
  · rename_i key hkind
    exact absurd hkind (hk key)
  · rename_i key hkind
    obtain ⟨htable, hcolumn⟩ := Prod.mk.inj h
    exact ⟨key, .inl hkind, htable, Option.some.inj hcolumn⟩
  · rename_i key hkind
    obtain ⟨htable, hcolumn⟩ := Prod.mk.inj h
    exact ⟨key, .inr hkind, htable, Option.some.inj hcolumn⟩
  · cases h

/-- The payload links rows that exist, and the links of each association are written to a place of
their own. -/
structure Payload.Repeatable (r : Registry) (schema : Schema) (payload : Payload) : Prop where
  links : ∀ name link, (name, link) ∈ payload.relationships → link.NamesRows
  places : ((payload.associations r schema).map (·.place)).Nodup
  keys : ∀ a ∈ payload.associations r schema, a.RepeatsBeside schema payload.attributes.keys

namespace Payload.Repeatable

variable {payload : Payload} {parts : Parts} (hp : payload.Repeatable r schema)
  (hparts : Engine.parts r schema payload = .ok parts)
include hp hparts

theorem namesRows : ∀ x ∈ parts.links, x.2.NamesRows := by
  intro x hx
  obtain ⟨-, -, name, -, hm⟩ := (Parts.sorts_of_parts hparts).2.of_mem_links x.1 x.2 hx
  exact hp.links name x.2 hm

theorem nodup_places : (parts.associations.map (·.place)).Nodup := by
  have hperm : (payload.associations r schema).Perm parts.associations :=
    (Parts.sorts_of_parts hparts).2.perm
  exact (hperm.map _).nodup_iff.1 hp.places

theorem rewritable : ∀ x ∈ parts.linked, x.1.Rewritable r := by
  obtain ⟨-, hsorts⟩ := Parts.sorts_of_parts hparts
  refine List.forall_mem_map.2 fun x hx => ?_
  obtain ⟨hkind, -, name, hfound, hm⟩ := hsorts.of_mem_links x.1 x.2 hx
  have ha : x.1 ∈ payload.associations r schema := List.mem_filterMap.2 ⟨_, hm, hfound⟩
  exact ⟨(Registry.mem_of_association? hfound).1, hkind, fun key hk =>
    (hp.keys x.1 ha key (Association.derivedKey?_eq_some_iff.2 hk)).1⟩

/-- What is set in the row is kept apart from its links, or may be the same in several rows. -/
theorem repeats (h : Registry.assemble schemas = .ok r) (hc : r.Creatable) (hs : schema ∈ r.schemas)
    (hd : schema.Declares payload.attributes) : ∀ field ∈ parts.row.keys,
      (schema.tableName, some (columnName field)) ∈ parts.linked.map (·.1.place) →
        schema.Repeats (columnName field) := by
  obtain ⟨hattributes, hsorts⟩ := Parts.sorts_of_parts hparts
  have hcoherent := Registry.coherent_of_assemble h
  intro field hfield hplace
  obtain ⟨x, hx, hplace⟩ := List.mem_map.1 hplace
  obtain ⟨⟨a, link⟩, hlink, rfl⟩ := List.mem_map.1 hx
  obtain ⟨hkind, -, name, hfound, hm⟩ := hsorts.of_mem_links a link hlink
  obtain ⟨m, hmember, rfl⟩ := List.mem_map.1 hfield
  rcases Object.mem_insertAll hmember with hmember | hmember
  · obtain ⟨key, hk, htable, hcolumn⟩ := Association.exists_hasKey_of_place hkind hplace
    have ha : a ∈ payload.associations r schema := List.mem_filterMap.2 ⟨_, hm, hfound⟩
    have htarget := hc.eq_of_tableName hs (hcoherent.of_association? hs hfound).2 htable
    have hgiven : m.1 ∈ payload.attributes.keys := hattributes ▸ List.mem_map_of_mem hmember
    obtain ⟨b, hb, hname⟩ := List.mem_map.1 (hd.names hgiven)
    rw [← hname] at hgiven hcolumn ⊢
    have hrepeats := hp.keys a ha key (Association.derivedKey?_eq_some_iff.2 hk)
    exact ⟨b, hb, rfl, hrepeats.2 htarget b hb hgiven hcolumn.symm⟩
  · -- a key of the row itself has a place of its own
    obtain ⟨key, hkey, rfl⟩ := List.mem_map.1 hmember
    obtain ⟨hbelongs, name, hnamed⟩ := hsorts.of_mem_keys key hkey
    have hsame : key.association.place = a.place := by
      rw [hplace, Association.place, hbelongs, (hcoherent.of_association? hs hnamed).1]
    have hnodup := hp.nodup_places hparts
    rw [Parts.associations, List.map_append, List.map_map, List.map_map,
      List.nodup_append] at hnodup
    exact absurd hsame (hnodup.2.2 _ (List.mem_map_of_mem hkey) _ (List.mem_map_of_mem hlink))

end Payload.Repeatable

namespace Engine

open Action Session

section

variable {payload : Payload} {record : Record} {s s' : Session} (supply' : Nat → String)
  (h : Registry.assemble schemas = .ok r) (hc : r.Creatable) (hs : schema ∈ r.schemas)
  (hk : schema.Addressable) (hd : schema.Declares payload.attributes)
  (hbefore : s.database.Intact r) (hafter : s'.database.Intact r)
  (hregistry : s.registry = r) (hregistry' : s'.registry = r) (hidle : s'.saved = none)
  (hrun : run supply (update r schema id payload).run s = (.ok (.ok record), s'))
include h hc hs hk hd hbefore hafter hregistry hregistry' hidle hrun

/-- An update with linkage can be run again in the session that it has left. -/
theorem ends_update_of_linked (hholds : s.Holds (Database.Regular r))
    (hp : payload.Repeatable r schema) (hlinked : payload.relationships ≠ []) :
    Ends supply' (update r schema id payload) s' (.ok record) s'.database := by
  have hl := Registry.tablesLinked h hc
  have ht : Takes r (update r schema id payload) s.database record s'.database :=
    ⟨_, s, s', hregistry, hholds, hrun, rfl, rfl⟩
  have hchecks := ht
  unfold update at hchecks
  obtain ⟨⟨⟩, _, hid, hrest⟩ := hchecks.of_bind hl
  obtain ⟨parts, _, hparts, -⟩ := hrest.of_bind hl
  have hparts := hparts.of_liftM.1
  rw [update_eq_inTransaction r schema id payload hid.of_liftM.1 hparts hlinked] at ht ⊢
  have hnames := hp.namesRows hparts
  have htargets := target_mem_of_parts h hs hparts
  have hplaces : (parts.linked.map (·.1.place)).Nodup := by
    have hall := hp.nodup_places hparts
    rw [Parts.associations, List.map_append, List.nodup_append] at hall
    simpa [Parts.linked, Function.comp_def] using hall.2.1
  obtain ⟨hupdates, hrecord⟩ := updatesWith_of_takes hl hnames (ht.of_inTransaction hl)
  have hagain := hupdates.again h hc hs hk hbefore hafter
    (fun key hkey => htargets _ (List.mem_append_left _ (List.mem_map_of_mem hkey)))
    (hp.rewritable hparts) hplaces (hp.repeats hparts h hc hs hd)
  have hends : Ends supply' (Action.inTransaction (updateWith r .transaction schema id parts)) s'
      (.ok record) (settled (.ok record) s'.database s'.database) := by
    refine ends_inTransaction hidle fun s₁ _ hs₁ => ?_
    rw [hregistry'] at hs₁
    rw [hrecord]
    exact hagain.ends hs₁ hnames
  exact hends

/-- An update without linkage can be run again in the session that it has left. -/
theorem ends_update_of_unlinked (hunlinked : payload.relationships = []) :
    Ends supply' (update r schema id payload) s' (.ok record) s'.database := by
  rw [update_of_unlinked hunlinked] at hrun ⊢
  cases hid : checkPayloadId schema id payload with
  | error e =>
    rw [hid] at hrun
    exact absurd hrun not_run_throw
  | ok checked =>
    rw [hid] at hrun
    change run supply (Action.perform .store _ >>= _ : Action Record).run s = _ at hrun
    obtain ⟨n, mid, hperform, -⟩ := Action.exists_of_run_bind hrun
    obtain ⟨result, db, hupdates⟩ := exists_updatesTo h hc hs hk hd hbefore.regular.sound id
    have hends : Ends supply _ s result db :=
      hupdates.ends_direct hregistry (of_run_perform hperform).1
    obtain ⟨hresult, hdatabase, -⟩ := hends
    rw [hrun] at hresult hdatabase
    obtain rfl := Except.ok.inj hresult
    obtain rfl := hdatabase
    exact (hupdates.again h hc hs hk hd hbefore hafter).ends_direct hregistry' fun _ => hidle

end

end Engine

/-! ## Requests -/

/-- Whether the element of linkage names a row by its identifier. -/
def Json.namesRow : Json → Bool
  | .obj members => !((Object.get? "id" members).getD .null).isNull
  | _ => false

/-- Whether the linkage leads to rows that it names: to one or to several, or to none. -/
def Json.namesRows : Json → Bool
  | .null => true
  | .arr elements => elements.all namesRow
  | element => element.namesRow

namespace Document

variable {path : List String} {element linkage : Json} {target : Schema} {found : LinkTarget}
  {given : Object}

theorem exists_byId_of_readTarget {belongsTo : Bool} (hn : element.namesRow = true)
    (h : (readTarget target belongsTo path element).1 = some found) : ∃ id, found = .byId id := by
  unfold readTarget at h
  split at h
  · extract_lets wrongType at h
    split at h
    · cases h
    · split at h
      · rename_i hnull
        rw [Json.namesRow, hnull] at hn
        cases hn
      · split at h
        · exact ⟨_, (Option.some.inj h).symm⟩
        · cases h
  · cases h

theorem namesRows_of_readLink (hn : linkage.namesRows = true)
    (h : (readLink a linkage).1 = some link) : link.NamesRows := by
  unfold readLink at h
  dsimp only at h
  split at h
  · cases h
    exact List.forall_mem_nil _
  · cases h
    intro target htarget
    obtain ⟨read, hread, he⟩ := List.mem_filterMap.1 htarget
    obtain ⟨⟨element, i⟩, hm, rfl⟩ := List.mem_map.1 hread
    exact exists_byId_of_readTarget
      (List.all_eq_true.1 hn element (List.fst_mem_of_mem_zipIdx hm)) he
  · rename_i hnull harr
    obtain ⟨t, ht, rfl⟩ := Option.map_eq_some_iff.1 h
    have hone : linkage.namesRow = true := by
      cases linkage with
      | null => exact absurd rfl hnull
      | arr elements => exact absurd rfl (harr elements)
      | _ => exact hn
    intro target htarget
    obtain rfl : target = t := by simpa [Link.targets] using htarget
    exact exists_byId_of_readTarget hone ht

/-- An update sets no other attributes than those that are given. -/
theorem subset_keys_coerceAttributes :
    (coerceAttributes schema .update path given).1.keys ⊆ given.keys := by
  intro name hname
  have hm := Object.mem_keys_ofList hname
  rw [List.map_append, List.mem_append] at hm
  rcases hm with hm | hm
  · obtain ⟨result, hresult, rfl⟩ := List.mem_map.1 hm
    obtain ⟨member, hmember, hcoerced⟩ := List.mem_map.1 (mem_sortOut_iff.1 hresult)
    rw [name_of_coerceMember hcoerced]
    exact List.mem_map_of_mem hmember
  · cases hm

end Document

/-- The associations of the relationships that the document of a request gives. -/
def Request.associations (r : Registry) (schema : Schema) (request : Request) : List Association :=
  request.relationships.filterMap fun member => r.association? schema member.1

/-- The request links rows that it names, and the links of each association are written to a place
of their own. -/
structure Request.LinksApart (r : Registry) (schema : Schema) (request : Request) : Prop where
  links : ∀ member ∈ request.relationships, (member.2.getD "data").namesRows = true
  places : ((request.associations r schema).map (·.place)).Nodup

/-- The request links rows apart, and its links can be written again beside its attributes. -/
structure Request.Repeatable (r : Registry) (schema : Schema) (request : Request) : Prop
    extends request.LinksApart r schema where
  keys : ∀ a ∈ request.associations r schema, a.RepeatsBeside schema request.attributes.keys

theorem Request.Repeatable.payload {request : Request} {payload : Payload}
    (hrequest : request.Repeatable r schema)
    (h : Payload.ofDocument r schema .update (request.body.getD .null) = .ok payload) :
    payload.Repeatable r schema := by
  have hattributes : payload.attributes.keys ⊆ request.attributes.keys := by
    have hcoerced : (Document.coerceAttributes schema .update ["data", "attributes"]
        request.attributes).1 = payload.attributes :=
      congrArg Prod.fst (Payload.coerced_of_ofDocument h)
    rw [← hcoerced]
    exact Document.subset_keys_coerceAttributes
  have hsublist : (payload.associations r schema).Sublist (request.associations r schema) := by
    have hpayload : payload.associations r schema =
        (payload.relationships.map (·.1)).filterMap (r.association? schema) := by
      rw [List.filterMap_map]
      rfl
    have hgiven : request.associations r schema =
        request.relationships.keys.filterMap (r.association? schema) := by
      rw [Object.keys, List.filterMap_map]
      rfl
    rw [hpayload, hgiven, Payload.eq_of_ofDocument h]
    exact (Document.sublist_readRelationship request.relationships).filterMap _
  refine ⟨fun name link hm => ?_, hrequest.places.sublist (hsublist.map _), fun a ha key hk => ?_⟩
  · rw [Payload.eq_of_ofDocument h] at hm
    obtain ⟨_, hread, he⟩ := List.mem_filterMap.1 hm
    obtain ⟨member, hmember, rfl⟩ := List.mem_map.1 hread
    obtain ⟨-, a, -, hlink⟩ := Document.readRelationship_eq_some he
    exact Document.namesRows_of_readLink (hrequest.links member hmember) hlink
  · obtain ⟨hne, hunique⟩ := hrequest.keys a (hsublist.subset ha) key hk
    exact ⟨hne, fun ht b hb hname => hunique ht b hb (hattributes hname)⟩

/-- A session with rows that were created one after another. -/
def Registry.holding (r : Registry) (rows : List (Schema × Payload)) : Session :=
  rows.foldl (fun s row =>
    (Session.run (fun _ => "") (Engine.create r row.1 row.2).run s).2) r.unused

theorem Registry.reachable_holding (h : (Database.empty.createAll r.tables).toOption.isSome)
    (rows : List (Schema × Payload)) : Session.Reachable r (r.holding rows) :=
  List.foldlRecOn rows _ (.start (Registry.start_unused h)) fun _ hs _ _ => hs.run _ _

namespace Service

open Session

variable {service : Service} {request : Request} {serving : Serving Outcome} {record : Record}
  {raw : String} {supply : Nat → String} {s s' : Session}

/-- **Updates repeat.** Once more, the request is answered with the same record, and changes
nothing. -/
theorem updates_repeat (h : Registry.assemble schemas = .ok service.registry)
    (hn : (service.registry.tables.map (·.name)).Nodup)
    (hreachable : Session.Reachable service.registry s)
    (hroute : service.route? request = some (.update schema raw)) (hk : schema.Addressable)
    (hrepeatable : request.Repeatable service.registry schema)
    (hdispatch : service.dispatch request = some serving)
    (hrun : Session.run supply serving.run s = (.ok (.ok (.updated record)), s')) :
    ∀ supply, ∃ s'', Session.run supply serving.run s' = (.ok (.ok (.updated record)), s'') ∧
      s''.database = s'.database := by
  intro supply'
  have hs : schema ∈ service.registry.schemas := Route.schema_mem_of_resolve? hroute
  rw [dispatch_of_route hroute] at hdispatch
  obtain rfl := Option.some.inj hdispatch
  obtain ⟨id, payload, hid, hpayload, hupdate⟩ := answers_updated_iff.1 hrun
  have hafter : Session.Reachable service.registry s' := by
    have hnext := hreachable.run supply (Engine.update service.registry schema id payload).run
    rwa [hupdate] at hnext
  have hends : Ends supply' (Engine.update service.registry schema id payload) s' (.ok record)
      s'.database := by
    obtain ⟨hc, hholds⟩ := Session.regular_of_reachable h hn hreachable
    obtain ⟨-, hholds'⟩ := Session.regular_of_reachable h hn hafter
    have hregistry := (sound_of_reachable h hn hreachable).2.registry
    have hregistry' := (sound_of_reachable h hn hafter).2.registry
    have hbefore : s.database.Intact service.registry :=
      ⟨hholds.database, enumerated_of_reachable h hn hreachable⟩
    have hdone : s'.database.Intact service.registry :=
      ⟨hholds'.database, enumerated_of_reachable h hn hafter⟩
    have hidle : s'.saved = none := (Engine.found_of_run_update hupdate).1 rfl
    have hd := Payload.attributes_of_ofDocument hpayload
    by_cases hr : payload.relationships = []
    · exact Engine.ends_update_of_unlinked supply' h hc hs hk hd hbefore hdone hregistry hregistry'
        hidle hupdate hr
    · exact Engine.ends_update_of_linked supply' h hc hs hk hd hbefore hdone hregistry hregistry'
        hidle hupdate hholds (hrepeatable.payload hpayload) hr
  exact ⟨_, answers_updated_iff.2 ⟨id, payload, hid, hpayload, Prod.ext hends.result rfl⟩,
    hends.database⟩

/-- Pupils, among whom each has a mentor and juniors, and their lessons. -/
def pupil : Schema where
  name := "Pupil"
  idType := .integer
  attributes := [{ name := "name", type := .string }]
  relationships := [("mentor", .belongsTo "Pupil" none), ("juniors", .hasMany "Pupil" none),
    ("lessons", .hasManyThrough "Lesson" none none none)]

/-- Lessons. -/
def lesson : Schema where
  name := "Lesson"
  idType := .integer

/-- Pupils and lessons. -/
def school : Registry where
  schemas := [pupil, lesson]
  associations := [⟨"mentor", pupil, pupil, .belongsTo "mentorId"⟩,
    ⟨"juniors", pupil, pupil, .hasMany "pupilId"⟩,
    ⟨"lessons", pupil, lesson,
      .hasManyThrough ⟨"PupilLessons", "pupil_lessons", "pupilId", "lessonId"⟩⟩]
  foreignKeys := [⟨"Pupil", "mentorId", pupil⟩, ⟨"Pupil", "pupilId", pupil⟩]

/-- Two pupils and two lessons. -/
def term : Session :=
  school.holding [(pupil, ⟨"Pupil", none, [("name", .str "a")], []⟩),
    (pupil, ⟨"Pupil", none, [("name", .str "b")], []⟩),
    (lesson, ⟨"Lesson", none, [], []⟩), (lesson, ⟨"Lesson", none, [], []⟩)]

/-- Linkage to a row. -/
def linkage (type : String) (id : Int) : Json := .obj [("id", .int id), ("type", .str type)]

/-- A document that updates a row. -/
def updating (path type : String) (attributes relationships : Object) : Request where
  method := .patch
  path := path
  query := ""
  body := some (.obj [("data", .obj [("attributes", .obj attributes),
    ("relationships", .obj relationships), ("type", .str type)])])

/-- A pupil is renamed, and becomes its own junior, among others. -/
def schooling : Request :=
  updating "/api/pupils/1" "Pupil" [("name", .str "c")] [
    ("juniors", .obj [("data", .arr [linkage "Pupil" 1, linkage "Pupil" 2])]),
    ("lessons", .obj [("data", .arr [linkage "Lesson" 2, linkage "Lesson" 1, linkage "Lesson" 2])]),
    ("mentor", .obj [("data", linkage "Pupil" 2)])]

/-- The payload of the request. -/
def schoolingPayload : Payload where
  resourceType := "Pupil"
  attributes := [("name", .str "c")]
  relationships := [("juniors", .many [.byId (.int 1), .byId (.int 2)]),
    ("lessons", .many [.byId (.int 2), .byId (.int 1), .byId (.int 2)]),
    ("mentor", .one (some (.byId (.int 2))))]

/-- The pupil after the request. -/
def schooled : Record where
  id := .int 1
  attributes := [("id", .int 1), ("mentorId", .int 2), ("name", .str "c"), ("pupilId", .int 1)]
  relationships := [("juniors", .arr [.int 1, .int 2]),
    ("lessons", .arr [.int 2, .int 1, .int 2]), ("mentor", .int 2)]

/-- The session after the request. -/
def afterSchooling : Session :=
  (Session.run (fun _ => "") (Engine.update school pupil (.int 1) schoolingPayload).run term).2

/-- A pupil that has become its own junior and takes its lessons can be updated so again. -/
theorem schooling_repeats : Registry.assemble [pupil, lesson] = .ok school ∧
    (school.tables.map (·.name)).Nodup ∧ Session.Reachable school term ∧ pupil.Addressable ∧
    schooling.Repeatable school pupil ∧
    ∃ serving, school.service.dispatch schooling = some serving ∧
      Session.run (fun _ => "") serving.run term =
        (.ok (.ok (.updated schooled)), afterSchooling) ∧
      ∀ supply, ∃ s'', Session.run supply serving.run afterSchooling =
        (.ok (.ok (.updated schooled)), s'') ∧ s''.database = afterSchooling.database := by
  have h : Registry.assemble [pupil, lesson] = .ok school.service.registry := by decide +kernel
  have hn : (school.service.registry.tables.map (·.name)).Nodup := by decide +kernel
  have hreachable : Session.Reachable school.service.registry term :=
    Registry.reachable_holding (by decide +kernel) _
  have hroute : school.service.route? schooling = some (.update pupil "1") := by decide +kernel
  have hk : pupil.Addressable := by decide
  have hrepeatable : schooling.Repeatable school.service.registry pupil :=
    ⟨⟨by decide +kernel, by decide +kernel⟩, by decide +kernel⟩
  have hdispatch := dispatch_of_route hroute
  have hpayload : Payload.ofDocument school pupil .update (schooling.body.getD .null) =
      .ok schoolingPayload := by decide +kernel
  have hupdate : Session.run (fun _ => "")
      (Engine.update school pupil (.int 1) schoolingPayload).run term =
        (.ok (.ok schooled), afterSchooling) := Prod.ext (by decide +kernel) rfl
  have hrun : Session.run (fun _ => "") (serve school schooling.query
      (schooling.body.getD .null) (.update pupil "1")).run term =
        (.ok (.ok (.updated schooled)), afterSchooling) :=
    answers_updated_iff.2 ⟨.int 1, schoolingPayload, by decide +kernel, hpayload, hupdate⟩
  have hagain := updates_repeat h hn hreachable hroute hk hrepeatable hdispatch hrun
  exact ⟨h, hn, hreachable, hk, hrepeatable, _, hdispatch, hrun, hagain⟩

/-- Although it links rows apart, the request is answered with a record in the session, and
repeated, it is not answered so or changes the database once more. -/
structure RepeatsOtherwise (schemas : List Schema) (r : Registry) (schema : Schema)
    (request : Request) (s : Session) : Prop where
  assembled : Registry.assemble schemas = .ok r
  reachable : Session.Reachable r s
  routed : ∃ raw, r.service.route? request = some (.update schema raw)
  apart : request.LinksApart r schema
  otherwise : ∃ serving record s', r.service.dispatch request = some serving ∧
    Session.run (fun _ => "") serving.run s = (.ok (.ok (.updated record)), s') ∧
    ¬∃ s'', Session.run (fun _ => "") serving.run s' = (.ok (.ok (.updated record)), s'') ∧
      s''.database = s'.database

theorem RepeatsOtherwise.of_update {r : Registry} (raw : String) (id : Json) (payload : Payload)
    (record : Record) (h : Registry.assemble schemas = .ok r) (hreachable : Session.Reachable r s)
    (hroute : r.service.route? request = some (.update schema raw))
    (hapart : request.LinksApart r schema) (hid : schema.parseId? raw = some id)
    (hpayload : Payload.ofDocument r schema .update (request.body.getD .null) = .ok payload)
    (hfirst : Session.run (fun _ => "") (Engine.update r schema id payload).run s =
      (.ok (.ok record), s'))
    (hagain : (Session.run (fun _ => "") (Engine.update r schema id payload).run s').1 =
        .ok (.ok record) →
      (Session.run (fun _ => "") (Engine.update r schema id payload).run s').2.database ≠
        s'.database) : RepeatsOtherwise schemas r schema request s := by
  refine ⟨h, hreachable, ⟨raw, hroute⟩, hapart, _, record, s', dispatch_of_route hroute,
    answers_updated_iff.2 ⟨id, payload, hid, hpayload, hfirst⟩, ?_⟩
  rintro ⟨s'', hrun, hsame⟩
  obtain ⟨_, _, hid', hpayload', hupdate⟩ := answers_updated_iff.1 hrun
  obtain rfl := Option.some.inj (hid.symm.trans hid')
  obtain rfl := Except.ok.inj (hpayload.symm.trans hpayload')
  rw [show Session.run _ (Engine.update r schema id payload).run s' = _ from hupdate] at hagain
  exact hagain rfl hsame

/-- Those who wear a badge, which has their identifier. -/
def wearer : Schema where
  name := "Wearer"
  idType := .integer
  relationships := [("badge", .hasOne "Badge" (some "id"))]

/-- Badges. -/
def badge : Schema where
  name := "Badge"
  idType := .integer

/-- Badges and those who wear them. -/
def badges : Registry := ⟨[wearer, badge], [⟨"badge", wearer, badge, .hasOne "id"⟩], []⟩

/-- A wearer, and a badge with another identifier. -/
def unworn : Session :=
  badges.holding [(wearer, ⟨"Wearer", none, [], []⟩), (badge, ⟨"Badge", some (.int 2), [], []⟩)]

/-- A badge is given to the first wearer, whose identifier it gets. -/
def wearing : Request :=
  updating "/api/wearers/1" "Wearer" [] [("badge", .obj [("data", linkage "Badge" 2)])]

/-- The badge is not found again under the identifier that it had. -/
theorem wearing_repeats_otherwise :
    RepeatsOtherwise [wearer, badge] badges wearer wearing unworn :=
  .of_update "1" (.int 1) ⟨"Wearer", none, [], [("badge", .one (some (.byId (.int 2))))]⟩
    ⟨.int 1, [("id", .int 1)], [("badge", .int 2)]⟩
    (by decide +kernel) (Registry.reachable_holding (by decide +kernel) _) (by decide +kernel)
    ⟨by decide +kernel, by decide +kernel⟩ (by decide +kernel) (by decide +kernel)
    (Prod.ext (by decide +kernel) rfl) (by decide +kernel)

/-- The lessons of pupils, as rows of their own. -/
def pupilLessons : Schema where
  name := "PupilLessons"
  idType := .integer
  attributes := [{ name := "pupilId", type := .integer }, { name := "lessonId", type := .integer }]

/-- The lessons of pupils are rows of a schema. -/
def openSchool : Registry := { school with schemas := [pupil, lesson, pupilLessons] }

/-- A pupil and a lesson. -/
def openTerm : Session :=
  openSchool.holding [(pupil, ⟨"Pupil", none, [], []⟩), (lesson, ⟨"Lesson", none, [], []⟩)]

/-- The first pupil takes a lesson. -/
def enrolling : Request :=
  updating "/api/pupils/1" "Pupil" [] [("lessons", .obj [("data", .arr [linkage "Lesson" 1])])]

/-- The row of the join table is another one, with a new identifier. -/
theorem enrolling_repeats_otherwise :
    RepeatsOtherwise [pupil, lesson, pupilLessons] openSchool pupil enrolling openTerm :=
  .of_update "1" (.int 1) ⟨"Pupil", none, [], [("lessons", .many [.byId (.int 1)])]⟩
    ⟨.int 1, [("id", .int 1), ("mentorId", .null), ("name", .null), ("pupilId", .null)],
      [("lessons", .arr [.int 1])]⟩
    (by decide +kernel) (Registry.reachable_holding (by decide +kernel) _) (by decide +kernel)
    ⟨by decide +kernel, by decide +kernel⟩ (by decide +kernel) (by decide +kernel)
    (Prod.ext (by decide +kernel) rfl) (by decide +kernel)

/-- Nodes, each with a next one, which has the key of the one before as a unique attribute. -/
def chainNode : Schema where
  name := "Node"
  idType := .integer
  attributes := [{ name := "nodeId", type := .integer, unique := true }]
  relationships := [("next", .hasOne "Node" (some "nodeId"))]

/-- Chains of nodes. -/
def chain : Registry := ⟨[chainNode], [⟨"next", chainNode, chainNode, .hasOne "nodeId"⟩], []⟩

/-- Two nodes. -/
def unchained : Session :=
  chain.holding [(chainNode, ⟨"Node", none, [], []⟩), (chainNode, ⟨"Node", none, [], []⟩)]

/-- The first node gets the key that the second one has afterwards. -/
def chaining : Request :=
  updating "/api/nodes/1" "Node" [("nodeId", .int 1)]
    [("next", .obj [("data", linkage "Node" 2)])]

/-- The links have cleared the key of the first node and given it to the second one, so that it
cannot be set in the first node again. -/
theorem chaining_repeats_otherwise :
    RepeatsOtherwise [chainNode] chain chainNode chaining unchained :=
  .of_update "1" (.int 1) ⟨"Node", none, [("nodeId", .int 1)],
      [("next", .one (some (.byId (.int 2))))]⟩
    ⟨.int 1, [("id", .int 1), ("nodeId", .null)], [("next", .int 2)]⟩
    (by decide +kernel) (Registry.reachable_holding (by decide +kernel) _) (by decide +kernel)
    ⟨by decide +kernel, by decide +kernel⟩ (by decide +kernel) (by decide +kernel)
    (Prod.ext (by decide +kernel) rfl) (by decide +kernel)

/-- Nodes whose primary key is spelled like the rank of the node above. -/
def rankedNode : Schema where
  name := "Node"
  idField := "up.rank"
  idType := .integer
  attributes := [{ name := "rank", type := .integer }]
  relationships := [("up", .belongsTo "Node" none)]

/-- Ranked nodes. -/
def ranks : Registry :=
  ⟨[rankedNode], [⟨"up", rankedNode, rankedNode, .belongsTo "upId"⟩],
    [⟨"Node", "upId", rankedNode⟩]⟩

/-- Three nodes, one above the other. -/
def ranked : Session :=
  ranks.holding [(rankedNode, ⟨"Node", none, [("rank", .int 1)], []⟩),
    (rankedNode, ⟨"Node", none, [], [("up", .one (some (.byId (.int 1))))]⟩),
    (rankedNode, ⟨"Node", none, [], [("up", .one (some (.byId (.int 2))))]⟩)]

/-- The first node is given the rank that it has, and no node above. -/
def ranking : Request :=
  updating "/api/nodes/1" "Node" [("rank", .int 1)] [("up", .obj [("data", .null)])]

/-- The rank is set in the second node, which is below one of this rank. After it only the third
node is, and after that none. -/
theorem ranking_repeats_otherwise :
    RepeatsOtherwise [rankedNode] ranks rankedNode ranking ranked :=
  .of_update "1" (.int 1) ⟨"Node", none, [("rank", .int 1)], [("up", .one none)]⟩
    ⟨.int 1, [("rank", .null), ("up.rank", .int 3), ("upId", .int 2)], [("up", .null)]⟩
    (by decide +kernel) (Registry.reachable_holding (by decide +kernel) _) (by decide +kernel)
    ⟨by decide +kernel, by decide +kernel⟩ (by decide +kernel) (by decide +kernel)
    (Prod.ext (by decide +kernel) rfl) (by decide +kernel)

/-- **Updates may not repeat**: where links are kept in the primary keys of the linked rows, where a
join table is also the table of a schema, where links share the column of a unique attribute that is
given, and where the primary key has a dotted name. -/
theorem updates_may_not_repeat :
    RepeatsOtherwise [wearer, badge] badges wearer wearing unworn ∧
      RepeatsOtherwise [pupil, lesson, pupilLessons] openSchool pupil enrolling openTerm ∧
      RepeatsOtherwise [chainNode] chain chainNode chaining unchained ∧
      RepeatsOtherwise [rankedNode] ranks rankedNode ranking ranked :=
  ⟨wearing_repeats_otherwise, enrolling_repeats_otherwise, chaining_repeats_otherwise,
    ranking_repeats_otherwise⟩

end Service

end ResourceApi
