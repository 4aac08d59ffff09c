import ResourceApi.Proofs.Engine.Linkage
import ResourceApi.Proofs.Engine.Records
import ResourceApi.Proofs.Engine.Transaction
import ResourceApi.Proofs.Store.Expressible

/-!
# Documents that can be stored

**Theorem (`Engine.documents_expressible`).** The payload that is read from a document can be divided
into its parts, and every operation that a create or an update with it then asks of the store can be
expressed in statements, whatever the store answers to the operations before. An update addresses
its row by the name of the primary key, which must have no dots for that
(`Engine.update_dottedNote_inexpressible`).

The structure of a document is checked before it is read, so that linkage has the shape that its
association asks for (`Document.exists_addLink`). The rows that are written have the attributes of
a document, keys of associations and identifiers (`Engine.always_createWith`), all of which have
columns.
-/

namespace ResourceApi

variable {schemas : List Schema} {r : Registry} {schema : Schema} {a : Association}
  {mode : WriteMode} {body : Json} {payload : Payload}

/-! ## Documents of sound structure -/

namespace Document

variable {member : String × Json} {linkage : Json} {link : Link}

theorem exists_hasShape (h : relationshipFault? r schema member = none) :
    ∃ a, r.association? schema member.1 = some a ∧
      hasShape a.cardinality (member.2.getD "data") = true := by
  unfold relationshipFault? at h
  dsimp only at h
  split at h
  · cases h
  rename_i a ha
  split at h
  · cases h
  rename_i linkage hdata
  split at h
  · rename_i hshape
    refine ⟨a, ha, ?_⟩
    rwa [Json.getD, hdata]
  · cases h

/-- The relationships of a document of sound structure have no faults. -/
theorem relationshipFault?_eq_none (h : checkStructure r schema body = .ok ()) :
    ∀ member ∈ ((body.getD "data").getD "relationships").asObject?.getD [],
      relationshipFault? r schema member = none := by
  have hnone := checkStructure_eq_ok_iff.1 h
  unfold structureFaults at hnone
  split at hnone
  · cases hnone
  · rename_i data hdata
    rw [hdata]
    show ∀ member ∈ ((Object.get? "relationships" data).getD .null).asObject?.getD [], _
    split at hnone
    · cases hnone
    split at hnone
    · rename_i hnull
      rw [hnull]
      nofun
    · rename_i relationships hrelationships
      rw [hrelationships]
      exact List.filterMap_eq_nil_iff.1 hnone
    · cases hnone
  · cases hnone

/-- A relationship that is stored in the row itself refers to existing rows. -/
theorem byId_of_readTarget {target : Schema} {path : List String} {element : Json}
    {t : LinkTarget} (h : (readTarget target true path element).1 = some t) :
    ∃ id, t = .byId id := by
  unfold readTarget at h
  split at h
  · extract_lets wrongType at h
    split at h
    · cases h
    · split at h
      · split at h
        · cases h
        · cases h
      · split at h
        · exact ⟨_, (Option.some.inj h).symm⟩
        · cases h
  · cases h

/-- **Linkage of the right shape has its place among the parts of a payload.** -/
theorem exists_addLink (hshape : hasShape a.cardinality linkage = true)
    (h : (readLink a linkage).1 = some link) (p : Parts) : ∃ q, p.addLink a link = .ok q := by
  unfold Parts.addLink
  cases hc : a.cardinality with
  | one =>
    rw [hc] at hshape
    cases linkage with
    | null =>
      obtain rfl := Option.some.inj h
      cases a.kind <;> exact ⟨_, rfl⟩
    | obj members =>
      have hread : ((readTarget a.target (isBelongsTo a) ["data", "relationships", a.name, "data"]
          (.obj members)).1.map fun t => Link.one (some t)) = some link := h
      obtain ⟨t, ht, rfl⟩ := Option.map_eq_some_iff.1 hread
      cases hk : a.kind with
      | belongsTo field =>
        have hkey : isBelongsTo a = true := by rw [isBelongsTo, hk]
        rw [hkey] at ht
        obtain ⟨id, rfl⟩ := byId_of_readTarget ht
        exact ⟨_, rfl⟩
      | hasOne key | hasMany key | hasManyThrough join => exact ⟨_, rfl⟩
    | _ => cases hshape
  | many =>
    rw [hc] at hshape
    cases linkage with
    | arr elements =>
      obtain rfl := Option.some.inj h
      cases a.kind <;> exact ⟨_, rfl⟩
    | _ => cases hshape

end Document

namespace Engine

open ResourceApi.Action Session

/-- **Payloads of documents can be divided.** -/
theorem exists_parts_of_ofDocument (h : Payload.ofDocument r schema mode body = .ok payload) :
    ∃ p, parts r schema payload = .ok p := by
  have hsound := Document.relationshipFault?_eq_none (Payload.ofDocument_eq_ok_iff.1 h).1
  suffices hdivided : ∃ p, Parts.ofPayload r schema payload = .ok p by
    obtain ⟨p, hp⟩ := hdivided
    exact ⟨p, mapError_eq_ok.2 hp⟩
  refine exists_foldlM_eq_ok (fun (name, link) hm p => ?_) _
  rw [Payload.eq_of_ofDocument h] at hm
  obtain ⟨_, hread, he⟩ := List.mem_filterMap.1 hm
  obtain ⟨member, hmember, rfl⟩ := List.mem_map.1 hread
  obtain ⟨rfl, b, hb, hlink⟩ := Document.readRelationship_eq_some he
  obtain ⟨a, ha, hshape⟩ := Document.exists_hasShape (hsound member hmember)
  obtain rfl := Option.some.inj (hb.symm.trans ha)
  simp only [hb]
  exact Document.exists_addLink hshape hlink p

/-! ## Expressible writes -/

section

variable (h : Registry.assemble schemas = .ok r) (hs : schema ∈ r.schemas)
  (hd : payload.Declared r schema) {p : Parts} (hp : parts r schema payload = .ok p)
include h hd hp

/-- The linkage of declared rows can be written. -/
theorem linkageCalls_expressible (scope : Scope) : p.LinkageCalls (Call.Expressible r) scope := by
  have hcoherent := Registry.coherent_of_assemble h
  obtain ⟨-, hsorts⟩ := Parts.sorts_of_parts hp
  have hfound {x : Association × Link} (hx : x ∈ p.links) : x.1 ∈ r.associations := by
    obtain ⟨-, -, name, ha, -⟩ := hsorts.of_mem_links x.1 x.2 hx
    exact (Registry.mem_of_association? ha).1
  have hlinked {x : Association × Link} (hx : x ∈ p.links) : x.1 ∈ r.associations ∧
      ∀ owner field other, x.1.KeyOn owner field other → ∃ c, r.column? owner field = some c :=
    ⟨hfound hx, fun _ _ _ hk => Registry.exists_column_of_keyOn h (hfound hx) hk⟩
  refine ⟨fun key hk _ => ?_, fun x hx _ => hcoherent.target _ (hfound hx),
    fun x hx rows hrows row hrow => ?_, fun x hx _ _ => hlinked hx, fun x hx _ _ => hlinked hx⟩
  · obtain ⟨-, name, ha⟩ := hsorts.of_mem_keys key hk
    exact hcoherent.target _ (Registry.mem_of_association? ha).1
  · obtain ⟨-, -, name, ha, hm⟩ := hsorts.of_mem_links x.1 x.2 hx
    obtain ⟨given, hgiven, hkeys⟩ := hrows row hrow
    refine Statement.exists_ofInsert fun field hfield => ?_
    rcases List.mem_cons.1 (hkeys hfield) with rfl | hfield
    · exact Session.exists_column_of_reload List.mem_cons_self
    · exact (hd.targets name x.2 x.1 hm ha given hgiven).exists_column r field hfield

include hs

/-- Every field that is written to the row itself has a column. -/
theorem exists_column_of_parts {field : String}
    (hf : field ∈ p.keys.map (·.field) ++ p.attributes.keys) :
    ∃ c, r.column? schema field = some c := by
  obtain ⟨hattributes, hsorts⟩ := Parts.sorts_of_parts hp
  rcases List.mem_append.1 hf with hf | hf
  · obtain ⟨key, hk, rfl⟩ := List.mem_map.1 hf
    obtain ⟨hkind, name, ha⟩ := hsorts.of_mem_keys key hk
    obtain ⟨hm, hfull, -⟩ := Registry.mem_of_association? ha
    have hcoherent := Registry.coherent_of_assemble h
    obtain rfl := hcoherent.eq_of_fullName (hcoherent.source _ hm) hs hfull
    exact Registry.exists_column_of_keyOn h hm (.belongsTo hkind)
  · rw [hattributes] at hf
    exact hd.attributes.exists_column r field hf

/-- **A create with declared rows asks what can be expressed.** -/
theorem always_createWith_expressible (scope : Scope) (given : Option Json) :
    (createWith scope schema given p).Always (Call.Expressible r) := by
  refine always_createWith (linkageCalls_expressible h hd hp scope) fun row hrow => ?_
  refine Statement.exists_ofInsert fun field hfield => ?_
  rcases List.mem_cons.1 (hrow hfield) with rfl | hfield
  · exact Session.exists_column_of_reload List.mem_cons_self
  · exact exists_column_of_parts h hs hd hp hfield

/-- **An update with declared rows asks what can be expressed.** -/
theorem always_updateWith_expressible (hk : schema.Addressable) (scope : Scope) (id : Json) :
    (updateWith r scope schema id p).Always (Call.Expressible r) := by
  obtain ⟨q, hq, -⟩ := Session.exists_reloads r hk id
  refine always_updateWith (linkageCalls_expressible h hd hp scope) hs (fun row hrow => ?_) ⟨_, hq⟩
  exact Operation.expressible_update_idIs hk
    (fun field hfield => exists_column_of_parts h hs hd hp (hrow hfield)) id

end

/-- To run in a transaction adds no operations. -/
theorem always_inTransaction_expressible {α : Type} {work : Action α}
    (h : work.Always (Call.Expressible r)) : (inTransaction work).Always (Call.Expressible r) := by
  rintro t result hruns e he
  cases runs_inTransaction.1 hruns with
  | refused error =>
    rw [List.mem_singleton.1 he]
    trivial
  | committed hwork | notCommitted error hwork | rolledBack reply hwork =>
    simp only [List.mem_cons, List.mem_append, List.not_mem_nil, or_false] at he
    rcases he with rfl | he | rfl
    · trivial
    · exact h _ _ hwork e he
    · trivial

section

variable (h : Registry.assemble schemas = .ok r) (hs : schema ∈ r.schemas)
  (hd : payload.Declared r schema)
include h hs hd

theorem always_create_expressible : (create r schema payload).Always (Call.Expressible r) := by
  refine (always_liftM _).bind fun p hp => ?_
  have hp := yields_liftM.1 hp
  split
  · exact always_inTransaction_expressible (always_createWith_expressible h hs hd hp _ _)
  · refine (always_assignId _ _ _).bind fun row hrow => ?_
    refine (always_perform (Statement.exists_ofInsert fun field hfield => ?_)).bind fun _ _ =>
      (always_liftM _).bind fun _ _ => always_pure _
    rcases List.mem_cons.1 (keys_of_assignId hrow hfield) with rfl | hfield
    · exact Session.exists_column_of_reload List.mem_cons_self
    · exact exists_column_of_parts h hs hd hp (List.mem_append_right _ hfield)

theorem always_createIn_expressible : (createIn r schema payload).Always (Call.Expressible r) :=
  (always_liftM _).bind fun _ hp =>
    always_createWith_expressible h hs hd (yields_liftM.1 hp) _ _

variable (hk : schema.Addressable) (id : Json)
include hk

theorem always_update_expressible : (update r schema id payload).Always (Call.Expressible r) := by
  refine (always_liftM _).bind fun _ _ => (always_liftM _).bind fun p hp => ?_
  have hp := yields_liftM.1 hp
  split
  · exact always_inTransaction_expressible (always_updateWith_expressible h hs hd hp hk _ id)
  · obtain ⟨q, hq, -⟩ := Session.exists_reloads r hk id
    have hrow : (Operation.update schema p.attributes (.idIs schema id)).Expressible r :=
      Operation.expressible_update_idIs hk (fun field hfield =>
        exists_column_of_parts h hs hd hp (List.mem_append_right _ hfield)) id
    exact (always_perform hrow).bind fun _ _ => always_guard fun _ => always_reload ⟨_, hq⟩ _

theorem always_updateIn_expressible :
    (updateIn r schema id payload).Always (Call.Expressible r) :=
  (always_liftM _).bind fun _ _ => (always_liftM _).bind fun _ hp =>
    always_updateWith_expressible h hs hd (yields_liftM.1 hp) hk _ id

end

/-- **Documents can be stored.** The payload of a document can be divided, and whatever a create or
an update with it asks of the store can be expressed in statements. -/
theorem documents_expressible (h : Registry.assemble schemas = .ok r) (hs : schema ∈ r.schemas)
    (hpayload : Payload.ofDocument r schema mode body = .ok payload) :
    (∃ p, parts r schema payload = .ok p) ∧
    (∀ action ∈ [create r schema payload, createIn r schema payload],
      action.Always (Call.Expressible r)) ∧
    (schema.Addressable → ∀ id, ∀ action ∈ [update r schema id payload, updateIn r schema id payload],
      action.Always (Call.Expressible r)) := by
  have hd := Payload.declared_of_ofDocument hpayload
  refine ⟨exists_parts_of_ofDocument hpayload, ?_, fun hk id => ?_⟩
  · simp only [List.forall_mem_cons, List.not_mem_nil, false_implies, implies_true, and_true]
    exact ⟨always_create_expressible h hs hd, always_createIn_expressible h hs hd⟩
  · simp only [List.forall_mem_cons, List.not_mem_nil, false_implies, implies_true, and_true]
    exact ⟨always_update_expressible h hs hd hk id, always_updateIn_expressible h hs hd hk id⟩

/-- A document for a team of a person that is there and of another one. -/
def teamDocument : Json :=
  .obj [("data", .obj [
    ("attributes", .obj [("name", .str "a")]),
    ("relationships", .obj [("members", .obj [("data", .arr [
      .obj [("id", .int 1)], .obj [("attributes", .obj [("active", .bool false)])]])])]),
    ("type", .str "Team")])]

/-- The payload of the document. -/
def teamPayload : Payload :=
  ⟨"Team", none, [("name", .str "a")],
    [("members", .many [.byId (.int 1), .create [("active", .bool false)]])]⟩

/-- The document of a team can be stored, as a new team or in place of another one. -/
theorem teamDocument_expressible : Registry.assemble [team, person] = .ok staff ∧
    Payload.ofDocument staff team .create teamDocument = .ok teamPayload ∧ team.Addressable ∧
    (create staff team teamPayload).Always (Call.Expressible staff) ∧
    (update staff team (.int 1) teamPayload).Always (Call.Expressible staff) := by
  have h : Registry.assemble [team, person] = .ok staff := by decide +kernel
  have hpayload : Payload.ofDocument staff team .create teamDocument = .ok teamPayload := by
    decide +kernel
  have hk : team.Addressable := by decide
  obtain ⟨-, hcreate, hupdate⟩ := documents_expressible h (by decide) hpayload
  exact ⟨h, hpayload, hk, hcreate _ List.mem_cons_self, hupdate hk _ _ List.mem_cons_self⟩

/-- A document that changes the text of a note. -/
def noteDocument : Json :=
  .obj [("data", .obj [("attributes", .obj [("text", .str "x")]), ("type", .str "Note")])]

/-- The payload of the document. -/
def notePayload : Payload := ⟨"Note", none, [("text", .str "x")], []⟩

/-- **A key with a dot in its name addresses no row.** Neither the change of a note nor its reload
can be expressed: the name of the key is read as a path of relationships. -/
theorem update_dottedNote_inexpressible : Registry.assemble [dottedNote] = .ok dottedNotes ∧
    Payload.ofDocument dottedNotes dottedNote .update noteDocument = .ok notePayload ∧
    ∃ t result, (update dottedNotes dottedNote (.int 1) notePayload).Runs t result ∧
      t.map (·.call) = [
        .perform .store (.update dottedNote [("text", .str "x")] (.idIs dottedNote (.int 1))),
        .perform .store (.find dottedNote (reloadPlan dottedNotes dottedNote (.int 1)))] ∧
      ∀ e ∈ t, ¬e.call.Expressible dottedNotes := by
  have hupdate : Statement.ofUpdate dottedNotes dottedNote [("text", .str "x")]
      (.idIs dottedNote (.int 1)) = .error (.unknownRelationship "Note" "a") := by rfl
  have hreload : Statement.ofPlan dottedNotes dottedNote
      (reloadPlan dottedNotes dottedNote (.int 1)) =
        .error (.unknownRelationship "Note" "a") := by rfl
  have hfind : (findOne .store dottedNote (.int 1) (reloadPlan dottedNotes dottedNote (.int 1))).Runs
      _ _ := runs_perform_bind.2 ⟨.ok [], [], rfl, runs_throw.2 ⟨rfl, rfl⟩⟩
  have hchanged : (update dottedNotes dottedNote (.int 1) notePayload).Runs _ _ :=
    runs_liftM_bind.2 (runs_liftM_bind.2
      (runs_perform_bind.2 ⟨.ok 1, _, rfl, runs_bind.2 (.inl ⟨_, hfind, rfl⟩)⟩))
  refine ⟨assemble_dottedNote, by decide +kernel, _, _, hchanged, rfl, ?_⟩
  refine List.forall_mem_cons.2 ⟨?_, List.forall_mem_singleton.2 ?_⟩
  · rintro ⟨_, h⟩
    exact nomatch hupdate.symm.trans h
  · rintro ⟨_, h⟩
    exact nomatch hreload.symm.trans h

end Engine

end ResourceApi
