import ResourceApi.Proofs.Json.Pointer
import ResourceApi.Proofs.Write.Faults

/-!
# Places of faults

A fault has the path of the member it is about, and is reported with the text of the path.

**Theorem (`Document.located`).** Whatever a document is answered with is about a member that the
path leads to (`FaultCause.Blames`), or about a member that is not there, and then the path without
its last name leads to the object it is missed in (`FaultCause.Misses`). The text that is reported
reads as the path exactly if every name on the path is plain.

Two things are not as a reader of pointers expects. Names are put into the text as they are, so
where a name has a tilde or a slash the text leads somewhere else or nowhere
(`Document.pointer_astray`). And what is missed in a relationship is missed in whatever stands for
the relationship, object or not (`Fault.Located.bare`), though for all other containers it is
reported that they are no objects.
-/

namespace ResourceApi

/-- What is at the end of the path is as the cause says. -/
def FaultCause.Blames (schemas : List Schema) (path : List String) (value : Json) :
    FaultCause → Prop
  | dataMissing => path = ["data"] ∧ value = .null
  | typeMissing => path = ["data", "type"] ∧ value = .null
  | attributesMissing => path = ["data", "attributes"] ∧ value = .null
  | dataNotObject => path = ["data"] ∧ value.asObject? = none
  | attributesNotObject => path = ["data", "attributes"] ∧ value.asObject? = none
  | relationshipsNotObject => path = ["data", "relationships"] ∧ value.asObject? = none
  | wrongType schema => path = ["data", "type"] ∧ value ≠ .str schema
  | unknownRelationship name _ known => path = ["data", "relationships", name] ∧ name ∉ known
  | wrongCardinality name kind =>
    path = ["data", "relationships", name, "data"] ∧
      Document.hasShape kind.cardinality value = false
  | badValue cause => ∃ schema ∈ schemas,
    path.getLast? = some "id" ∧ schema.coerceId value = .error cause ∨
      ∃ a ∈ schema.attributes, path.getLast? = some a.name ∧ a.coerce value = .error cause
  | unknownAttribute known => ∃ name, path.getLast? = some name ∧ name ∉ known
  | nullAttribute name => path.getLast? = some name ∧ value = .null
  | linkageNotObject => value.asObject? = none
  | wrongLinkageType schema =>
    path.getLast? = some "type" ∧ ∃ type, value = .str type ∧ type ≠ schema
  | linkageEmpty | cannotCreate _ => ∃ members : Object,
    value = .obj members ∧ (members.get? "id").getD .null = .null
  | linkageMissing _ | attributeMissing _ => False

/-- The member that the cause misses is the last on the path. -/
def FaultCause.Misses (path : List String) : FaultCause → Prop
  | dataMissing => path = ["data"]
  | typeMissing => path = ["data", "type"]
  | attributesMissing => path = ["data", "attributes"]
  | linkageMissing name => path = ["data", "relationships", name, "data"]
  | attributeMissing name => path.getLast? = some name
  | _ => False

/-- Where in a document the member is that a fault is about. -/
inductive Fault.Located (schemas : List Schema) (body : Json) : Fault → Prop
  | present {cause : FaultCause} {path : List String} {value : Json} :
      body.Leads path value → cause.Blames schemas path value → Located schemas body ⟨cause, path⟩
  | absent {cause : FaultCause} {path : List String} {name : String} {members : Object} :
      body.Leads path (.obj members) → name ∉ members.keys → cause.Misses (path ++ [name]) →
      Located schemas body ⟨cause, path ++ [name]⟩
  /-- The document is no object. -/
  | whole : body.asObject? = none → Located schemas body ⟨.dataMissing, ["data"]⟩
  /-- What stands for a relationship is no object. -/
  | bare {name : String} {value : Json} :
      body.Leads ["data", "relationships", name] value → value.asObject? = none →
      Located schemas body ⟨.linkageMissing name, ["data", "relationships", name, "data"]⟩

/-- No fault is internal, so its place is not forgotten. -/
theorem Fault.location_toApiError (f : Fault) :
    f.toApiError.location = .pointer (pointerText f.path) := by
  have hkind : f.cause.kind ≠ .internal := by cases f.cause <;> nofun
  exact if_neg hkind

namespace Json

variable {value target : Json} {key : String}

theorem leads_of_get? (h : value.get? key = some target) : value.Leads [key] target := by
  cases value with
  | obj members => exact .member (Object.mem_of_get? h) .here
  | _ => cases h

theorem asObject?_eq_none (h : ∀ members, value ≠ .obj members) : value.asObject? = none := by
  cases value with
  | obj members => exact absurd rfl (h members)
  | _ => rfl

/-- A member that is `null` may also be left out. -/
theorem get?_of_getD (h : value.getD key = target) :
    value.get? key = some target ∨ value.get? key = none ∧ target = .null := by
  unfold getD at h
  cases hget : value.get? key with
  | none =>
    rw [hget] at h
    exact .inr ⟨rfl, h.symm⟩
  | some found =>
    rw [hget] at h
    exact .inl (congrArg some h)

end Json

theorem Object.notMem_keys_of_get? {o : Object} {key : String} (h : o.get? key = none) :
    key ∉ o.keys := by
  rw [mem_keys_iff, h]
  nofun

theorem Collects.exists_mem {α β : Type} {P : α → List β → Prop} {as : List α} {found : List β}
    {b : β} (h : Collects P as found) (hb : b ∈ found) :
    ∃ a ∈ as, ∃ found, P a found ∧ b ∈ found := by
  induction h with
  | nil => cases hb
  | cons hP _ ih =>
    rcases List.mem_append.1 hb with hb | hb
    · exact ⟨_, List.mem_cons_self, _, hP, hb⟩
    · obtain ⟨a, ha, h⟩ := ih hb
      exact ⟨a, List.mem_cons_of_mem _ ha, h⟩

namespace Document

variable {schemas : List Schema} {r : Registry} {schema target : Schema} {mode : WriteMode}
  {body value element : Json} {data given links : Object} {member : String × Json}
  {path : List String} {faults : List Fault} {f : Fault}

/-! ## Contents -/

theorem located_of_idFault (hs : schema ∈ schemas) (hleads : body.Leads (path ++ ["id"]) value)
    (h : IdFault schema (path ++ ["id"]) value f) : f.Located schemas body := by
  obtain ⟨-, cause, hcause, rfl⟩ := h
  exact .present hleads ⟨schema, hs, .inl ⟨List.getLast?_concat, hcause⟩⟩

theorem located_of_attributeFault (hs : schema ∈ schemas) (hm : member ∈ given)
    (hleads : body.Leads path (.obj given)) (h : AttributeFault schema path member f) :
    f.Located schemas body := by
  have hmember := hleads.append_member hm
  cases h with
  | unknown hnew => exact .present hmember ⟨_, List.getLast?_concat, hnew⟩
  | null ha _ => exact .present hmember ⟨List.getLast?_concat, rfl⟩
  | value ha _ hcoerce =>
    exact .present hmember ⟨schema, hs, .inr ⟨_, ha, List.getLast?_concat, hcoerce⟩⟩

theorem located_of_rowFaults (hs : schema ∈ schemas) (hleads : body.Leads path (.obj given))
    (h : RowFaults schema path given mode faults) (hf : f ∈ faults) : f.Located schemas body := by
  have hbad {bad : List Fault} (hbad : Collects (Single (AttributeFault schema path)) given bad)
      (hf : f ∈ bad) : f.Located schemas body := by
    obtain ⟨member, hm, found, hfound, hf⟩ := hbad.exists_mem hf
    exact located_of_attributeFault hs hm hleads ((hfound.mem_iff f).1 hf)
  cases h with
  | update h => exact hbad h hf
  | create h habsent =>
    rcases List.mem_append.1 hf with hf | hf
    · exact hbad h hf
    · obtain ⟨a, ha, found, hfound, hf⟩ := habsent.exists_mem hf
      obtain ⟨-, -, rfl⟩ := (hfound.mem_iff f).1 hf
      refine .absent hleads ?_ List.getLast?_concat
      exact of_decide_eq_true (List.mem_filter.1 ha).2

theorem located_of_elementFaults {belongsTo : Bool} (ht : target ∈ schemas)
    (hleads : body.Leads path element) (h : ElementFaults target belongsTo path element faults)
    (hf : f ∈ faults) : f.Located schemas body := by
  cases h with
  | notObject hobject =>
    obtain rfl := List.mem_singleton.1 hf
    exact .present hleads hobject
  | wrongType htype =>
    obtain rfl := List.mem_singleton.1 hf
    unfold OfType at htype
    push Not at htype
    obtain ⟨name, hname, hshort, -⟩ := htype
    exact .present (hleads.append_member (Object.mem_of_get? hname))
      ⟨List.getLast?_concat, name, rfl, hshort⟩
  | named _ hid _ hfault =>
    exact located_of_idFault ht (hleads.append_member (Object.mem_of_get? hid))
      ((hfault.mem_iff f).1 hf)
  | described _ _ hgiven _ hrow =>
    exact located_of_rowFaults ht (hleads.append_member (Object.mem_of_get? hgiven)) hrow hf
  | forbidden _ hid | empty _ hid =>
    obtain rfl := List.mem_singleton.1 hf
    exact .present hleads ⟨_, rfl, hid⟩

theorem located_of_linkFaults (hleads : body.Leads ["data", "relationships"] (.obj links))
    (hm : member ∈ links) (h : LinkFaults schemas schema member faults) (hf : f ∈ faults) :
    f.Located schemas body := by
  have hlinkage {linkage : Json} (hvalue : member.2.getD "data" = linkage)
      (hnull : linkage ≠ .null) :
      body.Leads ["data", "relationships", member.1, "data"] linkage :=
    (hleads.append_member hm).append
      (Json.leads_of_get? ((Json.get?_of_getD hvalue).resolve_right fun h => hnull h.2))
  cases h with
  | none => cases hf
  | one _ ht _ hvalue hfaults =>
    exact located_of_elementFaults ht (hlinkage hvalue nofun) hfaults hf
  | many _ ht _ hvalue hfaults =>
    obtain ⟨⟨element, i⟩, he, found, hfound, hf⟩ := hfaults.exists_mem hf
    exact located_of_elementFaults ht
      ((hlinkage hvalue nofun).append_element (List.mem_zipIdx_iff_getElem?.1 he)) hfound hf

theorem Frame.leads_data (h : Frame schema body data given links) :
    body.Leads ["data"] (.obj data) :=
  Json.leads_of_get? h.isObject

/-- Relationships that are left out have no entries. -/
theorem Frame.leads_links (h : Frame schema body data given links) (hm : member ∈ links) :
    body.Leads ["data", "relationships"] (.obj links) := by
  rcases h.relationships with hlinks | ⟨-, rfl⟩
  · exact h.leads_data.append_member (Object.mem_of_get? hlinks)
  · cases hm

theorem located_of_contentFaults (hs : schema ∈ schemas)
    (hframe : Frame schema body data given links)
    (h : ContentFaults schemas schema mode data given links faults) (hf : f ∈ faults) :
    f.Located schemas body := by
  obtain ⟨hid, hrow, hlinks⟩ := h
  rcases List.mem_append.1 hf with hf | hf
  · rcases List.mem_append.1 hf with hf | hf
    · have hfault := (hid.mem_iff f).1 hf
      have hget : Json.get? "id" (.obj data) = some ((Object.get? "id" data).getD .null) :=
        (Json.get?_of_getD rfl).resolve_right fun h => hfault.given h.2
      have hid : body.Leads (["data"] ++ ["id"]) _ :=
        hframe.leads_data.append (Json.leads_of_get? hget)
      exact located_of_idFault hs hid hfault
    · exact located_of_rowFaults hs
        (hframe.leads_data.append_member (Object.mem_of_get? hframe.attributes)) hrow hf
  · obtain ⟨member, hm, found, hfound, hf⟩ := hlinks.exists_mem hf
    exact located_of_linkFaults (hframe.leads_links hm) hm hfound hf

/-! ## Structure -/

theorem located_of_entryFault (hassembled : Registry.assemble schemas = .ok r)
    (hs : schema ∈ schemas)
    (hleads : body.Leads ["data", "relationships"] (.obj links)) (hm : member ∈ links)
    (h : EntryFault schemas schema member f) : f.Located schemas body := by
  have hmember := hleads.append_member hm
  cases h with
  | unknown hnew => exact .present hmember ⟨rfl, hnew⟩
  | @bare _ _ value _ hbare =>
    cases value with
    | obj members => exact .absent hmember (Object.notMem_keys_of_get? hbare) rfl
    | _ => exact .bare hmember rfl
  | misshapen hd ht hn hlinkage hrefused =>
    refine .present (hmember.append (Json.leads_of_get? hlinkage)) ⟨rfl, Bool.eq_false_iff.2 ?_⟩
    obtain ⟨a, -, hstands⟩ := Registry.exists_standsFor hassembled hs hd
    have hshape := hasShape_iff hstands
    rw [Association.cardinality, hstands.kind, target_eq_of_standsFor hassembled hstands ht hn]
      at hshape
    exact fun h => hrefused ((hshape _).1 h)

/-- A member of the data that is missed, or has a value that is refused. -/
theorem located_of_member {key : String} {cause : FaultCause}
    (hdata : body.Leads ["data"] (.obj data))
    (hmissed : (Object.get? key data).getD .null = .null → cause.Misses ["data", key] ∧
      cause.Blames schemas ["data", key] .null)
    (hrefused : (Object.get? key data).getD .null ≠ .null →
      cause.Blames schemas ["data", key] ((Object.get? key data).getD .null)) :
    Fault.Located schemas body ⟨cause, ["data", key]⟩ := by
  cases hget : Object.get? key data with
  | none =>
    rw [hget] at hmissed
    have hmisses : cause.Misses (["data"] ++ [key]) := (hmissed rfl).1
    exact .absent hdata (Object.notMem_keys_of_get? hget) hmisses
  | some value =>
    rw [hget, Option.getD_some] at hmissed hrefused
    refine .present (hdata.append_member (Object.mem_of_get? hget)) ?_
    by_cases hnull : value = .null
    · exact hnull ▸ (hmissed hnull).2
    · exact hrefused hnull

theorem located_of_typeFault? (hdata : body.Leads ["data"] (.obj data))
    (h : typeFault? schema data = some f) : f.Located schemas body := by
  unfold typeFault? at h
  dsimp only at h
  split at h
  · rename_i hnull
    obtain rfl := Option.some.inj h
    exact located_of_member hdata (fun _ => ⟨rfl, rfl, rfl⟩) fun hne => absurd hnull hne
  · rename_i type htype
    split at h
    · cases h
    · rename_i hother
      obtain rfl := Option.some.inj h
      refine located_of_member hdata (fun hnull => nomatch htype.symm.trans hnull)
        fun _ => ⟨rfl, ?_⟩
      rw [htype]
      rintro ⟨⟩
      exact hother (.inl rfl)
  · rename_i hnull hstr
    obtain rfl := Option.some.inj h
    exact located_of_member hdata (fun h => absurd h hnull) fun _ => ⟨rfl, hstr schema.name⟩

theorem located_of_attributesFault? (hdata : body.Leads ["data"] (.obj data))
    (h : attributesFault? data = some f) : f.Located schemas body := by
  unfold attributesFault? at h
  dsimp only at h
  split at h
  · rename_i hnull
    obtain rfl := Option.some.inj h
    exact located_of_member hdata (fun _ => ⟨rfl, rfl, rfl⟩) fun hne => absurd hnull hne
  · cases h
  · rename_i hnull hobject
    obtain rfl := Option.some.inj h
    exact located_of_member hdata (fun h => absurd h hnull) fun _ =>
      ⟨rfl, Json.asObject?_eq_none hobject⟩

theorem located_of_structureFaults (hassembled : Registry.assemble schemas = .ok r)
    (hs : schema ∈ schemas) (hf : f ∈ structureFaults r schema body) : f.Located schemas body := by
  unfold structureFaults at hf
  split at hf
  · rename_i hnull
    obtain rfl := List.mem_singleton.1 hf
    rcases Json.get?_of_getD hnull with hdata | ⟨hnone, -⟩
    · exact .present (Json.leads_of_get? hdata) ⟨rfl, rfl⟩
    · cases body with
      | obj members => exact .absent .here (Object.notMem_keys_of_get? hnone) rfl
      | _ => exact .whole rfl
  · rename_i data hobject
    have hdata : body.Leads ["data"] (.obj data) :=
      Json.leads_of_get? ((Json.get?_of_getD hobject).resolve_right nofun)
    split at hf
    · rename_i fault hfault
      obtain rfl := List.mem_singleton.1 hf
      rcases Option.or_eq_some_iff.1 hfault with htype | ⟨-, hattributes⟩
      · exact located_of_typeFault? hdata htype
      · exact located_of_attributesFault? hdata hattributes
    · have hlinks {value : Json} (hvalue : Json.getD "relationships" (.obj data) = value)
          (hnull : value ≠ .null) : body.Leads ["data", "relationships"] value :=
        hdata.append (Json.leads_of_get?
          ((Json.get?_of_getD hvalue).resolve_right fun h => hnull h.2))
      split at hf
      · cases hf
      · rename_i links hvalue
        obtain ⟨member, hm, hfault⟩ := List.mem_filterMap.1 hf
        exact located_of_entryFault hassembled hs (hlinks hvalue nofun) hm
          ((relationshipFault?_eq_some_iff hassembled hs).1 hfault)
      · rename_i hnull hobject
        obtain rfl := List.mem_singleton.1 hf
        exact .present (hlinks rfl hnull) ⟨rfl, Json.asObject?_eq_none hobject⟩
  · rename_i hnull hobject
    obtain rfl := List.mem_singleton.1 hf
    have hdata : body.get? "data" = some (body.getD "data") :=
      (Json.get?_of_getD rfl).resolve_right fun h => hnull h.2
    exact .present (Json.leads_of_get? hdata) ⟨rfl, Json.asObject?_eq_none hobject⟩

/-! ## Answers -/

/-- **Every error is about the member at the end of its path.** -/
theorem located (hassembled : Registry.assemble schemas = .ok r) (hs : schema ∈ schemas)
    {e : Rejection}
    (h : checkStructure r schema body = .error e ∨ Payload.ofDocument r schema mode body = .error e)
    {error : ApiError} (herror : error ∈ e.errors) :
    ∃ f : Fault, error = f.toApiError ∧ error.location = .pointer (pointerText f.path) ∧
      f.Located schemas body ∧
      (Pointer.read? (pointerText f.path) = some f.path ↔
        ∀ name ∈ f.path, Pointer.IsPlain name) := by
  have hfault : ∃ f : Fault, error = f.toApiError ∧ f.Located schemas body := by
    have hstructure (h : checkStructure r schema body = .error e) :
        ∃ f : Fault, error = f.toApiError ∧ f.Located schemas body := by
      obtain ⟨-, rfl⟩ := checkStructure_eq_error_iff.1 h
      obtain ⟨f, hf, rfl⟩ := List.mem_map.1 herror
      exact ⟨f, rfl, located_of_structureFaults hassembled hs hf⟩
    rcases h with h | h
    · exact hstructure h
    · rcases Payload.ofDocument_eq_error_iff.1 h with h | ⟨hsound, hfaults, rfl⟩
      · exact hstructure h
      · obtain ⟨f, hf, rfl⟩ := List.mem_map.1 herror
        refine ⟨f, rfl, ?_⟩
        rcases frame_or_containerFault r schema body with ⟨_, _, _, hframe⟩ | ⟨_, hbroken, -⟩
        · exact located_of_contentFaults hs hframe
            ((contentFaults_iff hassembled hs hframe hsound).2 rfl) hf
        · exact nomatch hsound.symm.trans hbroken
  obtain ⟨f, rfl, hlocated⟩ := hfault
  exact ⟨f, rfl, f.location_toApiError, hlocated, Pointer.read?_pointerText f.path⟩

/-- What a hasty meeting is answered with is about members of it. -/
theorem located_hastyMeeting : Registry.assemble [meeting, topic] = .ok meetings ∧
    Payload.ofDocument meetings meeting .create hastyMeeting =
      .error ⟨.payload, hastyFaults.map (·.toApiError)⟩ ∧
    ∀ error ∈ hastyFaults.map (·.toApiError), ∃ f : Fault, error = f.toApiError ∧
      error.location = .pointer (pointerText f.path) ∧
      f.Located [meeting, topic] hastyMeeting ∧
      (Pointer.read? (pointerText f.path) = some f.path ↔
        ∀ name ∈ f.path, Pointer.IsPlain name) := by
  have hrefused : Payload.ofDocument meetings meeting .create hastyMeeting =
      .error ⟨.payload, hastyFaults.map (·.toApiError)⟩ := by decide +kernel
  exact ⟨assemble_meetings, hrefused, fun error herror =>
    located assemble_meetings List.mem_cons_self (.inr hrefused) herror⟩

/-- A meeting with an attribute whose name has a slash in it. -/
def slashedMeeting : Json :=
  .obj [("data", .obj [
    ("attributes", .obj [("title", .str "Hello"), ("when/where", .str "here")]),
    ("type", .str "Meeting")])]

/-- The pointer to the attribute leads nowhere, and neither does it without its last name: the slash
is taken for the end of a name. -/
theorem pointer_astray : Registry.assemble [meeting, topic] = .ok meetings ∧
    Payload.ofDocument meetings meeting .create slashedMeeting =
      .error ⟨.payload, [⟨.unexpectedValue,
        (FaultCause.unknownAttribute ["title", "start", "state"]).detail,
        .pointer "/data/attributes/when/where"⟩]⟩ ∧
    Pointer.read? "/data/attributes/when/where" = some ["data", "attributes", "when", "where"] ∧
    slashedMeeting.Leads ["data", "attributes", "when/where"] (.str "here") ∧
    ∀ value, ¬slashedMeeting.Leads ["data", "attributes", "when", "where"] value ∧
      ¬slashedMeeting.Leads ["data", "attributes", "when"] value := by
  refine ⟨assemble_meetings, by decide +kernel, by decide +kernel, ?_, fun value => ?_⟩
  · exact .member List.mem_cons_self (.member List.mem_cons_self
      (.member (List.mem_cons_of_mem _ List.mem_cons_self) .here))
  · simp [slashedMeeting, Json.leads_obj_iff]

end Document

end ResourceApi
