import ResourceApi.Proofs.Engine.Documents
import ResourceApi.Proofs.Write.Admitted

/-!
# Faults of documents

A document is checked twice. Its structure is checked first, up to the first container that is not
sound, and then relationship by relationship. Only when nothing is wrong with the structure are the
contents read, and then all that is wrong with them is found at once.

**Theorem (`Document.reported`).** What a document is answered with is told by rules for its parts:
one for the frame of the document (`Document.Frame`), one for an entry of the relationships
(`Document.EntryFault`), and one each for identifiers, attributes, rows, elements of linkage and
linkage. Each rule looks at its own member of the document and at what is declared, and the faults
of a document are those of its parts, in the order of the members, which is that of their keys
(`Collects`). The same rule for rows is used for the document and for the rows that it describes in
its linkage.

The rules are met by equivalences with what is computed, from the attributes outwards: a list of
faults follows from the rules exactly if it is the list that is computed.
-/

namespace ResourceApi

/-! ## What is found in a list -/

section

variable {α β : Type}

/-- What is found in a list: what is found in each element, in order. -/
inductive Collects (P : α → List β → Prop) : List α → List β → Prop
  | nil : Collects P [] []
  | cons {a : α} {as : List α} {found rest : List β} :
      P a found → Collects P as rest → Collects P (a :: as) (found ++ rest)

/-- At most one thing is found, and it is what is there to be found. -/
structure Single (R : α → β → Prop) (a : α) (found : List β) : Prop where
  mem_iff : ∀ b, b ∈ found ↔ R a b
  length : found.length ≤ 1

variable {P : α → List β → Prop} {R : α → β → Prop} {as : List α} {a : α} {found : List β}

theorem collects_iff {f : α → List β} (h : ∀ a ∈ as, ∀ found, P a found ↔ f a = found) :
    Collects P as found ↔ as.flatMap f = found := by
  induction as generalizing found with
  | nil =>
    constructor
    · rintro ⟨⟩
      rfl
    · rintro rfl
      exact .nil
  | cons a as ih =>
    obtain ⟨ha, has⟩ := List.forall_mem_cons.1 h
    rw [List.flatMap_cons]
    constructor
    · rintro (_ | ⟨hfound, hrest⟩)
      rw [(ha _).1 hfound, (ih has).1 hrest]
    · rintro rfl
      exact .cons ((ha _).2 rfl) ((ih has).2 rfl)

theorem single_iff {found' : List β} (hlength : found'.length ≤ 1)
    (h : ∀ b, b ∈ found' ↔ R a b) : Single R a found ↔ found' = found := by
  constructor
  · rintro ⟨hmem, hle⟩
    have hsame (b : β) : b ∈ found' ↔ b ∈ found := (h b).trans (hmem b).symm
    match found', found, hlength, hle with
    | [], [], _, _ => rfl
    | [], b :: _, _, _ => exact absurd ((hsame b).2 List.mem_cons_self) List.not_mem_nil
    | b :: _, [], _, _ => exact absurd ((hsame b).1 List.mem_cons_self) List.not_mem_nil
    | [b], [c], _, _ => rw [List.mem_singleton.1 ((hsame b).1 List.mem_cons_self)]
  · rintro rfl
    exact ⟨h, hlength⟩

/-- A check finds at most one thing. -/
theorem single_faultsOf_iff {x : Except β α} {ι : Type} {i : ι} {R : ι → β → Prop}
    (h : ∀ b, x = .error b ↔ R i b) : Single R i found ↔ faultsOf x = found :=
  single_iff (faultsOf_length_le x) fun b => mem_faultsOf.trans (h b)

end

/-! ## The structure of a document -/

/-- The linkage has the shape that the relationship asks for. -/
def Relationship.Accepts : Relationship → Json → Prop
  | .belongsTo .., .obj _ | .belongsTo .., .null | .hasOne .., .obj _ | .hasOne .., .null
  | .hasMany .., .arr _ | .hasManyThrough .., .arr _ => True
  | _, _ => False

/-- Whether the relationship refers to existing rows only. -/
def Relationship.isBelongsTo : Relationship → Bool
  | .belongsTo .. => true
  | _ => false

namespace Document

/-- The containers of a document are sound, with these members in them. -/
structure Frame (schema : Schema) (body : Json) (data given links : Object) : Prop where
  isObject : body.get? "data" = some (.obj data)
  type : ∃ name, Object.get? "type" data = some (.str name) ∧
    (name = schema.name ∨ name = schema.fullName)
  attributes : Object.get? "attributes" data = some (.obj given)
  /-- Relationships may be left out. -/
  relationships : Object.get? "relationships" data = some (.obj links) ∨
    (Object.get? "relationships" data).getD .null = .null ∧ links = []

/-- The fault of an entry of the relationships. -/
inductive EntryFault (schemas : List Schema) (schema : Schema) : String × Json → Fault → Prop
  | unknown {name : String} {value : Json} :
      name ∉ schema.relationshipNames →
      EntryFault schemas schema (name, value)
        ⟨.unknownRelationship name schema.name schema.relationshipNames,
          ["data", "relationships", name]⟩
  | bare {name : String} {relationship : Relationship} {value : Json} :
      (name, relationship) ∈ schema.relationships → value.get? "data" = none →
      EntryFault schemas schema (name, value)
        ⟨.linkageMissing name, ["data", "relationships", name, "data"]⟩
  | misshapen {name : String} {relationship : Relationship} {target : Schema}
      {value linkage : Json} :
      (name, relationship) ∈ schema.relationships → target ∈ schemas →
      target.fullName = relationship.target → value.get? "data" = some linkage →
      ¬relationship.Accepts linkage →
      EntryFault schemas schema (name, value)
        ⟨.wrongCardinality name (.resolve schema target name relationship),
          ["data", "relationships", name, "data"]⟩

/-! ## The contents of a document -/

/-- The fault of an identifier that is given. -/
structure IdFault (schema : Schema) (path : List String) (id : Json) (f : Fault) : Prop where
  given : id ≠ .null
  refused : ∃ cause, schema.coerceId id = .error cause ∧ f = ⟨.badValue cause, path⟩

/-- The fault of an attribute that is given. -/
inductive AttributeFault (schema : Schema) (path : List String) : String × Json → Fault → Prop
  | unknown {name : String} {value : Json} :
      name ∉ schema.attributeNames →
      AttributeFault schema path (name, value)
        ⟨.unknownAttribute schema.attributeNames, path ++ [name]⟩
  | null {a : Attribute} :
      a ∈ schema.attributes → a.nullable = false →
      AttributeFault schema path (a.name, .null) ⟨.nullAttribute a.name, path ++ [a.name]⟩
  | value {a : Attribute} {value : Json} {cause : CoercionError} :
      a ∈ schema.attributes → value ≠ .null → a.coerce value = .error cause →
      AttributeFault schema path (a.name, value) ⟨.badValue cause, path ++ [a.name]⟩

/-- The fault of an attribute that is not given. -/
structure AbsenceFault (path : List String) (a : Attribute) (f : Fault) : Prop where
  nullable : a.nullable = false
  default : a.default = none
  eq : f = ⟨.attributeMissing a.name, path ++ [a.name]⟩

/-- The faults of a row: those of the attributes that are given and, where the row is created, those
of the others in the order of their declaration. -/
inductive RowFaults (schema : Schema) (path : List String) (given : Object) :
    WriteMode → List Fault → Prop
  | create {bad missing : List Fault} :
      Collects (Single (AttributeFault schema path)) given bad →
      Collects (Single (AbsenceFault path))
        (schema.attributes.filter fun a => a.name ∉ given.keys) missing →
      RowFaults schema path given .create (bad ++ missing)
  | update {bad : List Fault} :
      Collects (Single (AttributeFault schema path)) given bad →
      RowFaults schema path given .update bad

/-- The element does not name the type of another resource. -/
def OfType (target : Schema) (members : Object) : Prop :=
  ∀ name, Object.get? "type" members = some (.str name) →
    name = target.name ∨ name = target.fullName

/-- The faults of an element of linkage. -/
inductive ElementFaults (target : Schema) (belongsTo : Bool) (path : List String) :
    Json → List Fault → Prop
  | notObject {element : Json} :
      element.asObject? = none →
      ElementFaults target belongsTo path element [⟨.linkageNotObject, path⟩]
  | wrongType {members : Object} :
      ¬OfType target members →
      ElementFaults target belongsTo path (.obj members)
        [⟨.wrongLinkageType target.name, path ++ ["type"]⟩]
  | named {members : Object} {id : Json} {faults : List Fault} :
      OfType target members → Object.get? "id" members = some id → id ≠ .null →
      Single (IdFault target (path ++ ["id"])) id faults →
      ElementFaults target belongsTo path (.obj members) faults
  | described {members given : Object} {faults : List Fault} :
      OfType target members → (Object.get? "id" members).getD .null = .null →
      Object.get? "attributes" members = some (.obj given) → belongsTo = false →
      RowFaults target (path ++ ["attributes"]) given .create faults →
      ElementFaults target belongsTo path (.obj members) faults
  | forbidden {members given : Object} :
      OfType target members → (Object.get? "id" members).getD .null = .null →
      Object.get? "attributes" members = some (.obj given) → belongsTo = true →
      ElementFaults target belongsTo path (.obj members) [⟨.cannotCreate target.name, path⟩]
  | empty {members : Object} :
      OfType target members → (Object.get? "id" members).getD .null = .null →
      (∀ given, Object.get? "attributes" members ≠ some (.obj given)) →
      ElementFaults target belongsTo path (.obj members) [⟨.linkageEmpty, path⟩]

/-- The faults of the linkage of a relationship. -/
inductive LinkFaults (schemas : List Schema) (schema : Schema) : String × Json → List Fault → Prop
  | none {name : String} {value : Json} :
      value.getD "data" = .null → LinkFaults schemas schema (name, value) []
  | one {name : String} {relationship : Relationship} {target : Schema} {value : Json}
      {members : Object} {faults : List Fault} :
      (name, relationship) ∈ schema.relationships → target ∈ schemas →
      target.fullName = relationship.target → value.getD "data" = .obj members →
      ElementFaults target relationship.isBelongsTo ["data", "relationships", name, "data"]
        (.obj members) faults →
      LinkFaults schemas schema (name, value) faults
  | many {name : String} {relationship : Relationship} {target : Schema} {value : Json}
      {elements : List Json} {faults : List Fault} :
      (name, relationship) ∈ schema.relationships → target ∈ schemas →
      target.fullName = relationship.target → value.getD "data" = .arr elements →
      Collects (fun (element, i) => ElementFaults target false
        ["data", "relationships", name, "data", toString i] element) elements.zipIdx faults →
      LinkFaults schemas schema (name, value) faults

/-- The faults of the contents of a document: of its identifier, of its row and of its linkage. -/
inductive ContentFaults (schemas : List Schema) (schema : Schema) (mode : WriteMode)
    (data given links : Object) : List Fault → Prop
  | parts {idFaults rowFaults linkFaults : List Fault} :
      Single (IdFault schema ["data", "id"]) ((Object.get? "id" data).getD .null) idFaults →
      RowFaults schema ["data", "attributes"] given mode rowFaults →
      Collects (LinkFaults schemas schema) links linkFaults →
      ContentFaults schemas schema mode data given links (idFaults ++ rowFaults ++ linkFaults)

/-- How the faults of a document are reported. -/
structure Reported (schemas : List Schema) (r : Registry) (schema : Schema) (mode : WriteMode)
    (body : Json) : Prop where
  /-- A container that is not sound is the only fault. -/
  frame : (∀ data given links, ¬Frame schema body data given links) →
    ∃ f, structureFaults r schema body = [f] ∧ f.path ∈
      [["data"], ["data", "type"], ["data", "attributes"], ["data", "relationships"]]
  /-- Otherwise every entry that has a fault is reported. -/
  entries : ∀ data given links, Frame schema body data given links → ∀ faults,
    Collects (Single (EntryFault schemas schema)) links faults ↔
      structureFaults r schema body = faults
  /-- The faults of the contents are the one list that follows from the rules. -/
  contents : ∀ data given links, Frame schema body data given links →
    structureFaults r schema body = [] → ∀ faults,
      ContentFaults schemas schema mode data given links faults ↔
        (readPayload r schema mode body).2 = faults
  structure_ok : checkStructure r schema body = .ok () ↔ structureFaults r schema body = []
  structure_error : ∀ e, checkStructure r schema body = .error e ↔
    structureFaults r schema body ≠ [] ∧
      e = ⟨.document, (structureFaults r schema body).map (·.toApiError)⟩
  ok : (∃ payload, Payload.ofDocument r schema mode body = .ok payload) ↔
    structureFaults r schema body = [] ∧ (readPayload r schema mode body).2 = []
  /-- The contents are read only when nothing is wrong with the structure. -/
  error : ∀ e, Payload.ofDocument r schema mode body = .error e ↔
    checkStructure r schema body = .error e ∨ structureFaults r schema body = [] ∧
      (readPayload r schema mode body).2 ≠ [] ∧
        e = ⟨.payload, (readPayload r schema mode body).2.map (·.toApiError)⟩

/-! ## Rows -/

section

variable {schema target : Schema} {path : List String} {given : Object} {mode : WriteMode}
  {faults : List Fault} {belongsTo : Bool} {element : Json}

theorem coerceMember_eq_error_iff (hn : schema.attributeNames.Nodup) {member : String × Json}
    {f : Fault} :
    coerceMember schema path member = .error f ↔ AttributeFault schema path member f := by
  obtain ⟨name, value⟩ := member
  have hlookup {a : Attribute} (ha : a ∈ schema.attributes) : schema.attribute? a.name = some a :=
    find?_eq_some_of_nodup hn ha
  constructor
  · intro h
    unfold coerceMember at h
    dsimp only at h
    split at h
    · rename_i hnone
      obtain rfl := Except.error.inj h
      refine .unknown fun hm => ?_
      obtain ⟨a, ha, rfl⟩ := List.mem_map.1 hm
      exact nomatch hnone.symm.trans (hlookup ha)
    · rename_i a hsome
      have ha := List.mem_of_find?_eq_some hsome
      obtain rfl : a.name = name := by simpa using List.find?_some hsome
      split at h
      · rename_i hnull
        split at h
        · cases h
        · rename_i hnullable
          obtain rfl := Except.error.inj h
          cases value with
          | null => exact .null ha (Bool.eq_false_iff.2 hnullable)
          | _ => cases hnull
      · rename_i hnull
        split at h
        · cases h
        · rename_i hcoerce
          obtain rfl := Except.error.inj h
          refine .value ha ?_ hcoerce
          rintro rfl
          exact hnull rfl
  · intro h
    unfold coerceMember
    cases h with
    | unknown hnew =>
      have hnone : schema.attribute? name = none := List.find?_eq_none.2 fun a ha hname =>
        hnew (List.mem_map.2 ⟨a, ha, of_decide_eq_true hname⟩)
      dsimp only
      rw [hnone]
    | null ha hnullable =>
      simp only [hlookup ha, Json.isNull, hnullable]
      rfl
    | value ha hvalue hcoerce =>
      have hnull : value.isNull = false := by
        cases value with
        | null => exact absurd rfl hvalue
        | _ => rfl
      simp only [hlookup ha, hnull, hcoerce]
      rfl

theorem absentMember_eq_error_iff {a : Attribute} {f : Fault} :
    absentMember path a = .error f ↔ AbsenceFault path a f := by
  unfold absentMember
  constructor
  · intro h
    split at h
    · cases h
    · rename_i hdefault
      split at h
      · cases h
      · rename_i hnullable
        exact ⟨Bool.eq_false_iff.2 hnullable, hdefault, (Except.error.inj h).symm⟩
  · rintro ⟨hnullable, hdefault, rfl⟩
    rw [hdefault, hnullable]
    rfl

/-- **The faults of a row are found by the rule for rows.** -/
theorem rowFaults_iff (hn : schema.attributeNames.Nodup) :
    RowFaults schema path given mode faults ↔
      (coerceAttributes schema mode path given).2 = faults := by
  have hbad (bad : List Fault) : Collects (Single (AttributeFault schema path)) given bad ↔
      (sortOut (given.map (coerceMember schema path))).1 = bad := by
    rw [sortOut_fst, List.flatMap_map]
    exact collects_iff fun member _ found =>
      single_faultsOf_iff fun f => coerceMember_eq_error_iff hn
  have hmissing (attributes : List Attribute) (missing : List Fault) :
      Collects (Single (AbsenceFault path)) attributes missing ↔
        (sortOut (attributes.map (absentMember path))).1 = missing := by
    rw [sortOut_fst, List.flatMap_map]
    exact collects_iff fun a _ found => single_faultsOf_iff fun f => absentMember_eq_error_iff
  have hfilter : (schema.attributes.filter fun a => a.name ∉ given.keys) =
      schema.attributes.filter fun a => !given.has a.name := by
    refine List.filter_congr fun a _ => ?_
    rw [Bool.eq_iff_iff, decide_eq_true_iff, Object.mem_keys_iff, Bool.not_eq_true',
      Bool.not_eq_true]
    exact Iff.rfl
  cases mode with
  | create =>
    constructor
    · rintro ⟨hgiven, habsent⟩
      rw [hfilter] at habsent
      rw [← (hbad _).1 hgiven, ← (hmissing _ _).1 habsent]
      rfl
    · rintro rfl
      refine .create ((hbad _).2 rfl) ?_
      rw [hfilter]
      exact (hmissing _ _).2 rfl
  | update =>
    have hupdate : (coerceAttributes schema .update path given).2 =
        (sortOut (given.map (coerceMember schema path))).1 := List.append_nil _
    rw [hupdate, ← hbad]
    constructor
    · rintro ⟨⟩
      assumption
    · exact .update

/-! ## Linkage -/

/-- Identifiers are refused as they cannot be coerced. -/
def checkId (schema : Schema) (path : List String) (id : Json) : Except Fault Json :=
  (schema.coerceId id).mapError fun cause => ⟨.badValue cause, path⟩

theorem single_idFault_iff {id : Json} (hid : id ≠ .null) :
    Single (IdFault schema path) id faults ↔ faultsOf (checkId schema path id) = faults := by
  refine single_faultsOf_iff fun f => mapError_eq_error.trans ⟨?_, ?_⟩
  · rintro ⟨cause, hcause, rfl⟩
    exact ⟨hid, cause, hcause, rfl⟩
  · rintro ⟨-, cause, hcause, rfl⟩
    exact ⟨cause, hcause, rfl⟩

section

variable {members : Object}

theorem readTarget_of_not_ofType (h : ¬OfType target members) :
    (readTarget target belongsTo path (.obj members)).2 =
      [⟨.wrongLinkageType target.name, path ++ ["type"]⟩] := by
  unfold OfType at h
  push Not at h
  obtain ⟨name, hname, hshort, hfull⟩ := h
  simp [readTarget, hname, hshort, hfull]

/-- The members of an element count as soon as no other type is named. -/
theorem readTarget_of_ofType (h : OfType target members) :
    (readTarget target belongsTo path (.obj members)).2 =
      if (Object.get? "id" members).getD .null = .null then
        match Object.get? "attributes" members with
        | some (.obj given) =>
          if belongsTo then [⟨.cannotCreate target.name, path⟩]
          else (coerceAttributes target .create (path ++ ["attributes"]) given).2
        | _ => [⟨.linkageEmpty, path⟩]
      else faultsOf (checkId target (path ++ ["id"]) ((Object.get? "id" members).getD .null)) := by
  unfold readTarget
  dsimp -zeta only
  extract_lets wrongType
  have htype : wrongType = false := by
    dsimp only [wrongType]
    split
    · rename_i name hname
      rcases h name hname with rfl | rfl <;> simp
    · rfl
  rw [htype]
  simp only [Bool.false_eq_true, if_false]
  split
  · rename_i hnull
    rw [if_pos hnull]
    cases Object.get? "attributes" members with
    | none => rfl
    | some value =>
      cases value with
      | obj given => cases belongsTo <;> rfl
      | _ => rfl
  · rename_i id hnull
    rw [if_neg hnull, checkId]
    cases target.coerceId ((Object.get? "id" members).getD .null) <;> rfl

end

/-- **The faults of an element of linkage are found by the rule for elements.** -/
theorem elementFaults_iff (hn : target.attributeNames.Nodup) :
    ElementFaults target belongsTo path element faults ↔
      (readTarget target belongsTo path element).2 = faults := by
  constructor
  · intro h
    cases h with
    | notObject hobject =>
      cases element with
      | obj members => cases hobject
      | _ => rfl
    | wrongType htype => exact readTarget_of_not_ofType htype
    | named htype hid hnull hfault =>
      rw [readTarget_of_ofType htype, hid, Option.getD_some, if_neg hnull]
      exact (single_idFault_iff hnull).1 hfault
    | described htype hid hgiven hbelongs hrow =>
      rw [readTarget_of_ofType htype, if_pos hid, hgiven, hbelongs]
      exact (rowFaults_iff hn).1 hrow
    | forbidden htype hid hgiven hbelongs =>
      rw [readTarget_of_ofType htype, if_pos hid, hgiven, hbelongs]
      rfl
    | empty htype hid hgiven =>
      rw [readTarget_of_ofType htype, if_pos hid]
      split
      · rename_i given hsome
        exact absurd hsome (hgiven given)
      · rfl
  · rintro rfl
    cases element with
    | obj members =>
      by_cases htype : OfType target members
      · rw [readTarget_of_ofType htype]
        split
        · rename_i hid
          split
          · rename_i given hgiven
            split
            · rename_i hbelongs
              exact .forbidden htype hid hgiven hbelongs
            · rename_i hbelongs
              exact .described htype hid hgiven (Bool.eq_false_iff.2 hbelongs)
                ((rowFaults_iff hn).2 rfl)
          · rename_i hgiven
            exact .empty htype hid hgiven
        · rename_i hnull
          cases hid : Object.get? "id" members with
          | none => exact absurd (congrArg (·.getD .null) hid) hnull
          | some id =>
            rw [hid] at hnull
            exact .named htype hid hnull ((single_idFault_iff hnull).2 rfl)
      · rw [readTarget_of_not_ofType htype]
        exact .wrongType htype
    | _ => exact .notObject rfl

end

/-! ## Relationships -/

section

variable {schemas : List Schema} {r : Registry} {schema target : Schema} {a : Association}
  {name : String} {relationship : Relationship} {member : String × Json} {faults : List Fault}

/-- The target of an association is the schema of its name. -/
theorem target_eq_of_standsFor (hassembled : Registry.assemble schemas = .ok r)
    (hstands : a.StandsFor schemas schema (name, relationship)) (ht : target ∈ schemas)
    (hn : target.fullName = relationship.target) : a.target = target :=
  List.inj_on_of_nodup_map (Registry.fit_of_assemble hassembled).fullNames hstands.target ht
    (hstands.targetName.trans hn.symm)

theorem hasShape_iff (hstands : a.StandsFor schemas schema (name, relationship))
    (linkage : Json) : hasShape a.cardinality linkage ↔ relationship.Accepts linkage := by
  rw [Association.cardinality, hstands.kind]
  cases relationship <;> cases linkage <;>
    simp [hasShape, Relationship.Accepts, AssociationKind.resolve, AssociationKind.cardinality]

theorem isBelongsTo_of_standsFor (hstands : a.StandsFor schemas schema (name, relationship)) :
    isBelongsTo a = relationship.isBelongsTo := by
  rw [isBelongsTo, hstands.kind]
  cases relationship <;> rfl

/-- **The fault of an entry is found by the rule for entries.** -/
theorem relationshipFault?_eq_some_iff (hassembled : Registry.assemble schemas = .ok r)
    (hs : schema ∈ schemas) {f : Fault} :
    relationshipFault? r schema member = some f ↔ EntryFault schemas schema member f := by
  obtain ⟨name, value⟩ := member
  unfold relationshipFault?
  dsimp only
  constructor
  · intro h
    split at h
    · rename_i hnone
      obtain rfl := Option.some.inj h
      refine .unknown fun hm => ?_
      obtain ⟨a, ha⟩ := (Registry.association?_isSome_iff hassembled hs).2 hm
      exact nomatch hnone.symm.trans ha
    · rename_i a ha
      obtain ⟨relationship, hd, hstands⟩ := Registry.exists_declared hassembled hs ha
      split at h
      · rename_i hbare
        obtain rfl := Option.some.inj h
        exact .bare hd hbare
      · rename_i linkage hlinkage
        split at h
        · cases h
        · rename_i hshape
          obtain rfl := Option.some.inj h
          rw [hstands.kind]
          exact .misshapen hd hstands.target hstands.targetName hlinkage
            fun haccepts => hshape ((hasShape_iff hstands linkage).2 haccepts)
  · intro h
    cases h with
    | unknown hnew =>
      have hnone : r.association? schema name = none := Option.eq_none_iff_forall_ne_some.2
        fun a ha => hnew ((Registry.association?_isSome_iff hassembled hs).1 ⟨a, ha⟩)
      rw [hnone]
    | bare hd hbare =>
      obtain ⟨a, ha, -⟩ := Registry.exists_standsFor hassembled hs hd
      rw [ha, hbare]
      rfl
    | misshapen hd ht hn hlinkage hrefused =>
      obtain ⟨a, ha, hstands⟩ := Registry.exists_standsFor hassembled hs hd
      rw [ha, hlinkage]
      dsimp only
      rw [if_neg fun hshape => hrefused ((hasShape_iff hstands _).1 hshape), hstands.kind,
        target_eq_of_standsFor hassembled hstands ht hn]
      rfl

/-- Linkage to many rows is read element by element. -/
theorem collects_elementFaults_iff (hname : a.name = name)
    (hn : a.target.attributeNames.Nodup) (elements : List Json) :
    Collects (fun (element, i) => ElementFaults a.target false
      ["data", "relationships", name, "data", toString i] element) elements.zipIdx faults ↔
        (readLink a (.arr elements)).2 = faults := by
  have hread : (readLink a (.arr elements)).2 = elements.zipIdx.flatMap fun (element, i) =>
      (readTarget a.target false ["data", "relationships", a.name, "data", toString i]
        element).2 := List.flatMap_map ..
  rw [hread, hname]
  exact collects_iff fun _ _ _ => elementFaults_iff hn

/-- **The faults of linkage are found by the rule for linkage.** -/
theorem linkFaults_iff (hassembled : Registry.assemble schemas = .ok r) (hs : schema ∈ schemas)
    (hentry : relationshipFault? r schema member = none) :
    LinkFaults schemas schema member faults ↔ (readRelationship r schema member).2 = faults := by
  obtain ⟨name, value⟩ := member
  obtain ⟨a, ha, hshape⟩ := exists_hasShape hentry
  replace ha : r.association? schema name = some a := ha
  obtain ⟨declared, hdeclared, hstands⟩ := Registry.exists_declared hassembled hs ha
  have hname : a.name = name := hstands.name
  have hattributes : a.target.attributeNames.Nodup :=
    ((Registry.fit_of_assemble hassembled).attributes a.target hstands.target).1
  have hread : (readRelationship r schema (name, value)).2 =
      (readLink a (value.getD "data")).2 := by
    unfold readRelationship
    rw [ha]
  -- what a rule takes for the relationship and its target is what the lookup has found
  have hfound {target : Schema} {relationship : Relationship}
      (hd : (name, relationship) ∈ schema.relationships) (ht : target ∈ schemas)
      (hn : target.fullName = relationship.target) :
      a.target = target ∧ isBelongsTo a = relationship.isBelongsTo := by
    obtain ⟨b, hb, hsame⟩ := Registry.exists_standsFor hassembled hs hd
    obtain rfl := Option.some.inj (hb.symm.trans ha)
    exact ⟨target_eq_of_standsFor hassembled hsame ht hn, isBelongsTo_of_standsFor hsame⟩
  rw [hread]
  constructor
  · intro h
    cases h with
    | none hdata =>
      rw [hdata]
      rfl
    | one hd ht hn hdata hfaults =>
      obtain ⟨rfl, hkey⟩ := hfound hd ht hn
      rw [← hname, ← hkey] at hfaults
      rw [hdata]
      exact (elementFaults_iff hattributes).1 hfaults
    | many hd ht hn hdata hfaults =>
      obtain ⟨rfl, -⟩ := hfound hd ht hn
      rw [hdata]
      exact (collects_elementFaults_iff hname hattributes _).1 hfaults
  · rintro rfl
    cases hdata : value.getD "data" with
    | null => exact .none hdata
    | obj members =>
      refine .one hdeclared hstands.target hstands.targetName hdata ?_
      rw [← hname, ← isBelongsTo_of_standsFor hstands]
      exact (elementFaults_iff hattributes).2 rfl
    | arr elements =>
      exact .many hdeclared hstands.target hstands.targetName hdata
        ((collects_elementFaults_iff hname hattributes elements).2 rfl)
    | _ =>
      rw [hdata] at hshape
      cases hc : a.cardinality <;> rw [hc] at hshape <;> cases hshape

end

/-! ## Documents -/

section

variable {schemas : List Schema} {r : Registry} {schema : Schema} {mode : WriteMode} {body : Json}
  {data given links : Object} {faults : List Fault}

theorem typeFault?_eq_none_iff : typeFault? schema data = none ↔
    ∃ name, Object.get? "type" data = some (.str name) ∧
      (name = schema.name ∨ name = schema.fullName) := by
  unfold typeFault?
  dsimp only
  cases htype : Object.get? "type" data with
  | none => simp
  | some value => cases value <;> simp [or_iff_not_imp_left]

theorem attributesFault?_eq_none_iff : attributesFault? data = none ↔
    ∃ given, Object.get? "attributes" data = some (.obj given) := by
  unfold attributesFault?
  dsimp only
  cases hattributes : Object.get? "attributes" data with
  | none => simp
  | some value => cases value <;> simp

theorem path_of_containerFault {f : Fault}
    (h : (typeFault? schema data).or (attributesFault? data) = some f) :
    f.path = ["data", "type"] ∨ f.path = ["data", "attributes"] := by
  rcases Option.or_eq_some_iff.1 h with htype | ⟨-, hattributes⟩
  · left
    unfold typeFault? at htype
    dsimp only at htype
    split at htype
    · exact Option.some.inj htype ▸ rfl
    · split at htype
      · cases htype
      · exact Option.some.inj htype ▸ rfl
    · exact Option.some.inj htype ▸ rfl
  · right
    unfold attributesFault? at hattributes
    dsimp only at hattributes
    split at hattributes
    · exact Option.some.inj hattributes ▸ rfl
    · cases hattributes
    · exact Option.some.inj hattributes ▸ rfl

/-- Either the containers are sound, or the first one that is not is the only fault. -/
theorem frame_or_containerFault (r : Registry) (schema : Schema) (body : Json) :
    (∃ data given links, Frame schema body data given links) ∨
      ∃ f, structureFaults r schema body = [f] ∧ f.path ∈
        [["data"], ["data", "type"], ["data", "attributes"], ["data", "relationships"]] := by
  unfold structureFaults
  split
  · exact .inr ⟨_, rfl, by simp⟩
  · rename_i data hdata
    have hobject : body.get? "data" = some (.obj data) := by
      unfold Json.getD at hdata
      cases hget : body.get? "data" with
      | none =>
        rw [hget] at hdata
        cases hdata
      | some value =>
        rw [hget] at hdata
        exact congrArg some hdata
    split
    · rename_i f hfault
      refine .inr ⟨f, rfl, ?_⟩
      rcases path_of_containerFault hfault with hpath | hpath <;> simp [hpath]
    · rename_i hnone
      obtain ⟨htype, hattributes⟩ := Option.or_eq_none_iff.1 hnone
      obtain ⟨given, hgiven⟩ := attributesFault?_eq_none_iff.1 hattributes
      have htype := typeFault?_eq_none_iff.1 htype
      cases hlinks : Object.get? "relationships" data with
      | none =>
        have hnull : (Object.get? "relationships" data).getD .null = .null :=
          congrArg (·.getD .null) hlinks
        exact .inl ⟨data, given, [], hobject, htype, hgiven, .inr ⟨hnull, rfl⟩⟩
      | some value =>
        cases value with
        | null =>
          have hnull : (Object.get? "relationships" data).getD .null = .null :=
            congrArg (·.getD .null) hlinks
          exact .inl ⟨data, given, [], hobject, htype, hgiven, .inr ⟨hnull, rfl⟩⟩
        | obj links => exact .inl ⟨data, given, links, hobject, htype, hgiven, .inl hlinks⟩
        | _ => exact .inr ⟨_, rfl, by simp⟩
  · exact .inr ⟨_, rfl, by simp⟩

theorem Frame.getD_data (h : Frame schema body data given links) :
    body.getD "data" = .obj data := by
  rw [Json.getD, h.isObject]
  rfl

theorem Frame.given_eq (h : Frame schema body data given links) :
    (Json.getD "attributes" (.obj data)).asObject?.getD [] = given := by
  rw [Json.getD, Json.get?, h.attributes]
  rfl

theorem Frame.links_eq (h : Frame schema body data given links) :
    (Json.getD "relationships" (.obj data)).asObject?.getD [] = links := by
  rw [Json.getD, Json.get?]
  rcases h.relationships with hlinks | ⟨hnull, rfl⟩
  · rw [hlinks]
    rfl
  · rw [hnull]
    rfl

theorem structureFaults_of_frame (h : Frame schema body data given links) :
    structureFaults r schema body = links.filterMap (relationshipFault? r schema) := by
  unfold structureFaults
  rw [h.getD_data]
  dsimp only
  rw [typeFault?_eq_none_iff.2 h.type, attributesFault?_eq_none_iff.2 ⟨given, h.attributes⟩]
  dsimp only [Option.or]
  rcases h.relationships with hlinks | ⟨hnull, rfl⟩
  · rw [hlinks]
    rfl
  · rw [hnull]
    rfl

theorem single_readId_iff : Single (IdFault schema ["data", "id"])
    ((Object.get? "id" data).getD .null) faults ↔ (readId schema (.obj data)).2 = faults := by
  have hread : (readId schema (.obj data)).2 =
      if (Object.get? "id" data).getD .null = .null then []
      else faultsOf (checkId schema ["data", "id"] ((Object.get? "id" data).getD .null)) := by
    have hid : Json.getD "id" (.obj data) = (Object.get? "id" data).getD .null := rfl
    unfold readId
    rw [hid]
    split
    · rename_i hnull
      exact (if_pos hnull).symm
    · rename_i hnull
      rw [if_neg hnull, checkId]
      cases schema.coerceId ((Object.get? "id" data).getD .null) <;> rfl
  rw [hread]
  split
  · rename_i hnull
    rw [hnull]
    exact single_iff (Nat.zero_le 1) fun f => ⟨nofun, fun h => absurd rfl h.given⟩
  · rename_i hnull
    exact single_idFault_iff hnull

/-- **The faults of a document of sound structure are found by the rules for its parts.** -/
theorem contentFaults_iff (hassembled : Registry.assemble schemas = .ok r) (hs : schema ∈ schemas)
    (h : Frame schema body data given links) (hstructure : structureFaults r schema body = []) :
    ContentFaults schemas schema mode data given links faults ↔
      (readPayload r schema mode body).2 = faults := by
  have hn : schema.attributeNames.Nodup :=
    ((Registry.fit_of_assemble hassembled).attributes schema hs).1
  rw [structureFaults_of_frame h, List.filterMap_eq_nil_iff] at hstructure
  have hlinks (found : List Fault) : Collects (LinkFaults schemas schema) links found ↔
      links.flatMap (fun member => (readRelationship r schema member).2) = found :=
    collects_iff fun member hm _ => linkFaults_iff hassembled hs (hstructure member hm)
  have hread : (readPayload r schema mode body).2 = (readId schema (.obj data)).2 ++
      (coerceAttributes schema mode ["data", "attributes"] given).2 ++
        links.flatMap fun member => (readRelationship r schema member).2 := by
    unfold readPayload
    dsimp only
    rw [h.getD_data, h.given_eq, h.links_eq, List.flatMap_map]
  rw [hread]
  constructor
  · rintro ⟨hid, hrow, hlink⟩
    rw [single_readId_iff.1 hid, (rowFaults_iff hn).1 hrow, (hlinks _).1 hlink]
  · rintro rfl
    exact .parts (single_readId_iff.2 rfl) ((rowFaults_iff hn).2 rfl) ((hlinks _).2 rfl)

/-- **The faults of a document are those of its parts.** The structure is checked first, and a
document is read exactly if nothing is found in either check. -/
theorem reported (hassembled : Registry.assemble schemas = .ok r) (hs : schema ∈ schemas)
    (mode : WriteMode) (body : Json) : Reported schemas r schema mode body where
  frame hbroken := by
    refine (frame_or_containerFault r schema body).resolve_left ?_
    rintro ⟨data, given, links, h⟩
    exact hbroken data given links h
  entries data given links h faults := by
    rw [structureFaults_of_frame h, List.filterMap_eq_flatMap_toList]
    refine collects_iff fun member _ found => single_iff (Option.length_toList_le) fun f => ?_
    rw [Option.mem_toList]
    exact relationshipFault?_eq_some_iff hassembled hs
  contents data given links h hstructure faults := contentFaults_iff hassembled hs h hstructure
  structure_ok := checkStructure_eq_ok_iff
  structure_error e := checkStructure_eq_error_iff
  ok := by
    constructor
    · rintro ⟨payload, h⟩
      obtain ⟨hstructure, hread⟩ := Payload.ofDocument_eq_ok_iff.1 h
      exact ⟨checkStructure_eq_ok_iff.1 hstructure, congrArg Prod.snd hread⟩
    · rintro ⟨hstructure, hnone⟩
      exact ⟨_, Payload.ofDocument_eq_ok_iff.2
        ⟨checkStructure_eq_ok_iff.2 hstructure, Prod.ext rfl hnone⟩⟩
  error e := Payload.ofDocument_eq_error_iff

end

/-- A meeting with something wrong in each of its parts: its identifier is no number, the title is
left out, and the topics are too short or none at all. -/
def hastyMeeting : Json :=
  .obj [("data", .obj [
    ("attributes", .obj [("room", .int 1), ("start", .str "soon"), ("state", .null)]),
    ("id", .str "first"),
    ("relationships", .obj [
      ("previous", .obj [("data", .obj [("attributes", .obj [])])]),
      ("topics", .obj [("data", .arr [
        .obj [("attributes", .obj [("minutes", .int 0)])], .str "lunch",
        .obj [("attributes", .obj [])]])])]),
    ("type", .str "Meeting")])]

/-- What is wrong with it. -/
def hastyFaults : List Fault :=
  [⟨.badValue (.wrongType "id" .integer), ["data", "id"]⟩,
    ⟨.unknownAttribute ["title", "start", "state"], ["data", "attributes", "room"]⟩,
    ⟨.badValue (.wrongType "start" .datetime), ["data", "attributes", "start"]⟩,
    ⟨.nullAttribute "state", ["data", "attributes", "state"]⟩,
    ⟨.attributeMissing "title", ["data", "attributes", "title"]⟩,
    ⟨.cannotCreate "Meeting", ["data", "relationships", "previous", "data"]⟩,
    ⟨.badValue (.tooSmall "minutes" .value (.ofInt 1)),
      ["data", "relationships", "topics", "data", "0", "attributes", "minutes"]⟩,
    ⟨.linkageNotObject, ["data", "relationships", "topics", "data", "1"]⟩,
    ⟨.attributeMissing "minutes",
      ["data", "relationships", "topics", "data", "2", "attributes", "minutes"]⟩]

/-- The faults of the meeting follow from the rules. -/
theorem reported_hastyMeeting : Registry.assemble [meeting, topic] = .ok meetings ∧
    meeting ∈ [meeting, topic] ∧
    Reported [meeting, topic] meetings meeting .create hastyMeeting ∧
    ∃ data given links, Frame meeting hastyMeeting data given links ∧
      ContentFaults [meeting, topic] meeting .create data given links hastyFaults ∧
      Payload.ofDocument meetings meeting .create hastyMeeting =
        .error ⟨.payload, hastyFaults.map (·.toApiError)⟩ := by
  have hs : meeting ∈ [meeting, topic] := List.mem_cons_self
  have hreported := reported assemble_meetings hs .create hastyMeeting
  have hstructure : structureFaults meetings meeting hastyMeeting = [] := by decide +kernel
  have hread : (readPayload meetings meeting .create hastyMeeting).2 = hastyFaults := by
    decide +kernel
  have hframe : Frame meeting hastyMeeting _ _ _ :=
    ⟨rfl, ⟨"Meeting", rfl, .inl rfl⟩, rfl, .inl rfl⟩
  refine ⟨assemble_meetings, hs, hreported, _, _, _, hframe, ?_, ?_⟩
  · exact (hreported.contents _ _ _ hframe hstructure hastyFaults).2 hread
  · exact (hreported.error _).2 (.inr ⟨hstructure, hread ▸ nofun, hread ▸ rfl⟩)

end Document

end ResourceApi
