import ResourceApi.Proofs.Engine.Documents
import ResourceApi.Proofs.Schema.Fitting
import ResourceApi.Proofs.Write.Coerced

/-!
# Admitted rows

What a store may rely on when it gets a payload. A value enters a row in one of three ways: it is
given and coerced, it is given as null, or it is the default of an attribute that is not given.

**Theorem (`Payload.admitted_of_ofDocument`).** The rows of a payload, its own and those it creates,
hold values of declared attributes: null where the attribute is nullable, and else what fits the
attribute, which is exactly what coercion returns (`Attribute.fits_iff`). A row that is created has
a value other than null for every attribute that is not nullable. Linkage is to one row or to many
as the relationship is declared, and nothing is created for a `belongsTo` relationship.

Defaults are put into rows as they are declared, so all this is said of attributes whose default, if
they have one, fits as well (`Attribute.DefaultHolds`).
-/

namespace ResourceApi

/-! ## Numbers of a document -/

namespace Json

mutual

/-- Whether all numbers in a value are numbers of JSON. -/
def ranged : Json → Bool
  | arr items => rangedItems items
  | obj members => rangedMembers members
  | value => decide value.IsRanged

/-- Whether all numbers in a list of values are numbers of JSON. -/
def rangedItems : List Json → Bool
  | [] => true
  | item :: rest => ranged item && rangedItems rest

/-- Whether all numbers in a list of members are numbers of JSON. -/
def rangedMembers : List (String × Json) → Bool
  | [] => true
  | (_, value) :: rest => ranged value && rangedMembers rest

end

theorem rangedItems_iff {items : List Json} :
    rangedItems items ↔ ∀ item ∈ items, item.ranged := by
  induction items with
  | nil => simp [rangedItems]
  | cons item rest ih => simp [rangedItems, ih]

theorem rangedMembers_iff {members : List (String × Json)} :
    rangedMembers members ↔ ∀ member ∈ members, member.2.ranged := by
  induction members with
  | nil => simp [rangedMembers]
  | cons member rest ih => simp [rangedMembers, ih]

variable {value : Json}

theorem isRanged_of_ranged (h : value.ranged) : value.IsRanged := by
  cases value with
  | arr items | obj members => trivial
  | _ => exact of_decide_eq_true h

theorem ranged_getD (h : value.ranged) (key : String) : (value.getD key).ranged := by
  unfold getD
  cases hget : value.get? key with
  | none => rfl
  | some member =>
    cases value with
    | obj members =>
      exact rangedMembers_iff.1 h (key, member) (Object.mem_of_get? hget)
    | _ => cases hget

end Json

/-! ## Values that fit -/

namespace Attribute

/-- A measured number is within the bounds. -/
structure InRange (a : Attribute) (measured : Double) : Prop where
  min : ∀ min, a.min = some min → measured.lt min = false
  max : ∀ max, a.max = some max → max.lt measured = false

/-- The value has the type of the attribute and is within its bounds. -/
def Fits (a : Attribute) (value : Json) : Prop :=
  match a.type, value with
  | .string, .str s | .text, .str s => a.InRange (.ofInt s.length)
  | .integer, .int i =>
    Text.Numeral.minInt ≤ i ∧ i ≤ Text.Numeral.maxInt ∧ a.InRange (.ofInt i)
  | .float, .float d => d.isFinite ∧ a.InRange d
  | .boolean, .bool _ => True
  | .datetime, .str s => ∃ raw, Timestamp.normalize? raw = some s
  | .uuid, .str s => Text.Uuid.isSpelling s
  | .enum values, .str s => s ∈ values
  | _, _ => False

/-- The value is null, where that is allowed, or fits. -/
def Holds (a : Attribute) (value : Json) : Prop := value = .null ∧ a.nullable ∨ a.Fits value

/-- The default, if there is one, is a value of the attribute. -/
def DefaultHolds (a : Attribute) : Prop := ∀ value, a.default = some value → a.Holds value

variable {a : Attribute} {value raw : Json}

theorem checkRange_eq_ok {measured : Double} {measure : Measure} :
    a.checkRange measured measure = .ok () ↔ a.InRange measured := by
  unfold checkRange
  constructor
  · intro h
    split at h
    · cases h
    · rename_i hmin
      split at h
      · cases h
      · rename_i hmax
        rw [Option.filter_eq_none_iff] at hmin hmax
        exact ⟨fun min hm => by simpa using hmin min hm, fun max hm => by simpa using hmax max hm⟩
  · rintro ⟨hmin, hmax⟩
    have hmin : a.min.filter measured.lt = none := by
      rw [Option.filter_eq_none_iff]
      exact fun min hm => by simpa using hmin min hm
    have hmax : a.max.filter (·.lt measured) = none := by
      rw [Option.filter_eq_none_iff]
      exact fun max hm => by simpa using hmax max hm
    rw [hmin]
    dsimp only
    rw [hmax]

theorem le_integer? {i : Int} (hr : raw.IsRanged) (h : integer? raw = some i) :
    Text.Numeral.minInt ≤ i := by
  unfold integer? at h
  split at h
  · split at h
    · obtain rfl := Option.some.inj h
      exact hr.1
    · cases h
  · have hbounds := (Option.filter_eq_some_iff.1 h).2
    simp only [Bool.and_eq_true, decide_eq_true_eq] at hbounds
    exact hbounds.1
  · cases h

theorem fits_of_coerce (hr : raw.IsRanged) (h : a.coerce raw = .ok value) : a.Fits value := by
  unfold coerce at h
  unfold Fits
  dsimp only at h
  split at h
  case h_1 htype | h_2 htype =>
    obtain ⟨⟨⟩, hrange, h⟩ := bind_eq_ok.1 h
    obtain rfl := pure_eq_ok.1 h
    rw [htype]
    exact checkRange_eq_ok.1 hrange
  case h_3 htype =>
    split at h
    · cases h
    · rename_i i hi
      obtain ⟨⟨⟩, hrange, h⟩ := bind_eq_ok.1 h
      obtain rfl := pure_eq_ok.1 h
      rw [htype]
      exact ⟨le_integer? hr hi, integer?_le hi, checkRange_eq_ok.1 hrange⟩
  case h_4 htype =>
    split at h
    · cases h
    · rename_i d hd
      obtain ⟨⟨⟩, hrange, h⟩ := bind_eq_ok.1 h
      obtain rfl := pure_eq_ok.1 h
      rw [htype]
      exact ⟨isFinite_of_float? hr hd, checkRange_eq_ok.1 hrange⟩
  case h_5 htype =>
    obtain rfl := pure_eq_ok.1 h
    rw [htype]
    trivial
  case h_6 htype =>
    split at h
    · rename_i hnormal
      obtain rfl := pure_eq_ok.1 h
      rw [htype]
      exact ⟨_, hnormal⟩
    · cases h
  case h_7 htype | h_8 htype =>
    split at h
    · obtain rfl := pure_eq_ok.1 h
      rw [htype]
      assumption
    · cases h
  case h_9 => cases h

/-- What fits is coerced to itself, but for a time. -/
theorem coerce_of_fits (htime : a.type ≠ .datetime) (h : a.Fits value) :
    value.IsRanged ∧ a.coerce value = .ok value := by
  unfold Fits at h
  split at h
  case h_1 s htype | h_2 s htype =>
    refine ⟨trivial, ?_⟩
    unfold coerce
    rw [htype]
    exact bind_eq_ok.2 ⟨(), checkRange_eq_ok.2 h, rfl⟩
  case h_3 i htype =>
    obtain ⟨hmin, hmax, hrange⟩ := h
    have hinteger : integer? (.int i) = some i := if_pos hmax
    refine ⟨⟨hmin, ?_⟩, ?_⟩
    · unfold Text.Numeral.maxInt at hmax
      omega
    · unfold coerce
      rw [htype]
      dsimp only
      rw [hinteger]
      exact bind_eq_ok.2 ⟨(), checkRange_eq_ok.2 hrange, rfl⟩
  case h_4 d htype =>
    refine ⟨h.1, ?_⟩
    unfold coerce
    rw [htype]
    exact bind_eq_ok.2 ⟨(), checkRange_eq_ok.2 h.2, rfl⟩
  case h_5 b htype =>
    refine ⟨trivial, ?_⟩
    unfold coerce
    rw [htype]
    rfl
  case h_6 htype => exact absurd htype htime
  case h_7 s htype | h_8 s htype =>
    refine ⟨trivial, ?_⟩
    unfold coerce
    rw [htype]
    exact if_pos h
  case h_9 => exact h.elim

theorem coerce_datetime (htype : a.type = .datetime) (raw : String) :
    a.coerce (.str raw) = match Timestamp.normalize? raw with
      | some normal => .ok (.str normal)
      | none => .error (.wrongType a.name a.type) := by
  unfold coerce
  rw [htype]
  rfl

/-- A time is written in another way than it may be given. -/
theorem exists_coerce_of_fits (h : a.Fits value) :
    ∃ raw : Json, raw.IsRanged ∧ a.coerce raw = .ok value := by
  by_cases htype : a.type = .datetime
  · unfold Fits at h
    rw [htype] at h
    cases value with
    | str normal =>
      obtain ⟨raw, hnormal⟩ := h
      exact ⟨.str raw, trivial, by rw [coerce_datetime htype, hnormal]⟩
    | _ => exact h.elim
  · exact ⟨value, coerce_of_fits htype h⟩

/-- **The values that fit are those that coercion returns.** -/
theorem fits_iff : a.Fits value ↔ ∃ raw : Json, raw.IsRanged ∧ a.coerce raw = .ok value :=
  ⟨exists_coerce_of_fits, fun ⟨_, hr, h⟩ => fits_of_coerce hr h⟩

theorem Fits.ne_null (h : a.Fits value) : value ≠ .null := by
  rintro rfl
  unfold Fits at h
  split at h <;> contradiction

end Attribute

/-! ## Rows -/

/-- The row holds values of declared attributes. One that is created holds a value for every
attribute that is not nullable. -/
structure Schema.Admits (schema : Schema) (mode : WriteMode) (row : Object) : Prop where
  declared : ∀ name value, (name, value) ∈ row → ∃ a ∈ schema.attributes, a.name = name ∧
    ((mode = .create → a.DefaultHolds) → a.Holds value)
  required : mode = .create → ∀ a ∈ schema.attributes, a.nullable = false →
    ∃ value, (a.name, value) ∈ row ∧ (a.DefaultHolds → value ≠ .null)

namespace Document

variable {r : Registry} {schema target : Schema} {a : Attribute} {mode : WriteMode}
  {path : List String} {given : Object} {member result : String × Json}

theorem holds_of_coerceMember (hr : member.2.ranged)
    (h : coerceMember schema path member = .ok result) : ∃ a ∈ schema.attributes,
      a.name = result.1 ∧ a.Holds result.2 := by
  obtain ⟨name, value⟩ := member
  unfold coerceMember at h
  dsimp only at h
  split at h
  · cases h
  rename_i a ha
  have hname : a.name = name := by simpa using List.find?_some ha
  refine ⟨a, List.mem_of_find?_eq_some ha, ?_⟩
  split at h
  · split at h <;> cases h
    rename_i hnullable
    exact ⟨hname, .inl ⟨rfl, hnullable⟩⟩
  · split at h <;> cases h
    rename_i hcoerced
    exact ⟨hname, .inr (a.fits_of_coerce (Json.isRanged_of_ranged hr) hcoerced)⟩

theorem default_of_absentMember {a : Attribute}
    (h : absentMember path a = .ok (some result)) : a.name = result.1 ∧
      a.default = some result.2 := by
  unfold absentMember at h
  split at h
  · rename_i hdefault
    cases h
    exact ⟨rfl, hdefault⟩
  · split at h <;> cases h

/-- What a member of a row is: a given value that was coerced, or a default. -/
theorem mem_coerceAttributes_cases
    (h : result ∈ (coerceAttributes schema mode path given).1) :
    (∃ member ∈ given, coerceMember schema path member = .ok result) ∨
      mode = .create ∧ ∃ a ∈ schema.attributes, given.has a.name = false ∧
        absentMember path a = .ok (some result) := by
  have hm : result ∈ _ ∨ result ∈ _ := Object.mem_insertAll h
  rcases hm with hm | hm
  · cases hm
  rcases List.mem_append.1 hm with hm | hm
  · obtain ⟨member, hmember, hcoerced⟩ := List.mem_map.1 (mem_of_mem_sortOut hm)
    exact .inl ⟨member, hmember, hcoerced⟩
  · obtain ⟨_, hdefault, rfl⟩ := List.mem_filterMap.1 hm
    obtain ⟨a, ha, habsent⟩ := List.mem_map.1 (mem_of_mem_sortOut hdefault)
    cases mode with
    | create =>
      obtain ⟨ha, hnot⟩ := List.mem_filter.1 ha
      exact .inr ⟨rfl, a, ha, by simpa using hnot, habsent⟩
    | update => cases ha

/-- An attribute that is not nullable is in the row of a document that creates it. -/
theorem exists_mem_coerceAttributes (hm : a ∈ schema.attributes) (hnullable : a.nullable = false)
    (hfaults : (coerceAttributes schema .create path given).2 = []) :
    ∃ value, (a.name, value) ∈ (coerceAttributes schema .create path given).1 := by
  obtain ⟨hgiven, habsent⟩ := List.append_eq_nil_iff.1 hfaults
  have hkey : a.name ∈ ((sortOut (given.map (coerceMember schema path))).2 ++
      ((sortOut ((schema.attributes.filter fun a => !given.has a.name).map
        (absentMember path))).2.filterMap id)).map (·.1) := by
    rw [List.map_append, List.mem_append]
    by_cases hhas : given.has a.name
    · obtain ⟨member, hmember, hname⟩ := List.mem_map.1 (Object.mem_keys_iff.2 hhas)
      obtain ⟨result, hresult⟩ :=
        sortOut_eq_nil_iff.1 hgiven _ (List.mem_map_of_mem hmember)
      refine .inl (List.mem_map.2 ⟨result, ?_, (name_of_coerceMember hresult).trans hname⟩)
      exact mem_sortOut_iff.2 (List.mem_map.2 ⟨member, hmember, hresult⟩)
    · have hfilter : a ∈ schema.attributes.filter fun a => !given.has a.name :=
        List.mem_filter.2 ⟨hm, by simpa using hhas⟩
      obtain ⟨default, hdefault⟩ :=
        sortOut_eq_nil_iff.1 habsent _ (List.mem_map_of_mem hfilter)
      have hsome : ∃ result, default = some result := by
        unfold absentMember at hdefault
        rw [hnullable] at hdefault
        split at hdefault
        · exact ⟨_, (Except.ok.inj hdefault).symm⟩
        · cases hdefault
      obtain ⟨result, rfl⟩ := hsome
      refine .inr (List.mem_map.2 ⟨result, List.mem_filterMap.2 ⟨some result, ?_, rfl⟩,
        (default_of_absentMember hdefault).1.symm⟩)
      exact mem_sortOut_iff.2 (List.mem_map.2 ⟨a, hfilter, hdefault⟩)
  obtain ⟨value, hvalue⟩ := Option.isSome_iff_exists.1 (Object.isSome_get?_ofList hkey)
  exact ⟨value, Object.mem_of_get? hvalue⟩

/-- **Attributes that are read without faults make a row of the schema.** -/
theorem admits_coerceAttributes (hn : schema.attributeNames.Nodup)
    (hr : ∀ member ∈ given, member.2.ranged)
    (hfaults : (coerceAttributes schema mode path given).2 = []) :
    schema.Admits mode (coerceAttributes schema mode path given).1 := by
  have hdeclared : ∀ name value, (name, value) ∈ (coerceAttributes schema mode path given).1 →
      ∃ a ∈ schema.attributes, a.name = name ∧
        ((mode = .create → a.DefaultHolds) → a.Holds value) := by
    intro name value hm
    rcases mem_coerceAttributes_cases hm with ⟨member, hmember, hcoerced⟩ | ⟨hmode, a, ha, -, h⟩
    · obtain ⟨a, ha, hname, hholds⟩ := holds_of_coerceMember (hr member hmember) hcoerced
      exact ⟨a, ha, hname, fun _ => hholds⟩
    · obtain ⟨hname, hdefault⟩ := default_of_absentMember h
      exact ⟨a, ha, hname, fun hholds => hholds hmode value hdefault⟩
  refine ⟨hdeclared, ?_⟩
  rintro rfl a ha hnullable
  obtain ⟨value, hm⟩ := exists_mem_coerceAttributes ha hnullable hfaults
  refine ⟨value, hm, fun hdefault hnull => ?_⟩
  obtain ⟨b, hb, hname, hholds⟩ := hdeclared a.name value hm
  obtain rfl := List.inj_on_of_nodup_map hn hb ha hname
  rcases hholds fun _ => hdefault with ⟨-, hnullable'⟩ | hfits
  · rw [hnullable] at hnullable'
    cases hnullable'
  · exact hfits.ne_null hnull

end Document

/-! ## Linkage -/

/-- The linkage is to one row or to many, as the relationship is declared. Nothing is created for a
`belongsTo` relationship. -/
def Relationship.Takes : Relationship → Link → Prop
  | .belongsTo .., .one target => ∀ row, target ≠ some (.create row)
  | .hasOne .., .one _ | .hasMany .., .many _ | .hasManyThrough .., .many _ => True
  | _, _ => False

namespace Document

variable {target : Schema} {a : Association} {path : List String} {element linkage : Json}
  {link : Link} {row : Object}

/-- An element that describes a row has its attributes. -/
theorem exists_given_of_readTarget {belongsTo : Bool} {faults : List Fault}
    (h : readTarget target belongsTo path element = (some (.create row), faults)) :
    ∃ members given, element = .obj members ∧
      Object.get? "attributes" members = some (.obj given) ∧
      coerceAttributes target .create (path ++ ["attributes"]) given = (row, faults) := by
  unfold readTarget at h
  split at h
  · rename_i members
    extract_lets wrongType at h
    split at h
    · cases h
    split at h
    · split at h
      · rename_i given hgiven
        split at h
        · cases h
        obtain ⟨hrow, hfaults⟩ := Prod.mk.inj h
        obtain rfl := LinkTarget.create.inj (Option.some.inj hrow)
        exact ⟨members, given, rfl, hgiven, Prod.ext rfl hfaults⟩
      · cases h
    · split at h <;> cases h
  · cases h

theorem admits_of_readTarget {belongsTo : Bool} (hn : target.attributeNames.Nodup)
    (hr : element.ranged)
    (h : readTarget target belongsTo path element = (some (.create row), [])) :
    target.Admits .create row := by
  obtain ⟨members, given, rfl, hgiven, hread⟩ := exists_given_of_readTarget h
  have hranged : (Json.obj given).ranged :=
    Json.rangedMembers_iff.1 hr ("attributes", .obj given) (Object.mem_of_get? hgiven)
  have hadmits : target.Admits .create
      (coerceAttributes target .create (path ++ ["attributes"]) given).1 :=
    admits_coerceAttributes hn (Json.rangedMembers_iff.1 hranged) (congrArg Prod.snd hread)
  rwa [hread] at hadmits

theorem admits_of_readLink (hn : a.target.attributeNames.Nodup) (hr : linkage.ranged)
    (h : (readLink a linkage).1 = some link) (hfaults : (readLink a linkage).2 = [])
    (hrow : .create row ∈ link.targets) : a.target.Admits .create row := by
  unfold readLink at h hfaults
  dsimp only at h
  split at h
  · cases h
    cases hrow
  · rename_i elements
    cases h
    obtain ⟨read, hread, he⟩ := List.mem_filterMap.1 hrow
    have hnone := List.flatMap_eq_nil_iff.1 hfaults read hread
    obtain ⟨⟨element, i⟩, hm, rfl⟩ := List.mem_map.1 hread
    have helement : element ∈ elements :=
      List.mem_of_getElem? (List.mem_zipIdx_iff_getElem?.1 hm)
    exact admits_of_readTarget hn (Json.rangedItems_iff.1 hr element helement) (Prod.ext he hnone)
  · rename_i hnull harray
    obtain ⟨t, ht, rfl⟩ := Option.map_eq_some_iff.1 h
    obtain rfl : .create row = t := by simpa [Link.targets] using hrow
    refine admits_of_readTarget hn hr (Prod.ext ht ?_)
    split at hfaults
    · exact absurd rfl hnull
    · exact absurd rfl (harray _)
    · exact hfaults

/-- Linkage that is an object is to one row. -/
theorem exists_target_of_readLink {members : Object}
    (h : (readLink a (.obj members)).1 = some link) : ∃ t, link = .one (some t) ∧
      (readTarget a.target (isBelongsTo a) ["data", "relationships", a.name, "data"]
        (.obj members)).1 = some t := by
  have hread : ((readTarget a.target (isBelongsTo a) ["data", "relationships", a.name, "data"]
      (.obj members)).1.map fun t => Link.one (some t)) = some link := h
  obtain ⟨t, ht, rfl⟩ := Option.map_eq_some_iff.1 hread
  exact ⟨t, rfl, ht⟩

theorem takes_of_readLink {schemas : List Schema} {owner : Schema}
    {declared : String × Relationship} (hstands : a.StandsFor schemas owner declared)
    (hshape : hasShape a.cardinality linkage = true) (h : (readLink a linkage).1 = some link) :
    declared.2.Takes link := by
  obtain ⟨name, relationship⟩ := declared
  have hkind : a.kind = .resolve owner a.target name relationship := hstands.kind
  rw [Association.cardinality, hkind] at hshape
  cases relationship with
  | belongsTo targetName key =>
    cases linkage with
    | null =>
      obtain rfl := Option.some.inj h
      intro row hrow
      cases hrow
    | obj members =>
      obtain ⟨t, rfl, ht⟩ := exists_target_of_readLink h
      have hkey : isBelongsTo a = true := by
        rw [isBelongsTo, hkind]
        rfl
      rw [hkey] at ht
      obtain ⟨id, rfl⟩ := byId_of_readTarget ht
      intro row hrow
      cases hrow
    | _ => cases hshape
  | hasOne targetName key =>
    cases linkage with
    | null =>
      obtain rfl := Option.some.inj h
      trivial
    | obj members =>
      obtain ⟨t, rfl, -⟩ := exists_target_of_readLink h
      trivial
    | _ => cases hshape
  | hasMany targetName key | hasManyThrough targetName join sourceKey targetKey =>
    cases linkage with
    | arr elements =>
      obtain rfl := Option.some.inj h
      trivial
    | _ => cases hshape

end Document

/-! ## Payloads -/

/-- The rows and the linkage of a payload are as its schema declares them. -/
structure Payload.Admitted (schemas : List Schema) (schema : Schema) (mode : WriteMode)
    (payload : Payload) : Prop where
  attributes : schema.Admits mode payload.attributes
  /-- Rows are created for the target of the relationship, whether or not the payload creates its
  own. -/
  relationships : ∀ name link, (name, link) ∈ payload.relationships →
    ∃ relationship, (name, relationship) ∈ schema.relationships ∧ relationship.Takes link ∧
      ∃ target ∈ schemas, target.fullName = relationship.target ∧
        ∀ row, .create row ∈ link.targets → target.Admits .create row

namespace Payload

variable {schemas : List Schema} {r : Registry} {schema : Schema} {mode : WriteMode} {body : Json}
  {payload : Payload}

/-- **Documents give admitted rows.** A value fits exactly if coercion returns it. -/
theorem admitted_of_ofDocument (hassembled : Registry.assemble schemas = .ok r)
    (hs : schema ∈ schemas) (hr : body.ranged)
    (h : ofDocument r schema mode body = .ok payload) :
    payload.Admitted schemas schema mode ∧
      ∀ (a : Attribute) value,
        a.Fits value ↔ ∃ raw : Json, raw.IsRanged ∧ a.coerce raw = .ok value := by
  refine ⟨?_, fun a value => a.fits_iff⟩
  have hfit := Registry.fit_of_assemble hassembled
  obtain ⟨hstructure, hread⟩ := ofDocument_eq_ok_iff.1 h
  obtain ⟨hpayload, hfaults⟩ := Prod.mk.inj hread
  obtain ⟨hown, hlinks⟩ := List.append_eq_nil_iff.1 hfaults
  have hdata := Json.ranged_getD hr "data"
  have hobject {key : String} : ∀ member ∈ ((body.getD "data").getD key).asObject?.getD [],
      member.2.ranged := by
    have hmember := Json.ranged_getD hdata key
    cases hvalue : (body.getD "data").getD key with
    | obj members =>
      rw [hvalue] at hmember
      exact Json.rangedMembers_iff.1 hmember
    | _ => nofun
  refine ⟨?_, fun name link hm => ?_⟩
  · rw [← hpayload]
    exact Document.admits_coerceAttributes (hfit.attributes schema hs).1 hobject
      (List.append_eq_nil_iff.1 hown).2
  · rw [← hpayload] at hm
    obtain ⟨_, hlinked, he⟩ := List.mem_filterMap.1 hm
    have hnone := List.flatMap_eq_nil_iff.1 hlinks _ hlinked
    obtain ⟨member, hmember, rfl⟩ := List.mem_map.1 hlinked
    obtain ⟨rfl, a, ha, hlink⟩ := Document.readRelationship_eq_some he
    obtain ⟨b, hb, hshape⟩ :=
      Document.exists_hasShape (Document.relationshipFault?_eq_none hstructure member hmember)
    obtain rfl := Option.some.inj (hb.symm.trans ha)
    obtain ⟨relationship, hdeclared, hstands⟩ := Registry.exists_declared hassembled hs ha
    have hlinkFaults : (Document.readLink b (member.2.getD "data")).2 = [] := by
      unfold Document.readRelationship at hnone
      rw [ha] at hnone
      exact hnone
    refine ⟨relationship, hdeclared, Document.takes_of_readLink hstands hshape hlink,
      b.target, hstands.target, hstands.targetName, fun row hrow => ?_⟩
    exact Document.admits_of_readLink (hfit.attributes _ hstands.target).1
      (Json.ranged_getD (hobject member hmember) "data") hlink hlinkFaults hrow

end Payload

/-! ## Meetings -/

/-- What is talked about in a meeting, for some minutes. -/
def topic : Schema where
  name := "Topic"
  attributes := [{ name := "minutes", type := .integer, nullable := false, min := some (.ofInt 1) }]

/-- Meetings, which have topics and may follow another one. -/
def meeting : Schema where
  name := "Meeting"
  idType := .integer
  attributes := [{ name := "title", type := .string, nullable := false },
    { name := "start", type := .datetime },
    { name := "state", type := .enum ["open", "done"], nullable := false,
      default := some (.str "open") }]
  relationships := [("topics", .hasMany "Topic" none), ("previous", .belongsTo "Meeting" none)]

/-- The registry of meetings and topics. -/
def meetings : Registry where
  schemas := [meeting, topic]
  associations := [⟨"topics", meeting, topic, .hasMany "meetingId"⟩,
    ⟨"previous", meeting, meeting, .belongsTo "previousId"⟩]
  foreignKeys := [⟨"Topic", "meetingId", meeting⟩, ⟨"Meeting", "previousId", meeting⟩]

theorem assemble_meetings : Registry.assemble [meeting, topic] = .ok meetings := by decide +kernel

/-- A meeting of five minutes. -/
def shortMeeting : Json :=
  .obj [("data", .obj [
    ("attributes", .obj [("start", .str "2024-03-01T10:00:00+02:00"), ("title", .str "Hello")]),
    ("relationships", .obj [
      ("previous", .obj [("data", .obj [("id", .int 7)])]),
      ("topics", .obj [("data", .arr [.obj [("attributes", .obj [("minutes", .int 5)])]])])]),
    ("type", .str "Meeting")])]

/-- What the store gets of it. -/
def shortPayload : Payload where
  resourceType := "Meeting"
  attributes := [("start", .str "2024-03-01T08:00:00.000Z"), ("state", .str "open"),
    ("title", .str "Hello")]
  relationships := [("previous", .one (some (.byId (.int 7)))),
    ("topics", .many [.create [("minutes", .int 5)]])]

namespace Payload

theorem ofDocument_shortMeeting :
    ofDocument meetings meeting .create shortMeeting = .ok shortPayload := by
  decide +kernel

/-- The payload of a meeting is admitted. -/
theorem admitted_shortMeeting : Registry.assemble [meeting, topic] = .ok meetings ∧
    meeting ∈ [meeting, topic] ∧ shortMeeting.ranged ∧
    ofDocument meetings meeting .create shortMeeting = .ok shortPayload ∧
    shortPayload.Admitted [meeting, topic] meeting .create ∧
      ∀ (a : Attribute) value,
        a.Fits value ↔ ∃ raw : Json, raw.IsRanged ∧ a.coerce raw = .ok value :=
  have hs : meeting ∈ [meeting, topic] := List.mem_cons_self
  have hr : shortMeeting.ranged := by decide +kernel
  ⟨assemble_meetings, hs, hr, ofDocument_shortMeeting,
    admitted_of_ofDocument assemble_meetings hs hr ofDocument_shortMeeting⟩

end Payload

/-! ## A default that does not fit -/

/-- The normal form of a time ends with the mark of UTC. -/
theorem Timestamp.getLast?_of_normalize? {raw normal : String} (h : normalize? raw = some normal) :
    normal.toList.getLast? = some 'Z' := by
  obtain ⟨t, -, rfl⟩ := Option.map_eq_some_iff.1 h
  rw [text, String.toList_append]
  exact List.getLast?_concat

/-- The time of an alarm, which is ten in the morning two hours before UTC. -/
def alarmTime : Attribute where
  name := "at"
  type := .datetime
  default := some (.str "2024-03-01T10:00:00+02:00")

/-- Alarms. -/
def alarm : Schema where
  name := "Alarm"
  attributes := [alarmTime]

/-- The registry of alarms. -/
def alarms : Registry := ⟨[alarm], [], []⟩

namespace Payload

/-- A default is put into the row as it is declared, although it is no value of its attribute. -/
theorem default_not_admitted : Registry.assemble [alarm] = .ok alarms ∧
    ofDocument alarms alarm .create
      (.obj [("data", .obj [("attributes", .obj []), ("type", .str "Alarm")])]) =
        .ok (ofAttributes alarm [("at", .str "2024-03-01T10:00:00+02:00")]) ∧
    alarm.attributes = [alarmTime] ∧ ¬ alarmTime.Holds (.str "2024-03-01T10:00:00+02:00") ∧
    ∀ raw, alarmTime.coerce raw ≠ .ok (.str "2024-03-01T10:00:00+02:00") := by
  have hfits : ¬ alarmTime.Fits (.str "2024-03-01T10:00:00+02:00") := fun ⟨raw, h⟩ =>
    absurd (Timestamp.getLast?_of_normalize? h) (by decide)
  refine ⟨by decide +kernel, by decide +kernel, rfl, ?_, fun raw h => ?_⟩
  · rintro (⟨hnull, -⟩ | h)
    · cases hnull
    · exact hfits h
  · cases raw with
    | str s =>
      have hr : Json.IsRanged (.str s) := trivial
      exact hfits (Attribute.fits_of_coerce hr h)
    | _ => cases h

end Payload

end ResourceApi
