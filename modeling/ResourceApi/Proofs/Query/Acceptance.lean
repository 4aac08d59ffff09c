import ResourceApi.Proofs.Query.Resolution
import ResourceApi.Proofs.Schema.Fitting

/-!
# Accepted parameters

What a client may ask for (`Params.Accepted`), told in terms of the declared schemas alone: each
section of the parameters on its own, and for sort keys also that what they lead through is
included.

**Theorem (`Plan.compiles_iff_accepted`).** Parameters are compiled exactly when they are accepted,
and otherwise some error is reported.

The sections are checked independently, so there is one equivalence for each of them. Only sort keys
look at the result of another section: they are looked up in the include tree. When no include path
has an error, the tree has a node for exactly the beginnings of the include paths
(`find?_compileInclude`), which is shown along the path that a tree is grown by.
-/

namespace ResourceApi

/-! ## What is declared -/

/-- A chain of declared relationships leads from one schema to another. -/
inductive Schema.Walks (schemas : List Schema) : Schema → List String → Schema → Prop
  | here (schema : Schema) : Walks schemas schema [] schema
  | along {schema target owner : Schema} {name : String} {rest : List String}
      {relationship : Relationship} : (name, relationship) ∈ schema.relationships →
      target ∈ schemas → target.fullName = relationship.target → Walks schemas target rest owner →
      Walks schemas schema (name :: rest) owner

/-- The field has values of a type. -/
inductive Schema.FieldType (schema : Schema) : String → AttributeType → Prop
  | key : FieldType schema schema.idField schema.idType.attributeType
  | declared {a : Attribute} : a ∈ schema.attributes → FieldType schema a.name a.type

/-- The text stands for a value of the type. -/
def AttributeType.Reads (type : AttributeType) (raw : String) : Prop :=
  ∃ value, type.ofText? raw = some value

/-- The text is a positive number of at most 64 bits: digits, after a plus sign or without. -/
def Text.Numeral.IsPositive (raw : String) : Prop :=
  ∃ digits, digits ≠ [] ∧ (∀ c ∈ digits, c.isDigit) ∧
    (raw.toList = digits ∨ raw.toList = '+' :: digits) ∧
    0 < valueFrom 0 digits ∧ valueFrom 0 digits ≤ maxNat

/-! ## What is accepted -/

section

variable (schemas : List Schema) (schema : Schema)

/-- The names are fields of a schema. -/
def FieldsParam.Accepted (param : FieldsParam) : Prop :=
  ∃ target ∈ schemas, target.fullName = param.typeName ∧
    ∀ name ∈ param.names, name ∈ target.allFields

/-- The values suit the operator and a field of this type. -/
def FilterParam.Suits (param : FilterParam) (type : AttributeType) : Prop :=
  if param.operator.takesArray then
    ∀ text ∈ param.values, ∀ piece ∈ Text.pieces ',' text, piece ≠ "" →
      param.operator.isPattern ∨ type.Reads piece
  else ∃ raw, param.values = [raw] ∧ (param.operator.isPattern ∨ type.Reads raw)

/-- The path leads to a field, and the values suit it. -/
def FilterParam.Accepted (param : FilterParam) : Prop :=
  ∃ owner type, Schema.Walks schemas schema (Path.ofText param.field).relationships owner ∧
    owner.FieldType (Path.ofText param.field).field type ∧ param.Suits type

/-- The path leads to a field through what is included. -/
def SortParam.Accepted (includes : List String) (param : SortParam) : Prop :=
  ∃ owner, Schema.Walks schemas schema (Path.ofText param.field).relationships owner ∧
    (Path.ofText param.field).field ∈ owner.allFields ∧
    ((Path.ofText param.field).relationships = [] ∨
      ∃ path ∈ includes, (Path.ofText param.field).relationships <+: Text.pieces '.' path)

/-- A client may ask for this. -/
structure Params.Accepted (params : Params) (id : Option String) : Prop where
  id : ∀ raw ∈ id, schema.idType.attributeType.Reads raw
  fields : ∀ param ∈ params.fields, param.Accepted schemas
  filters : ∀ param ∈ params.filters, param.Accepted schemas schema
  includes : params.includes = [] ∨ schema.relationships ≠ [] ∧
    ∀ path ∈ params.includes, ∃ owner, schema.Walks schemas (Text.pieces '.' path) owner
  sort : ∀ param ∈ params.sort, param.Accepted schemas schema params.includes
  page : (params.pageNumber = none ∧ params.pageSize = none) ∨
    ∃ number size, params.pageNumber = some number ∧ params.pageSize = some size ∧
      Text.Numeral.IsPositive number ∧ Text.Numeral.IsPositive size

end

variable {schemas : List Schema} {r : Registry} {schema : Schema}

/-! ## Declared relationships and fields -/

/-- A chain of declared relationships leads to one of the schemas. -/
theorem Schema.Walks.mem {names : List String} {owner : Schema}
    (h : schema.Walks schemas names owner) (hs : schema ∈ schemas) : owner ∈ schemas := by
  induction h with
  | here => exact hs
  | along _ ht _ _ ih => exact ih ht

/-- A field is a name with a type. -/
theorem Schema.exists_fieldType_iff {field : String} :
    (∃ type, schema.FieldType field type) ↔ field ∈ schema.allFields := by
  constructor
  · rintro ⟨type, ht⟩
    cases ht with
    | key => exact List.mem_cons_self
    | declared ha => exact List.mem_cons_of_mem _ (List.mem_map_of_mem ha)
  · intro hf
    rcases List.mem_cons.1 hf with rfl | hf
    · exact ⟨_, .key⟩
    · obtain ⟨a, ha, rfl⟩ := List.mem_map.1 hf
      exact ⟨_, .declared ha⟩

namespace Registry.Indexes

/-- A lookup finds what a declared relationship stands for. -/
theorem association?_eq_some_iff (h : r.Indexes schemas) (hr : r.Coherent) (hs : schema ∈ schemas)
    {name : String} {target : Schema} :
    (∃ a, r.association? schema name = some a ∧ a.target = target) ↔
      ∃ relationship, (name, relationship) ∈ schema.relationships ∧ target ∈ schemas ∧
        target.fullName = relationship.target := by
  constructor
  · rintro ⟨a, ha, rfl⟩
    obtain ⟨⟨name', relationship⟩, hd, hstands⟩ :=
      exists_of_forall₂ (h.declared schema hs) (List.mem_of_find?_eq_some ha)
    have hn : a.name = name := by simpa using List.find?_some ha
    obtain rfl : name' = name := hstands.name.symm.trans hn
    exact ⟨relationship, hd, hstands.target, hstands.targetName⟩
  · rintro ⟨relationship, hd, ht, hn⟩
    have hdeclared : name ∈ schema.relationshipNames := List.mem_map.2 ⟨_, hd, rfl⟩
    obtain ⟨a, ha⟩ := (h.association schema name).2 ⟨schema, hs, rfl, hdeclared⟩
    obtain ⟨⟨name', relationship'⟩, hd', hstands⟩ :=
      exists_of_forall₂ (h.declared schema hs) (List.mem_of_find?_eq_some ha)
    have hname : a.name = name := by simpa using List.find?_some ha
    obtain rfl : name' = name := hstands.name.symm.trans hname
    have hnames := (hr.names schema (h.registered ▸ hs)).relationships
    obtain ⟨-, rfl⟩ := Prod.mk.inj (List.inj_on_of_nodup_map hnames hd' hd rfl)
    have htarget := hr.eq_of_fullName (h.registered ▸ hstands.target) (h.registered ▸ ht)
      (hstands.targetName.trans hn.symm)
    exact ⟨a, ha, htarget⟩

/-- Chains of associations are chains of declared relationships. -/
theorem leads_iff_walks (h : r.Indexes schemas) (hr : r.Coherent) (hs : schema ∈ schemas)
    {names : List String} {owner : Schema} :
    r.Leads schema names owner ↔ schema.Walks schemas names owner := by
  constructor
  · intro hl
    induction hl with
    | here schema => exact .here schema
    | @along schema owner name rest a ha _ ih =>
      obtain ⟨relationship, hd, ht, hn⟩ := (h.association?_eq_some_iff hr hs).1 ⟨a, ha, rfl⟩
      exact .along hd ht hn (ih ht)
  · intro hw
    induction hw with
    | here schema => exact .here schema
    | along hd ht hn _ ih =>
      obtain ⟨a, ha, rfl⟩ := (h.association?_eq_some_iff hr hs).2 ⟨_, hd, ht, hn⟩
      exact .along ha (ih ht)

end Registry.Indexes

namespace Plan

theorem resolve_iff_leads {parameter : String} {names : List String} {owner : Schema} :
    resolve r parameter schema names = .ok owner ↔ r.Leads schema names owner := by
  refine ⟨leads_of_resolve, fun h => ?_⟩
  induction h with
  | here => rfl
  | along ha _ ih =>
    unfold resolve
    rw [ha]
    exact ih

/-! ## Values -/

theorem parseId?_eq_ofText? {raw : String} :
    schema.parseId? raw = schema.idType.attributeType.ofText? raw := by
  unfold Schema.parseId?
  cases schema.idType <;> rfl

theorem compileId_isOk_iff {raw : String} :
    (∃ p, compileId schema raw = .ok p) ↔ schema.idType.attributeType.Reads raw := by
  unfold compileId AttributeType.Reads
  rw [parseId?_eq_ofText?]
  split
  · rename_i id hid
    exact ⟨fun _ => ⟨id, hid⟩, fun _ => ⟨_, rfl⟩⟩
  · rename_i hid
    simp [hid]

/-- A text is brought to the type of the field that it is compared with. -/
theorem coerceText_isOk_iff (hd : Registry.DistinctNames schema) {field raw : String}
    {type : AttributeType} (ht : schema.FieldType field type) :
    (∃ value, schema.coerceText field raw = .ok value) ↔ type.Reads raw := by
  unfold Schema.coerceText AttributeType.Reads
  cases ht with
  | key =>
    rw [if_pos rfl, parseId?_eq_ofText?]
    split
    · rename_i value hv
      exact ⟨fun _ => ⟨value, hv⟩, fun _ => ⟨value, rfl⟩⟩
    · rename_i hv
      simp [hv]
  | @declared a ha =>
    obtain ⟨hid, hn⟩ := List.nodup_cons.1 hd.fields
    have hne : a.name ≠ schema.idField := fun he => hid (he ▸ List.mem_map_of_mem ha)
    have hfind : schema.attribute? a.name = some a := find?_eq_some_of_nodup hn ha
    rw [if_neg hne, hfind]
    dsimp only
    split
    · rename_i value hv
      exact ⟨fun _ => ⟨value, hv⟩, fun _ => ⟨value, rfl⟩⟩
    · rename_i hv
      simp [hv]

end Plan

/-! ## Numbers -/

namespace Text.Numeral

theorem natural?_eq_some_iff {digits : List Char} {n : Nat} : natural? digits = some n ↔
    digits ≠ [] ∧ (∀ c ∈ digits, c.isDigit) ∧ valueFrom 0 digits = n := by
  unfold natural?
  split
  · rename_i h
    refine iff_of_false nofun ?_
    rintro ⟨hne, hdigits, -⟩
    rcases Bool.or_eq_true_iff.1 h with h | h
    · exact hne (List.isEmpty_iff.1 h)
    · exact absurd (List.all_eq_true.2 hdigits) (by simpa using h)
  · rename_i h
    simp only [Bool.or_eq_true, not_or] at h
    simp_all

/-- A sign is taken off where there is one. -/
theorem takeSign_cases (cs : List Char) :
    (∃ rest, cs = '-' :: rest ∧ takeSign cs = (true, rest)) ∨
      (∃ rest, cs = '+' :: rest ∧ takeSign cs = (false, rest)) ∨ takeSign cs = (false, cs) := by
  unfold takeSign
  split
  · exact .inl ⟨_, rfl, rfl⟩
  · exact .inr (.inl ⟨_, rfl, rfl⟩)
  · exact .inr (.inr rfl)

theorem nat?_eq_some_iff {raw : String} {n : Nat} : nat? raw = some n ↔
    ∃ digits, digits ≠ [] ∧ (∀ c ∈ digits, c.isDigit) ∧
      (raw.toList = digits ∨ raw.toList = '+' :: digits) ∧ valueFrom 0 digits = n ∧
        n ≤ maxNat := by
  unfold nat?
  constructor
  · intro h
    obtain ⟨rest, -, hsign⟩ | ⟨rest, hraw, hsign⟩ | hsign := takeSign_cases raw.toList
    · rw [hsign] at h
      cases h
    · rw [hsign, Option.filter_eq_some_iff, natural?_eq_some_iff] at h
      obtain ⟨⟨hne, hdigits, hvalue⟩, hle⟩ := h
      exact ⟨rest, hne, hdigits, .inr hraw, hvalue, of_decide_eq_true hle⟩
    · rw [hsign, Option.filter_eq_some_iff, natural?_eq_some_iff] at h
      obtain ⟨⟨hne, hdigits, hvalue⟩, hle⟩ := h
      exact ⟨_, hne, hdigits, .inl rfl, hvalue, of_decide_eq_true hle⟩
  · rintro ⟨digits, hne, hdigits, hraw, hvalue, hle⟩
    have hsign : takeSign raw.toList = (false, digits) := by
      rcases hraw with hraw | hraw
      · obtain ⟨rest, hrest, -⟩ | ⟨rest, hrest, -⟩ | hsign := takeSign_cases raw.toList
        · exact absurd (hdigits '-' (by rw [← hraw, hrest]; simp)) (by decide)
        · exact absurd (hdigits '+' (by rw [← hraw, hrest]; simp)) (by decide)
        · rw [hsign, hraw]
      · rw [hraw]
        rfl
    rw [hsign, Option.filter_eq_some_iff, natural?_eq_some_iff]
    exact ⟨⟨hne, hdigits, hvalue⟩, decide_eq_true hle⟩

end Text.Numeral

namespace Plan

/-! ## Sections that are checks of their members -/

theorem compileSelection_isOk_iff (h : r.Indexes schemas) (hr : r.Coherent)
    {param : FieldsParam} : (∃ selection, compileSelection r param = .ok selection) ↔
      param.Accepted schemas := by
  unfold compileSelection FieldsParam.Accepted
  constructor
  · rintro ⟨selection, hs⟩
    split at hs
    · cases hs
    · rename_i target ht
      obtain ⟨hm, hn⟩ := Registry.mem_of_schema? ht
      split at hs
      · rename_i hnone
        refine ⟨target, h.registered ▸ hm, hn, fun name hname => Schema.hasField_iff.1 ?_⟩
        simpa using List.filter_eq_nil_iff.1 hnone name hname
      · cases hs
  · rintro ⟨target, hm, hn, hfields⟩
    have hnone : param.names.filter (!target.hasField ·) = [] := List.filter_eq_nil_iff.2
      fun name hname => by simpa using Schema.hasField_iff.2 (hfields name hname)
    rw [← hn, hr.schema?_fullName (h.registered ▸ hm)]
    dsimp only
    rw [hnone]
    exact ⟨_, rfl⟩

/-- A selection that is refused is refused with an error. -/
theorem ne_nil_of_compileSelection {param : FieldsParam} {errors : List PlanError}
    (h : compileSelection r param = .error errors) : errors ≠ [] := by
  unfold compileSelection at h
  split at h
  · cases h
    nofun
  · dsimp only at h
    split at h
    · cases h
    · rename_i hsome
      cases h
      simpa using hsome

theorem flatten_sortOut_eq_nil_iff (h : r.Indexes schemas) (hr : r.Coherent)
    {params : List FieldsParam} : (sortOut (params.map (compileSelection r))).1.flatten = [] ↔
      ∀ param ∈ params, param.Accepted schemas := by
  have hnil : (sortOut (params.map (compileSelection r))).1.flatten = [] ↔
      (sortOut (params.map (compileSelection r))).1 = [] := by
    rw [List.flatten_eq_nil_iff]
    refine ⟨fun hall => List.eq_nil_iff_forall_not_mem.2 fun errors hm => ?_, fun hnone => ?_⟩
    · obtain ⟨param, -, hp⟩ := List.mem_map.1 (error_mem_of_mem_sortOut hm)
      exact ne_nil_of_compileSelection hp (hall errors hm)
    · simp [hnone]
  rw [hnil, sortOut_eq_nil_iff, List.forall_mem_map]
  exact forall₂_congr fun _ _ => compileSelection_isOk_iff h hr

/-- The value of a filter is made of texts that suit the field. -/
theorem compileValue_isOk_iff {owner : Schema} (hd : Registry.DistinctNames owner) {field : String}
    {type : AttributeType} (ht : owner.FieldType field type) {param : FilterParam} :
    (∃ value, compileValue owner field param = .ok value) ↔ param.Suits type := by
  have hcoerce (raw : String) : (∃ value, (if param.operator.isPattern then .ok (.str raw)
      else (owner.coerceText field raw).mapError (PlanError.wrongValue param.field ·)) =
        Except.ok value) ↔ param.operator.isPattern ∨ type.Reads raw := by
    by_cases hp : param.operator.isPattern
    · rw [if_pos hp]
      exact iff_of_true ⟨_, rfl⟩ (.inl hp)
    · simp only [if_neg hp, mapError_eq_ok, coerceText_isOk_iff hd ht]
      simp [hp]
  unfold compileValue FilterParam.Suits
  by_cases ho : param.operator.takesArray
  · rw [if_pos ho, if_pos ho, exists_bind_eq_ok_iff]
    simp only [pure_eq_ok, exists_eq', and_true, exists_mapM_eq_ok_iff, hcoerce]
    have hpieces (P : String → Prop) :
        (∀ raw ∈ (param.values.flatMap (Text.pieces ',')).filter (!·.isEmpty), P raw) ↔
          ∀ text ∈ param.values, ∀ piece ∈ Text.pieces ',' text, piece ≠ "" → P piece := by
      simp only [List.mem_filter, List.mem_flatMap, Bool.not_eq_true', String.isEmpty_eq_false_iff]
      constructor
      · intro hall text ht piece hp hne
        exact hall piece ⟨⟨text, ht, hp⟩, hne⟩
      · rintro hall piece ⟨⟨text, ht, hp⟩, hne⟩
        exact hall text ht piece hp hne
    exact hpieces _
  · rw [if_neg ho, if_neg ho]
    dsimp only
    split
    · rename_i raw hraw
      simp [hraw, hcoerce]
    · rename_i hseveral
      refine iff_of_false (by simp) ?_
      rintro ⟨raw, hraw, -⟩
      exact hseveral raw hraw

/-- A check before other checks. -/
theorem exists_guard_eq_ok_iff {ε α : Type} {c : Prop} [Decidable c] {e : ε}
    {rest : Unit → Except ε α} :
    (∃ a, (if c then (throw e : Except ε Unit) >>= rest else rest ()) = .ok a) ↔
      ¬ c ∧ ∃ a, rest () = .ok a := by
  constructor
  · rintro ⟨a, h⟩
    obtain ⟨hc, h⟩ := guard_eq_ok h
    exact ⟨hc, a, h⟩
  · rintro ⟨hc, h⟩
    rwa [if_neg hc]

theorem compileCondition_isOk_iff (h : r.Indexes schemas) (hr : r.Coherent) (hs : schema ∈ schemas)
    {param : FilterParam} : (∃ p, compileCondition r schema param = .ok p) ↔
      param.Accepted schemas schema := by
  unfold compileCondition FilterParam.Accepted
  simp only [exists_bind_eq_ok_iff]
  simp only [exists_guard_eq_ok_iff, exists_bind_eq_ok_iff, pure_eq_ok, exists_eq', and_true]
  constructor
  · rintro ⟨owner, howner, hfield, hvalue⟩
    have hwalks := (h.leads_iff_walks hr hs).1 (resolve_iff_leads.1 howner)
    have hd := hr.names owner (h.registered ▸ hwalks.mem hs)
    obtain ⟨type, ht⟩ := Schema.exists_fieldType_iff.2
      (Schema.hasField_iff.1 (by simpa using hfield))
    exact ⟨owner, type, hwalks, ht, (compileValue_isOk_iff hd ht).1 hvalue⟩
  · rintro ⟨owner, type, hwalks, ht, hsuits⟩
    have hd := hr.names owner (h.registered ▸ hwalks.mem hs)
    refine ⟨owner, resolve_iff_leads.2 ((h.leads_iff_walks hr hs).2 hwalks), ?_,
      (compileValue_isOk_iff hd ht).2 hsuits⟩
    simpa using Schema.hasField_iff.2 (Schema.exists_fieldType_iff.1 ⟨type, ht⟩)

/-! ## Include trees -/

/-- A node is found where it is placed, and the others stay. -/
theorem find?_place {node : IncludeNode} {nodes : List IncludeNode} {name : String} :
    (place node nodes).find? (·.relationship = name) =
      if node.relationship = name then some node else nodes.find? (·.relationship = name) := by
  induction nodes with
  | nil =>
    rw [place, List.find?_singleton]
    simp
  | cons n rest ih =>
    unfold place
    by_cases hn : n.relationship = node.relationship
    · rw [if_pos hn]
      by_cases hname : node.relationship = name
      · simp [hname]
      · simp [hname, hn]
    · rw [if_neg hn, List.find?_cons, List.find?_cons, ih]
      by_cases hname : n.relationship = name
      · have hne : node.relationship ≠ name := fun he => hn (hname.trans he.symm)
        simp [hname, hne]
      · simp [hname]

/-- What is found along a path in a forest is found below its first node. -/
theorem find?_cons {nodes : List IncludeNode} {name : String} {rest : List String} :
    IncludeNode.find? nodes (name :: rest) = (nodes.find? (·.relationship = name)).bind
      fun node => if rest.isEmpty then some node else IncludeNode.find? node.nested rest := by
  rw [IncludeNode.find?]
  cases nodes.find? (·.relationship = name) <;> rfl

/-- A tree is grown without an error along the paths that lead somewhere. -/
theorem grow_eq_none_iff {path : String} {names : List String} {nodes : List IncludeNode} :
    (grow r path schema names nodes).2 = none ↔ ∃ owner, r.Leads schema names owner := by
  induction names generalizing schema nodes with
  | nil => exact iff_of_true rfl ⟨schema, .here schema⟩
  | cons name rest ih =>
    unfold grow
    cases ha : r.association? schema name with
    | none =>
      refine iff_of_false (Option.some_ne_none _) ?_
      rintro ⟨owner, _ | ⟨hfound, -⟩⟩
      rw [ha] at hfound
      cases hfound
    | some a =>
      dsimp only
      rw [ih]
      constructor
      · rintro ⟨owner, hl⟩
        exact ⟨owner, .along ha hl⟩
      · rintro ⟨owner, _ | ⟨hfound, hl⟩⟩
        obtain rfl := Option.some.inj (ha.symm.trans hfound)
        exact ⟨owner, hl⟩

/-- The node that a path continues from, which may be there already. -/
theorem exists_entered (nodes : List IncludeNode) (name target : String) :
    ∃ t selection nested, (nodes.find? (·.relationship = name)).getD (.leaf name target) =
      .mk name t selection nested ∧ ∀ more, more ≠ [] →
        IncludeNode.find? nodes (name :: more) = IncludeNode.find? nested more := by
  have hfind {more : List String} (hmore : more ≠ []) : IncludeNode.find? nodes (name :: more) =
      (nodes.find? (·.relationship = name)).bind (IncludeNode.find? ·.nested more) := by
    rw [find?_cons, List.isEmpty_eq_false_iff.2 hmore]
    rfl
  cases hf : nodes.find? (·.relationship = name) with
  | none =>
    refine ⟨target, .all, [], rfl, fun more hmore => ?_⟩
    obtain ⟨first, rest, rfl⟩ := List.exists_cons_of_ne_nil hmore
    rw [hfind hmore, hf]
    rfl
  | some node =>
    obtain ⟨relationship, t, selection, nested⟩ := node
    have hname := List.find?_some hf
    obtain rfl : relationship = name := of_decide_eq_true hname
    exact ⟨t, selection, nested, rfl, fun more hmore => by rw [hfind hmore, hf]; rfl⟩

/-- A grown tree has the nodes that were there, and those of the beginnings of the path. -/
theorem find?_grow {path : String} {names target : List String} {nodes : List IncludeNode}
    (hl : ∃ owner, r.Leads schema names owner) (ht : target ≠ []) :
    (IncludeNode.find? (grow r path schema names nodes).1 target).isSome ↔
      (IncludeNode.find? nodes target).isSome ∨ target <+: names := by
  induction names generalizing schema nodes target with
  | nil => simp [grow, ht]
  | @cons name rest ih =>
    obtain ⟨owner, _ | @⟨_, _, _, _, a, ha, hl⟩⟩ := hl
    obtain ⟨first, more, rfl⟩ := List.exists_cons_of_ne_nil ht
    obtain ⟨t, selection, nested, hentered, hbelow⟩ :=
      exists_entered nodes name a.target.fullName
    have hgrown : (grow r path schema (name :: rest) nodes).1 =
        place (.mk name t selection (grow r path a.target rest nested).1) nodes := by
      rw [grow, ha]
      dsimp only
      rw [hentered]
      rfl
    rw [hgrown, find?_cons, find?_place, List.cons_prefix_cons, IncludeNode.relationship]
    by_cases hfirst : first = name
    · rw [if_pos hfirst.symm, Option.bind_some, hfirst]
      cases more with
      | nil => simp
      | cons second more =>
        rw [hbelow _ (List.cons_ne_nil second more), if_neg (by simp)]
        simpa [IncludeNode.nested] using ih ⟨owner, hl⟩ (List.cons_ne_nil second more)
    · rw [find?_cons, if_neg fun he => hfirst he.symm]
      simp [hfirst]

/-- Adds a path to a tree, and its error to the errors of the paths before. -/
def addPath (r : Registry) (schema : Schema) (start : List IncludeNode × List PlanError)
    (path : String) : List IncludeNode × List PlanError :=
  let (nodes, error) := grow r path schema (Text.pieces '.' path) start.1
  (nodes, start.2 ++ error.toList)

theorem foldl_addPath_eq_nil_iff {paths : List String} {start : List IncludeNode × List PlanError} :
    (paths.foldl (addPath r schema) start).2 = [] ↔
      start.2 = [] ∧ ∀ path ∈ paths, ∃ owner, r.Leads schema (Text.pieces '.' path) owner := by
  induction paths generalizing start with
  | nil => simp
  | cons path rest ih =>
    have hpath : (grow r path schema (Text.pieces '.' path) start.1).2 = none ↔ _ :=
      grow_eq_none_iff
    rw [List.foldl_cons, ih, List.forall_mem_cons, ← hpath, addPath]
    simp [and_assoc]

theorem find?_foldl_addPath {paths target : List String} (ht : target ≠ [])
    {start : List IncludeNode × List PlanError}
    (hl : ∀ path ∈ paths, ∃ owner, r.Leads schema (Text.pieces '.' path) owner) :
    (IncludeNode.find? (paths.foldl (addPath r schema) start).1 target).isSome ↔
      (IncludeNode.find? start.1 target).isSome ∨
        ∃ path ∈ paths, target <+: Text.pieces '.' path := by
  induction paths generalizing start with
  | nil => simp
  | cons path rest ih =>
    obtain ⟨hpath, hrest⟩ := List.forall_mem_cons.1 hl
    rw [List.foldl_cons, ih hrest, addPath]
    dsimp only
    rw [find?_grow hpath ht, List.exists_mem_cons_iff, or_assoc]

theorem compileInclude_eq_foldl {paths : List String} (hp : paths ≠ [])
    (ha : r.associationsOf schema ≠ []) :
    compileInclude r schema paths = paths.foldl (addPath r schema) ([], []) := by
  rw [compileInclude, if_neg (by simpa using hp), if_neg (by simpa using ha)]
  rfl

/-- Include paths have no errors if each of them leads somewhere. -/
theorem compileInclude_eq_nil_iff {paths : List String} :
    (compileInclude r schema paths).2 = [] ↔ paths = [] ∨ r.associationsOf schema ≠ [] ∧
      ∀ path ∈ paths, ∃ owner, r.Leads schema (Text.pieces '.' path) owner := by
  by_cases hp : paths = []
  · exact iff_of_true (by rw [hp]; rfl) (.inl hp)
  by_cases ha : r.associationsOf schema = []
  · rw [compileInclude, if_neg (by simpa using hp), if_pos (by simpa using ha)]
    simp [hp, ha]
  · rw [compileInclude_eq_foldl hp ha, foldl_addPath_eq_nil_iff]
    simp [hp, ha]

/-- Without errors, the include tree has the beginnings of the include paths. -/
theorem find?_compileInclude {paths target : List String}
    (h : (compileInclude r schema paths).2 = []) (ht : target ≠ []) :
    (IncludeNode.find? (compileInclude r schema paths).1 target).isSome ↔
      ∃ path ∈ paths, target <+: Text.pieces '.' path := by
  obtain ⟨first, more, rfl⟩ := List.exists_cons_of_ne_nil ht
  rcases compileInclude_eq_nil_iff.1 h with rfl | ⟨ha, hl⟩
  · simp [compileInclude, IncludeNode.find?]
  · by_cases hp : paths = []
    · subst hp
      simp [compileInclude, IncludeNode.find?]
    · rw [compileInclude_eq_foldl hp ha, find?_foldl_addPath ht hl]
      simp [IncludeNode.find?]

/-! ## Sort keys and pages -/

theorem compileSortKey_isOk_iff (h : r.Indexes schemas) (hr : r.Coherent) (hs : schema ∈ schemas)
    {includes : List String} (hi : (compileInclude r schema includes).2 = []) {param : SortParam} :
    (∃ key, compileSortKey r schema (compileInclude r schema includes).1 param = .ok key) ↔
      param.Accepted schemas schema includes := by
  unfold compileSortKey SortParam.Accepted
  simp only [exists_bind_eq_ok_iff]
  simp only [exists_guard_eq_ok_iff, pure_eq_ok, exists_eq', and_true]
  refine exists_congr fun owner => ?_
  rw [resolve_iff_leads, h.leads_iff_walks hr hs, ← Schema.hasField_iff]
  have hincluded : ¬ (!(Path.ofText param.field).relationships.isEmpty &&
      (IncludeNode.find? (compileInclude r schema includes).1
        (Path.ofText param.field).relationships).isNone) = true ↔
      (Path.ofText param.field).relationships = [] ∨ ∃ path ∈ includes,
        (Path.ofText param.field).relationships <+: Text.pieces '.' path := by
    by_cases hempty : (Path.ofText param.field).relationships = []
    · simp [hempty]
    · rw [← find?_compileInclude hi hempty]
      simp [hempty, Option.isSome_iff_ne_none]
  rw [hincluded]
  simp [and_comm]

theorem positive?_isSome_iff {raw : String} :
    (∃ n, positive? raw = some n) ↔ Text.Numeral.IsPositive raw := by
  simp only [positive?, Option.filter_eq_some_iff, Text.Numeral.nat?_eq_some_iff]
  constructor
  · rintro ⟨_, ⟨digits, hne, hdigits, hraw, rfl, hle⟩, hpos⟩
    exact ⟨digits, hne, hdigits, hraw, of_decide_eq_true hpos, hle⟩
  · rintro ⟨digits, hne, hdigits, hraw, hpos, hle⟩
    exact ⟨_, ⟨digits, hne, hdigits, hraw, rfl, hle⟩, decide_eq_true hpos⟩

theorem compilePage_eq_nil_iff {number size : Option String} :
    (compilePage number size).2 = [] ↔ (number = none ∧ size = none) ∨
      ∃ n s, number = some n ∧ size = some s ∧ Text.Numeral.IsPositive n ∧
        Text.Numeral.IsPositive s := by
  simp only [← positive?_isSome_iff]
  cases number with
  | none => cases size <;> simp [compilePage]
  | some number =>
    cases size with
    | none => simp [compilePage]
    | some size =>
      cases hn : positive? number <;> cases hs : positive? size <;> simp [compilePage, hn, hs]

/-! ## Compiling -/

/-- Parameters are compiled if no section has an error. -/
theorem compile_isOk_iff {params : Params} {id : Option String} :
    (∃ plan, compile r schema params id = .ok plan) ↔
      (sortOut (params.fields.map (compileSelection r))).1.flatten = [] ∧
      (sortOut (id.toList.map (compileId schema) ++
        params.filters.map (compileCondition r schema))).1 = [] ∧
      (compileInclude r schema params.includes).2 = [] ∧
      (sortOut (params.sort.map
        (compileSortKey r schema (compileInclude r schema params.includes).1))).1 = [] ∧
      (compilePage params.pageNumber params.pageSize).2 = [] := by
  unfold compile
  dsimp only
  split
  · rename_i h
    simp only [List.isEmpty_iff, List.append_eq_nil_iff, and_assoc] at h
    exact iff_of_true ⟨_, rfl⟩ h
  · rename_i h
    simp only [List.isEmpty_iff, List.append_eq_nil_iff, and_assoc] at h
    exact iff_of_false nofun h

/-- Parameters that are not compiled have errors. -/
theorem ne_nil_of_compile {params : Params} {id : Option String} {errors : List PlanError}
    (h : compile r schema params id = .error errors) : errors ≠ [] := by
  unfold compile at h
  dsimp only at h
  split at h
  · cases h
  · rename_i hsome
    cases h
    simpa using hsome

/-- **Parameters are compiled exactly when they are accepted.** -/
theorem compiles_iff_accepted (h : Registry.assemble schemas = .ok r) (hs : schema ∈ schemas)
    (params : Params) (id : Option String) :
    ((∃ plan, compile r schema params id = .ok plan) ↔ params.Accepted schemas schema id) ∧
      (¬ params.Accepted schemas schema id →
        ∃ errors, errors ≠ [] ∧ compile r schema params id = .error errors) := by
  have hindexes := Registry.indexes_of_assemble h
  have hr := Registry.coherent_of_assemble h
  have hiff : (∃ plan, compile r schema params id = .ok plan) ↔
      params.Accepted schemas schema id := by
    have hassociations : r.associationsOf schema ≠ [] ↔ schema.relationships ≠ [] := by
      rw [← List.length_pos_iff, ← List.length_pos_iff, (hindexes.declared schema hs).length_eq]
    have hincludes : (compileInclude r schema params.includes).2 = [] ↔ params.includes = [] ∨
        schema.relationships ≠ [] ∧ ∀ path ∈ params.includes,
          ∃ owner, schema.Walks schemas (Text.pieces '.' path) owner := by
      simp only [compileInclude_eq_nil_iff, hindexes.leads_iff_walks hr hs, hassociations]
    rw [compile_isOk_iff, flatten_sortOut_eq_nil_iff hindexes hr, sortOut_eq_nil_iff,
      sortOut_eq_nil_iff, compilePage_eq_nil_iff]
    simp only [List.mem_append, or_imp, forall_and, List.mem_map, forall_exists_index, and_imp,
      forall_apply_eq_imp_iff₂, Option.mem_toList, compileId_isOk_iff,
      compileCondition_isOk_iff hindexes hr hs]
    constructor
    · rintro ⟨hfields, ⟨hid, hfilters⟩, hi, hsort, hpage⟩
      exact ⟨hid, hfields, hfilters, hincludes.1 hi, fun param hm =>
        (compileSortKey_isOk_iff hindexes hr hs hi).1 (hsort param hm), hpage⟩
    · rintro ⟨hid, hfields, hfilters, hi, hsort, hpage⟩
      exact ⟨hfields, ⟨hid, hfilters⟩, hincludes.2 hi, fun param hm =>
        (compileSortKey_isOk_iff hindexes hr hs (hincludes.2 hi)).2 (hsort param hm), hpage⟩
  refine ⟨hiff, fun hnot => ?_⟩
  cases hc : compile r schema params id with
  | ok plan => exact absurd (hiff.1 ⟨plan, hc⟩) hnot
  | error errors => exact ⟨errors, ne_nil_of_compile hc, rfl⟩

/-- Users with what they have to do, sorted by its key, and the second page of them. -/
def byTodo : Params where
  sort := [⟨"todos.id", .desc⟩]
  includes := ["todos"]
  pageNumber := some "+2"
  pageSize := some "10"

/-- To sort by what users have to do, it has to be included. -/
theorem accepted_byTodo :
    Registry.assemble [todo, adminUser, user] = .ok duties ∧ user ∈ [todo, adminUser, user] ∧
      byTodo.Accepted [todo, adminUser, user] user none ∧
      ¬ { byTodo with includes := [] }.Accepted [todo, adminUser, user] user none := by
  have hs : user ∈ [todo, adminUser, user] := by simp
  have hplan : (compile duties user byTodo none).toOption.isSome := by decide +kernel
  have hnone : (compile duties user { byTodo with includes := [] } none).toOption.isSome = false := by
    decide +kernel
  refine ⟨Registry.assemble_duties, hs,
    (compiles_iff_accepted Registry.assemble_duties hs byTodo none).1.1 ?_, fun haccepted => ?_⟩
  · cases hc : compile duties user byTodo none with
    | ok plan => exact ⟨plan, rfl⟩
    | error errors => simp [hc, Except.toOption] at hplan
  · obtain ⟨plan, hc⟩ :=
      (compiles_iff_accepted Registry.assemble_duties hs _ none).1.2 haccepted
    simp [hc, Except.toOption] at hnone

end Plan

end ResourceApi
