import ResourceApi.Proofs.Schema.Assembly
import ResourceApi.Query.Compile

/-!
# Resolved plans

A plan *resolves* in a registry when every name in it stands for something: each path of its filter
and of its sort keys leads through associations to a field, each include node follows an
association and reads fields of its target, and operators on lists come with lists.

**Theorem (`Plan.resolves_of_ofQuery`).** Every plan that a query string compiles to resolves. With
an identifier, the name of the primary key is read as a path, so it must have no dots
(`Schema.Addressable`).

The include tree is built path by path and then narrowed by the fields parameters. Both keep it
resolved, so this is an induction over the path for the first and over the tree for the second.
-/

namespace ResourceApi

/-! ## What resolves -/

/-- The path leads to a field. -/
def Path.Resolves (r : Registry) (schema : Schema) (p : Path) : Prop :=
  ∃ owner, r.Leads schema p.relationships owner ∧ owner.hasField p.field

/-- The path leads to a field, and there is a value that suits the operator. -/
structure Condition.Resolves (r : Registry) (schema : Schema) (c : Condition) : Prop where
  path : c.path.Resolves r schema
  value : c.value ≠ .null
  list : c.operator.takesArray → ∃ values, c.value = .arr values

mutual

/-- Every condition of the tree resolves. -/
def Predicate.Resolves (r : Registry) (schema : Schema) : Predicate → Prop
  | .condition c => c.Resolves r schema
  | .all children => Predicate.AllResolve r schema children
  | .any children => Predicate.AllResolve r schema children

/-- Every condition of several trees resolves. -/
def Predicate.AllResolve (r : Registry) (schema : Schema) : List Predicate → Prop
  | [] => True
  | child :: rest => Predicate.Resolves r schema child ∧ Predicate.AllResolve r schema rest

end

mutual

/-- The node follows an association of the schema and reads fields of its target, and so do the
nodes below. -/
def IncludeNode.Resolves (r : Registry) : Schema → IncludeNode → Prop
  | schema, .mk relationship target selection nested =>
    ∃ a, r.association? schema relationship = some a ∧ target = a.target.fullName ∧
      (∀ field ∈ selection.names a.target, a.target.hasField field) ∧
      IncludeNode.AllResolve r a.target nested

/-- Every node of a forest resolves. -/
def IncludeNode.AllResolve (r : Registry) : Schema → List IncludeNode → Prop
  | _, [] => True
  | schema, node :: rest =>
    IncludeNode.Resolves r schema node ∧ IncludeNode.AllResolve r schema rest

end

mutual

/-- No condition of the tree compares with null. -/
def Predicate.Valued : Predicate → Prop
  | .condition c => c.value ≠ .null
  | .all children => Predicate.AllValued children
  | .any children => Predicate.AllValued children

/-- No condition of several trees compares with null. -/
def Predicate.AllValued : List Predicate → Prop
  | [] => True
  | child :: rest => Predicate.Valued child ∧ Predicate.AllValued rest

end

/-- Every name in the plan stands for something. -/
structure Plan.Resolves (r : Registry) (schema : Schema) (plan : Plan) : Prop where
  attributes : ∀ field ∈ plan.attributes.names schema, schema.hasField field
  filter : plan.filter.Resolves r schema
  includes : IncludeNode.AllResolve r schema plan.includes
  sort : ∀ key ∈ plan.sort, key.path.Resolves r schema

/-- What the plan reads of rows stands for something, and its filter compares with values. -/
structure Plan.Reads (r : Registry) (schema : Schema) (plan : Plan) : Prop where
  attributes : ∀ field ∈ plan.attributes.names schema, schema.hasField field
  filter : plan.filter.Valued
  includes : IncludeNode.AllResolve r schema plan.includes

theorem Predicate.allValued_iff {children : List Predicate} :
    AllValued children ↔ ∀ child ∈ children, child.Valued := by
  induction children with
  | nil => simp [AllValued]
  | cons child rest ih => simp [AllValued, ih]

mutual

theorem Predicate.Resolves.valued {r : Registry} {schema : Schema} :
    ∀ {p : Predicate}, p.Resolves r schema → p.Valued
  | .condition _, h => h.value
  | .all _, h | .any _, h => Predicate.AllResolve.allValued h

theorem Predicate.AllResolve.allValued {r : Registry} {schema : Schema} :
    ∀ {children : List Predicate}, Predicate.AllResolve r schema children →
    Predicate.AllValued children
  | [], _ => trivial
  | _ :: _, ⟨hchild, hrest⟩ =>
    ⟨Predicate.Resolves.valued hchild, Predicate.AllResolve.allValued hrest⟩

end

theorem Plan.Resolves.reads {r : Registry} {schema : Schema} {plan : Plan}
    (h : plan.Resolves r schema) : plan.Reads r schema :=
  ⟨h.attributes, h.filter.valued, h.includes⟩

theorem Predicate.allResolve_iff {r : Registry} {schema : Schema} {children : List Predicate} :
    AllResolve r schema children ↔ ∀ child ∈ children, child.Resolves r schema := by
  induction children with
  | nil => simp [AllResolve]
  | cons child rest ih => simp [AllResolve, ih]

theorem IncludeNode.allResolve_iff {r : Registry} {schema : Schema} {nodes : List IncludeNode} :
    AllResolve r schema nodes ↔ ∀ node ∈ nodes, node.Resolves r schema := by
  induction nodes with
  | nil => simp [AllResolve]
  | cons node rest ih => simp [AllResolve, ih]

/-- The relationship of a node that resolves is no field. -/
theorem IncludeNode.Resolves.hasField_relationship {r : Registry} {schema : Schema}
    {node : IncludeNode} (h : node.Resolves r schema) (hr : r.Coherent) (hs : schema ∈ r.schemas) :
    schema.hasField node.relationship = false := by
  obtain ⟨relationship, target, selection, nested⟩ := node
  obtain ⟨a, ha, -⟩ := h
  obtain ⟨hm, -, rfl⟩ := Registry.mem_of_association? ha
  obtain ⟨rfl, -⟩ := hr.of_association? hs ha
  exact (hr.names a.source hs).disjoint _ (hr.declared a hm)

/-! ## Fields -/

theorem Schema.hasField_idField (schema : Schema) : schema.hasField schema.idField := by
  simp [hasField]

theorem Schema.hasField_of_mem {schema : Schema} {field : String} (h : field ∈ schema.allFields) :
    schema.hasField field :=
  hasField_iff.2 h

/-- The name of the primary key is a path to it: there is no dot in it. -/
def Schema.Addressable (schema : Schema) : Prop := '.' ∉ schema.idField.toList

instance (schema : Schema) : Decidable schema.Addressable :=
  inferInstanceAs (Decidable ('.' ∉ schema.idField.toList))

/-- A name without dots leads to the field of that name. -/
theorem Path.ofText_of_notMem {name : String} (h : '.' ∉ name.toList) :
    Path.ofText name = ⟨[], name⟩ := by
  rw [ofText, Text.pieces, Text.splitOn_of_notMem h]
  simp [ofParts]

theorem Predicate.idIs_eq {schema : Schema} (h : schema.Addressable) (id : Json) :
    Predicate.idIs schema id = .condition ⟨⟨[], schema.idField⟩, .eq, id⟩ := by
  rw [idIs, Path.ofText_of_notMem h]

namespace Plan

variable {r : Registry} {schema : Schema}

theorem mem_of_mem_foldl {names found : List String} {name : String}
    (h : name ∈ names.foldl (fun found name => if name ∈ found then found else found ++ [name])
      found) : name ∈ found ∨ name ∈ names := by
  induction names generalizing found with
  | nil => exact .inl h
  | cons n rest ih =>
    rcases ih h with hf | hr
    · dsimp only at hf
      split at hf
      · exact .inl hf
      · rcases List.mem_append.1 hf with hf | hf
        · exact .inl hf
        · exact .inr (by simp [List.mem_singleton.1 hf])
    · exact .inr (by simp [hr])

theorem mem_of_mem_distinct {names : List String} {name : String} (h : name ∈ distinct names) :
    name ∈ names := by
  simpa using mem_of_mem_foldl h

/-! ## Conditions and sort keys -/

theorem leads_of_resolve {parameter : String} {names : List String} {owner : Schema}
    (h : resolve r parameter schema names = .ok owner) : r.Leads schema names owner := by
  induction names generalizing schema with
  | nil =>
    cases h
    exact .here owner
  | cons name rest ih =>
    unfold resolve at h
    cases ha : r.association? schema name with
    | none =>
      rw [ha] at h
      cases h
    | some a =>
      rw [ha] at h
      exact .along ha (ih h)

theorem compileValue_takesArray {owner : Schema} {field : String} {param : FilterParam}
    {value : Json} (h : compileValue owner field param = .ok value)
    (ho : param.operator.takesArray) : ∃ values, value = .arr values := by
  unfold compileValue at h
  rw [if_pos ho] at h
  obtain ⟨values, -, h⟩ := bind_eq_ok.1 h
  exact ⟨values, (pure_eq_ok.1 h).symm⟩

theorem ne_null_of_ofText? {type : AttributeType} {raw : String} {value : Json}
    (h : type.ofText? raw = some value) : value ≠ .null := by
  rintro rfl
  unfold AttributeType.ofText? at h
  cases type <;> simp at h
  split at h <;> simp at h

theorem ne_null_of_parseId? {raw : String} {id : Json} (h : schema.parseId? raw = some id) :
    id ≠ .null := by
  rintro rfl
  unfold Schema.parseId? at h
  split at h <;> simp at h

theorem ne_null_of_coerceText {field raw : String} {value : Json}
    (h : schema.coerceText field raw = .ok value) : value ≠ .null := by
  unfold Schema.coerceText at h
  split at h
  · split at h
    · rename_i hid
      cases h
      exact ne_null_of_parseId? hid
    · cases h
  · split at h
    · cases h
    · split at h
      · rename_i hvalue
        cases h
        exact ne_null_of_ofText? hvalue
      · cases h

/-- Values of filters are never null. -/
theorem ne_null_of_compileValue {owner : Schema} {field : String} {param : FilterParam}
    {value : Json} (h : compileValue owner field param = .ok value) : value ≠ .null := by
  unfold compileValue at h
  by_cases ho : param.operator.takesArray
  · rw [if_pos ho] at h
    obtain ⟨values, -, h⟩ := bind_eq_ok.1 h
    rw [← pure_eq_ok.1 h]
    nofun
  · rw [if_neg ho] at h
    dsimp only at h
    cases hv : param.values with
    | nil =>
      rw [hv] at h
      cases h
    | cons raw rest =>
      cases rest with
      | cons _ _ =>
        rw [hv] at h
        cases h
      | nil =>
        rw [hv] at h
        dsimp only at h
        split at h
        · cases h
          nofun
        · exact ne_null_of_coerceText (mapError_eq_ok.1 h)

/-- A check that does not fail. -/
theorem guard_eq_ok {ε α : Type} {c : Prop} [Decidable c] {e : ε} {rest : Unit → Except ε α} {a : α}
    (h : (if c then (throw e : Except ε Unit) >>= rest else rest ()) = .ok a) :
    ¬ c ∧ rest () = .ok a := by
  split at h
  · obtain ⟨_, h, -⟩ := bind_eq_ok.1 h
    cases h
  · exact ⟨‹_›, h⟩

theorem resolves_compileCondition {param : FilterParam} {p : Predicate}
    (h : compileCondition r schema param = .ok p) : p.Resolves r schema := by
  unfold compileCondition at h
  obtain ⟨owner, howner, h⟩ := bind_eq_ok.1 h
  obtain ⟨hfield, h⟩ := guard_eq_ok h
  obtain ⟨value, hvalue, h⟩ := bind_eq_ok.1 h
  obtain rfl := pure_eq_ok.1 h
  exact ⟨⟨owner, leads_of_resolve howner, by simpa using hfield⟩,
    ne_null_of_compileValue hvalue, compileValue_takesArray hvalue⟩

theorem valued_compileId {raw : String} {p : Predicate} (h : compileId schema raw = .ok p) :
    p.Valued := by
  unfold compileId at h
  split at h
  · rename_i hid
    cases h
    exact ne_null_of_parseId? hid
  · cases h

theorem resolves_compileId (ha : schema.Addressable) {raw : String} {p : Predicate}
    (h : compileId schema raw = .ok p) : p.Resolves r schema := by
  unfold compileId at h
  split at h
  · rename_i hid
    cases h
    rw [Predicate.idIs_eq ha]
    exact ⟨⟨schema, .here schema, schema.hasField_idField⟩, ne_null_of_parseId? hid, nofun⟩
  · cases h

theorem resolves_compileSortKey {nodes : List IncludeNode} {param : SortParam} {key : SortKey}
    (h : compileSortKey r schema nodes param = .ok key) : key.path.Resolves r schema := by
  unfold compileSortKey at h
  obtain ⟨owner, howner, h⟩ := bind_eq_ok.1 h
  obtain ⟨-, h⟩ := guard_eq_ok h
  obtain ⟨hfield, h⟩ := guard_eq_ok h
  obtain rfl := pure_eq_ok.1 h
  exact ⟨owner, leads_of_resolve howner, by simpa using hfield⟩

/-! ## Include trees -/

theorem mem_place {node n : IncludeNode} {nodes : List IncludeNode} (h : n ∈ place node nodes) :
    n = node ∨ n ∈ nodes := by
  induction nodes with
  | nil => simpa [place] using h
  | cons m rest ih =>
    unfold place at h
    split at h
    · rcases List.mem_cons.1 h with h | h
      · exact .inl h
      · exact .inr (by simp [h])
    · rcases List.mem_cons.1 h with h | h
      · exact .inr (by simp [h])
      · rcases ih h with h | h
        · exact .inl h
        · exact .inr (by simp [h])

theorem resolves_leaf {a : Association} {name : String} (ha : r.association? schema name = some a) :
    (IncludeNode.leaf name a.target.fullName).Resolves r schema :=
  ⟨a, ha, rfl, fun _ h => Schema.hasField_of_mem h, trivial⟩

/-- The nodes below a resolved one are resolved at the target of its association. -/
theorem allResolve_nested {node : IncludeNode} {a : Association}
    (h : node.Resolves r schema) (ha : r.association? schema node.relationship = some a) :
    IncludeNode.AllResolve r a.target node.nested := by
  obtain ⟨relationship, target, selection, nested⟩ := node
  obtain ⟨b, hb, -, -, hn⟩ := h
  obtain rfl := Option.some.inj (hb.symm.trans ha)
  exact hn

/-- To add a path keeps a tree resolved. -/
theorem resolves_grow {path : String} {names : List String} {nodes : List IncludeNode}
    (h : IncludeNode.AllResolve r schema nodes) :
    IncludeNode.AllResolve r schema (grow r path schema names nodes).1 := by
  induction names generalizing schema nodes with
  | nil => exact h
  | cons name rest ih =>
    unfold grow
    cases ha : r.association? schema name with
    | none => exact h
    | some a =>
      dsimp only
      -- the node of the relationship, which may be there already
      have hnode : ∃ node, (nodes.find? (·.relationship = name)).getD
          (.leaf name a.target.fullName) = node ∧ node.Resolves r schema ∧
          node.relationship = name := by
        cases hf : nodes.find? (·.relationship = name) with
        | none => exact ⟨_, rfl, resolves_leaf ha, rfl⟩
        | some node =>
          exact ⟨node, rfl, IncludeNode.allResolve_iff.1 h node (List.mem_of_find?_eq_some hf),
            by simpa using List.find?_some hf⟩
      obtain ⟨node, hnode, hr, hn⟩ := hnode
      rw [hnode, IncludeNode.allResolve_iff]
      intro m hm
      rcases mem_place hm with rfl | hm
      · have hnested := ih (allResolve_nested hr (hn ▸ ha))
        obtain ⟨relationship, target, selection, nested⟩ := node
        obtain ⟨b, hb, ht, hs, -⟩ := hr
        obtain rfl : relationship = name := hn
        obtain rfl := Option.some.inj (hb.symm.trans ha)
        exact ⟨b, hb, ht, hs, hnested⟩
      · exact IncludeNode.allResolve_iff.1 h m hm

/-- What every path keeps holds of include trees. -/
theorem of_compileInclude {P : List IncludeNode → Prop} (hnil : P [])
    (hgrow : ∀ path names nodes, P nodes → P (grow r path schema names nodes).1)
    {paths : List String} : P (compileInclude r schema paths).1 := by
  unfold compileInclude
  split
  · exact hnil
  split
  · exact hnil
  refine List.foldlRecOn paths _
    (motive := fun start : List IncludeNode × List PlanError => P start.1) hnil ?_
  intro start h path _
  exact hgrow path _ start.1 h

theorem resolves_compileInclude {paths : List String} :
    IncludeNode.AllResolve r schema (compileInclude r schema paths).1 :=
  of_compileInclude (P := IncludeNode.AllResolve r schema) trivial fun _ _ _ => resolves_grow

/-! ## Selections -/

/-- The names are fields of the schema of a full name. -/
def FieldsOf (r : Registry) (selection : String × List String) : Prop :=
  ∀ schema ∈ r.schemas, schema.fullName = selection.1 → ∀ field ∈ selection.2, schema.hasField field

theorem fieldsOf_compileSelection (hr : r.Coherent) {param : FieldsParam}
    {selection : String × List String} (h : compileSelection r param = .ok selection) :
    FieldsOf r selection := by
  unfold compileSelection at h
  cases ht : r.schema? param.typeName with
  | none =>
    rw [ht] at h
    cases h
  | some target =>
    rw [ht] at h
    dsimp only at h
    split at h
    · rename_i hnone
      have hfields : ∀ field ∈ param.names, target.hasField field := by
        simpa [List.filter_eq_nil_iff] using hnone
      cases h
      intro schema hs hn field hf
      obtain rfl := hr.eq_of_fullName hs (Registry.mem_of_schema? ht).1 hn
      have hfield : field ∈ param.names ∨ field = schema.idField := by
        split at hf
        · exact .inl (mem_of_mem_distinct hf)
        · rcases List.mem_append.1 hf with hf | hf
          · exact .inl (mem_of_mem_distinct hf)
          · exact .inr (List.mem_singleton.1 hf)
      rcases hfield with hf | rfl
      · exact hfields field hf
      · exact schema.hasField_idField
    · cases h

mutual

/-- To narrow a selection to fields keeps a node resolved. -/
theorem resolves_select (hr : r.Coherent) {target : String} {names : List String}
    (hf : FieldsOf r (target, names)) : ∀ {schema : Schema} {node : IncludeNode},
    node.Resolves r schema → (select target names node).Resolves r schema
  | schema, .mk relationship t selection nested, ⟨a, ha, ht, hs, hn⟩ => by
    refine ⟨a, ha, ht, ?_, resolves_selectAll hr hf hn⟩
    split
    · rename_i he
      exact hf a.target (hr.target a (Registry.mem_of_association? ha).1) (ht.symm.trans he)
    · exact hs

/-- To narrow a selection to fields keeps a forest resolved. -/
theorem resolves_selectAll (hr : r.Coherent) {target : String} {names : List String}
    (hf : FieldsOf r (target, names)) : ∀ {schema : Schema} {nodes : List IncludeNode},
    IncludeNode.AllResolve r schema nodes →
    IncludeNode.AllResolve r schema (selectAll target names nodes)
  | _, [], _ => trivial
  | _, _ :: _, ⟨hnode, hrest⟩ => ⟨resolves_select hr hf hnode, resolves_selectAll hr hf hrest⟩

end

/-! ## Plans -/

/-- The parts of a compiled plan. -/
theorem parts_of_compile {params : Params} {id : Option String} {plan : Plan}
    (h : compile r schema params id = .ok plan) :
    plan.attributes = (sortOut (params.fields.map (compileSelection r))).2.foldl
        (fun root (target, names) =>
          if target = schema.fullName then Selection.only names else root) .all ∧
      plan.filter = .all (sortOut (id.toList.map (compileId schema) ++
        params.filters.map (compileCondition r schema))).2 ∧
      plan.includes = (sortOut (params.fields.map (compileSelection r))).2.foldl
        (fun nodes (target, names) => selectAll target names nodes)
        (compileInclude r schema params.includes).1 ∧
      plan.sort = (sortOut (params.sort.map
        (compileSortKey r schema (compileInclude r schema params.includes).1))).2 := by
  unfold compile at h
  dsimp only at h
  split at h
  · cases h
    exact ⟨rfl, rfl, rfl, rfl⟩
  · cases h

/-- The filter of a compiled plan is a conjunction. -/
theorem filter_ne_any_of_compile {params : Params} {id : Option String} {plan : Plan}
    (h : compile r schema params id = .ok plan) : plan.filter ≠ .any [] := by
  rw [(parts_of_compile h).2.1]
  nofun

/-- The last selection of the root's own fields counts. -/
theorem of_selections {P : Selection → Prop} {selections : List (String × List String)}
    (h : ∀ selection ∈ selections, selection.1 = schema.fullName → P (.only selection.2))
    {start : Selection} (hstart : P start) :
    P (selections.foldl (fun root (target, names) =>
      if target = schema.fullName then Selection.only names else root) start) := by
  induction selections generalizing start with
  | nil => exact hstart
  | cons selection rest ih =>
    refine ih (fun s hm => h s (List.mem_cons_of_mem _ hm)) ?_
    dsimp only
    split
    · rename_i he
      exact h selection List.mem_cons_self he
    · exact hstart

theorem allResolve_foldl (hr : r.Coherent) {selections : List (String × List String)}
    (h : ∀ selection ∈ selections, FieldsOf r selection) {start : List IncludeNode}
    (hstart : IncludeNode.AllResolve r schema start) :
    IncludeNode.AllResolve r schema (selections.foldl (fun nodes (target, names) =>
      selectAll target names nodes) start) := by
  induction selections generalizing start with
  | nil => exact hstart
  | cons selection rest ih =>
    have hselected := resolves_selectAll hr (h selection List.mem_cons_self) hstart
    exact ih (fun s hm => h s (List.mem_cons_of_mem _ hm)) hselected

/-- A compiled plan reads what stands for something. -/
theorem reads_compile (hr : r.Coherent) (hs : schema ∈ r.schemas) {params : Params}
    {id : Option String} {plan : Plan} (h : compile r schema params id = .ok plan) :
    plan.Reads r schema := by
  have hselections : ∀ selection ∈ (sortOut (params.fields.map (compileSelection r))).2,
      FieldsOf r selection := by
    intro selection hm
    obtain ⟨param, -, hp⟩ := List.mem_map.1 (mem_of_mem_sortOut hm)
    exact fieldsOf_compileSelection hr hp
  obtain ⟨hattributes, hfilter, hincludes, -⟩ := parts_of_compile h
  refine ⟨?_, ?_, ?_⟩
  · rw [hattributes]
    refine of_selections (P := fun s => ∀ field ∈ s.names schema, schema.hasField field) ?_ ?_
    · intro selection hm hn
      exact hselections selection hm schema hs hn.symm
    · exact fun field hf => Schema.hasField_of_mem hf
  · rw [hfilter]
    refine Predicate.allValued_iff.2 ?_
    intro p hm
    rcases List.mem_append.1 (mem_of_mem_sortOut hm) with hm | hm
    · obtain ⟨raw, -, hp⟩ := List.mem_map.1 hm
      exact valued_compileId hp
    · obtain ⟨param, -, hp⟩ := List.mem_map.1 hm
      exact (resolves_compileCondition hp).valued
  · rw [hincludes]
    exact allResolve_foldl hr hselections resolves_compileInclude

theorem resolves_compile (hr : r.Coherent) (hs : schema ∈ r.schemas) {params : Params}
    {id : Option String} {plan : Plan} (hid : id = none ∨ schema.Addressable)
    (h : compile r schema params id = .ok plan) : plan.Resolves r schema := by
  obtain ⟨hattributes, -, hincludes⟩ := reads_compile hr hs h
  obtain ⟨-, hfilter, -, hsort⟩ := parts_of_compile h
  refine ⟨hattributes, ?_, hincludes, ?_⟩
  · rw [hfilter]
    refine Predicate.allResolve_iff.2 ?_
    intro p hm
    rcases List.mem_append.1 (mem_of_mem_sortOut hm) with hm | hm
    · obtain ⟨raw, hraw, hp⟩ := List.mem_map.1 hm
      rcases hid with rfl | ha
      · cases hraw
      · exact resolves_compileId ha hp
    · obtain ⟨param, -, hp⟩ := List.mem_map.1 hm
      exact resolves_compileCondition hp
  · intro key hm
    rw [hsort] at hm
    obtain ⟨param, -, hk⟩ := List.mem_map.1 (mem_of_mem_sortOut hm)
    exact resolves_compileSortKey hk

theorem idField_mem_compileSelection (hr : r.Coherent) (hs : schema ∈ r.schemas)
    {param : FieldsParam} {selection : String × List String}
    (h : compileSelection r param = .ok selection) (hn : selection.1 = schema.fullName) :
    schema.idField ∈ selection.2 := by
  unfold compileSelection at h
  cases ht : r.schema? param.typeName with
  | none =>
    rw [ht] at h
    cases h
  | some target =>
    rw [ht] at h
    dsimp only at h
    split at h
    · cases h
      obtain rfl := hr.eq_of_fullName (Registry.mem_of_schema? ht).1 hs hn
      dsimp only
      split
      · assumption
      · simp
    · cases h

theorem idField_mem_of_compile (hr : r.Coherent) (hs : schema ∈ r.schemas) {params : Params}
    {id : Option String} {plan : Plan} (h : compile r schema params id = .ok plan) :
    schema.idField ∈ plan.attributes.names schema := by
  rw [(parts_of_compile h).1]
  refine of_selections (P := fun s => schema.idField ∈ s.names schema) ?_ List.mem_cons_self
  intro selection hm hn
  obtain ⟨param, -, hp⟩ := List.mem_map.1 (mem_of_mem_sortOut hm)
  exact idField_mem_compileSelection hr hs hp hn

/-- A query string is read into parameters, and these are compiled. -/
theorem ofQuery_eq_ok {query : String} {id : Option String} {plan : Plan} :
    ofQuery r schema query id = .ok plan ↔
      ∃ params, Params.parse query = .ok params ∧ compile r schema params id = .ok plan := by
  unfold ofQuery
  cases Params.parse query with
  | error e => exact ⟨nofun, nofun⟩
  | ok params =>
    dsimp only
    rw [mapError_eq_ok]
    constructor
    · intro h
      exact ⟨params, rfl, h⟩
    · rintro ⟨_, hparams, h⟩
      obtain rfl := Except.ok.inj hparams
      exact h

/-- **The primary key is always read.** -/
theorem idField_mem_of_ofQuery (hr : r.Coherent) (hs : schema ∈ r.schemas) {query : String}
    {id : Option String} {plan : Plan} (h : ofQuery r schema query id = .ok plan) :
    schema.idField ∈ plan.attributes.names schema := by
  obtain ⟨params, -, hcompile⟩ := ofQuery_eq_ok.1 h
  exact idField_mem_of_compile hr hs hcompile

/-- **The filter is a conjunction.** -/
theorem filter_of_ofQuery {query : String} {id : Option String} {plan : Plan}
    (h : ofQuery r schema query id = .ok plan) : ∃ children, plan.filter = .all children := by
  obtain ⟨params, -, hcompile⟩ := ofQuery_eq_ok.1 h
  exact ⟨_, (parts_of_compile hcompile).2.1⟩

theorem reads_of_ofQuery (hr : r.Coherent) (hs : schema ∈ r.schemas) {query : String}
    {id : Option String} {plan : Plan} (h : ofQuery r schema query id = .ok plan) :
    plan.Reads r schema := by
  obtain ⟨params, -, hcompile⟩ := ofQuery_eq_ok.1 h
  exact reads_compile hr hs hcompile

/-- **Compiled plans resolve.** -/
theorem resolves_of_ofQuery (hr : r.Coherent) (hs : schema ∈ r.schemas) {query : String}
    {id : Option String} {plan : Plan} (hid : id = none ∨ schema.Addressable)
    (h : ofQuery r schema query id = .ok plan) : plan.Resolves r schema := by
  obtain ⟨params, -, hcompile⟩ := ofQuery_eq_ok.1 h
  exact resolves_compile hr hs hid hcompile

end Plan

/-! ## A key with a dotted name -/

/-- Notes whose primary key has a dot in its name. -/
def dottedNote : Schema where
  name := "Note"
  idField := "a.b"
  idType := .integer
  attributes := [{ name := "text", type := .string }]

/-- The registry of the notes. -/
def dottedNotes : Registry := ⟨[dottedNote], [], []⟩

theorem assemble_dottedNote : Registry.assemble [dottedNote] = .ok dottedNotes := by decide +kernel

end ResourceApi
