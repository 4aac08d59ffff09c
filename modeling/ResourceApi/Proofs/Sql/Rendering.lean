import ResourceApi.Proofs.Query.Resolution
import ResourceApi.Proofs.Sql.Runs

/-!
# Plans that resolve can be rendered

**Theorem (`Plan.renders_of_ofQuery`).** A plan that a query string compiles to resolves, it has a
query, the columns of that query stand for the selected attributes and then for the include nodes of
the plan, and its filter has a query that counts. If an identifier is given, the name of the primary
key must have no dots (`Plan.ofPlan_dottedNote`).

Compiling looks names up among the fields of a schema and rendering among the columns of its table.
The lemmas below follow the recursion of the rendering, one for each function: wherever the plan
resolves, the lookup succeeds, from whatever alias the counter has come to.
-/

namespace ResourceApi

namespace Rendering

variable {r : Registry} {schema : Schema}

/-! ## Names -/

theorem column_of_hasField {field : String} (h : schema.hasField field) :
    ∃ c, column r schema field = .ok c ∧ r.column? schema field = some c ∧ c.field = field := by
  obtain ⟨c, hc, hf⟩ := r.column?_of_hasField h
  exact ⟨c, by simp [column, hc], hc, hf⟩

theorem gives_join (a : Association) (target source : Nat) :
    Gives (join a target source) fun _ => True := by
  unfold join
  split
  · exact gives_pure trivial
  · exact gives_pure trivial
  · exact gives_pure trivial
  · exact gives_aliasId.bind fun _ _ => gives_pure trivial

/-! ## Conditions -/

/-- Every operator has a condition, if one on a list comes with a list. -/
theorem compare_eq_ok {c : ColumnRef} {operator : Operator} {value : Json}
    (h : operator.takesArray → ∃ values, value = .arr values) :
    ∃ condition, compare c operator value = .ok condition := by
  cases operator with
  | among =>
    obtain ⟨values, rfl⟩ := h rfl
    cases values <;> exact ⟨_, rfl⟩
  | notAmong =>
    obtain ⟨values, rfl⟩ := h rfl
    cases values <;> exact ⟨_, rfl⟩
  | _ => cases value <;> exact ⟨_, rfl⟩

theorem gives_pathCondition {field : String} {operator : Operator} {value : Json}
    {names : List String} {owner : Schema} (hl : r.Leads schema names owner)
    (hf : owner.hasField field) (hv : operator.takesArray → ∃ values, value = .arr values)
    (table : Nat) :
    Gives (pathCondition r field operator value schema table names) fun _ => True := by
  induction hl generalizing table with
  | here schema =>
    obtain ⟨c, hc, -⟩ := column_of_hasField (r := r) hf
    obtain ⟨condition, hcond⟩ := compare_eq_ok (c := ⟨table, c.column⟩) hv
    refine (gives_lift hc).bind fun c' hc' => ?_
    obtain rfl := hc'
    exact (gives_lift hcond).mono fun _ _ => trivial
  | along ha _ ih =>
    refine (gives_lift (association_eq_ok.2 ha)).bind fun a hb => ?_
    obtain rfl := hb
    refine gives_aliasId.bind fun inner _ => (gives_join _ _ _).bind fun _ _ => ?_
    exact (ih hf inner).bind fun _ _ => gives_pure trivial

mutual

theorem gives_condition (table : Nat) : ∀ {p : Predicate}, p.Resolves r schema →
    Gives (condition r schema table p) fun _ => True
  | .condition c, ⟨⟨_, hl, hf⟩, _, hv⟩ => by
    unfold condition
    exact gives_pathCondition hl hf hv table
  | .all [], _ => by
    unfold condition
    exact gives_pure trivial
  | .any [], _ => by
    unfold condition
    exact gives_pure trivial
  | .all (child :: rest), h => by
    unfold condition
    exact (gives_conditions table h).bind fun _ _ => gives_pure trivial
  | .any (child :: rest), h => by
    unfold condition
    exact (gives_conditions table h).bind fun _ _ => gives_pure trivial

theorem gives_conditions (table : Nat) : ∀ {children : List Predicate},
    Predicate.AllResolve r schema children →
    Gives (conditions r schema table children) fun _ => True
  | [], _ => by
    unfold conditions
    exact gives_pure trivial
  | _ :: _, ⟨hchild, hrest⟩ => by
    unfold conditions
    exact (gives_condition table hchild).bind fun _ _ =>
      (gives_conditions table hrest).bind fun _ _ => gives_pure trivial

end

theorem gives_filter {p : Predicate} (h : p.Resolves r schema) (table : Nat) :
    Gives (filter r schema table p) fun _ => True := by
  unfold filter
  split
  · exact gives_pure trivial
  · exact (gives_condition table h).bind fun _ _ => gives_pure trivial

/-! ## Related rows and sort values -/

mutual

theorem gives_related (table : Nat) : ∀ {schema : Schema} {node : IncludeNode},
    node.Resolves r schema → Gives (related r schema table node) fun _ => True
  | _, .mk relationship target selection nested, ⟨a, ha, _, hs, hn⟩ => by
    unfold related
    refine (gives_lift (association_eq_ok.2 ha)).bind fun b hb => ?_
    obtain rfl := hb
    refine gives_aliasId.bind fun inner _ => ?_
    refine (gives_mapM (P := fun _ _ => True) fun field hf => ?_).bind fun fields _ => ?_
    · obtain ⟨c, hc, -⟩ := column_of_hasField (r := r) (hs field hf)
      exact (gives_lift hc).bind fun _ _ => gives_pure trivial
    · exact (gives_relatedMembers inner hn).bind fun _ _ => (gives_join _ _ _).bind fun _ _ =>
        gives_pure trivial

theorem gives_relatedMembers (table : Nat) : ∀ {schema : Schema} {nodes : List IncludeNode},
    IncludeNode.AllResolve r schema nodes →
    Gives (relatedMembers r schema table nodes) fun _ => True
  | _, [], _ => by
    unfold relatedMembers
    exact gives_pure trivial
  | _, _ :: _, ⟨hnode, hrest⟩ => by
    unfold relatedMembers
    exact (gives_related table hnode).bind fun _ _ =>
      (gives_relatedMembers table hrest).bind fun _ _ => gives_pure trivial

end

theorem gives_sortValue {field : String} {names : List String} {owner : Schema}
    (hl : r.Leads schema names owner) (hf : owner.hasField field) (table : Nat) :
    Gives (sortValue r field schema table names) fun _ => True := by
  induction hl generalizing table with
  | here schema =>
    obtain ⟨c, hc, -⟩ := column_of_hasField (r := r) hf
    exact (gives_lift hc).bind fun _ _ => gives_pure trivial
  | along ha _ ih =>
    refine (gives_lift (association_eq_ok.2 ha)).bind fun b hb => ?_
    obtain rfl := hb
    refine gives_aliasId.bind fun inner _ => (ih hf inner).bind fun _ _ => ?_
    exact (gives_join _ _ _).bind fun _ _ => gives_pure trivial

theorem gives_keys {p : Predicate} (h : p.Resolves r schema) :
    Gives (keys r schema p) fun _ => True :=
  gives_aliasId.bind fun _ _ => (gives_filter h _).bind fun _ _ => gives_pure trivial

end Rendering

/-! ## Plans -/

/-- What the columns of a plan's query stand for: selected attributes, then include nodes. -/
def Plan.outputs (r : Registry) (schema : Schema) (plan : Plan) : List Output :=
  (plan.attributes.names schema).map (fun field =>
      .field field ((r.column? schema field).elim .text (·.type)))
    ++ plan.includes.map fun node =>
      .related node ((r.association? schema node.relationship).elim .one (·.cardinality))

namespace Statement

open Rendering

variable {r : Registry} {schema : Schema}

/-- A plan for stored columns has a query if its other parts do. -/
theorem ofPlan_of_columns {plan : Plan}
    (hattributes : ∀ field ∈ plan.attributes.names schema, ∃ c, r.column? schema field = some c)
    (hfilter : ∀ table, Gives (filter r schema table plan.filter) fun _ => True)
    (hincludes : IncludeNode.AllResolve r schema plan.includes)
    (hsort : ∀ key ∈ plan.sort, key.path.Resolves r schema) :
    ∃ query, ofPlan r schema plan = .ok (query, plan.outputs r schema) := by
  unfold ofPlan
  refine start_pair (gives_aliasId.bind fun table _ => ?_)
  refine (gives_mapM (P := fun field c => Output.field c.field c.type =
    .field field ((r.column? schema field).elim .text (·.type)))
    fun field hf => ?_).bind fun columns hcolumns => ?_
  · obtain ⟨c, hcolumn⟩ := hattributes field hf
    have hfield : c.field = field := by simpa using List.find?_some hcolumn
    have hc : column r schema field = .ok c := by rw [column, hcolumn]
    refine (gives_lift hc).mono ?_
    intro c' hc'
    obtain rfl := hc'
    simp [hcolumn, hfield]
  refine (gives_mapM (P := fun node out => out.2 = Output.related node
    ((r.association? schema node.relationship).elim .one (·.cardinality)))
    fun node hn => ?_).bind fun related hrelated => ?_
  · have hnode := IncludeNode.allResolve_iff.1 hincludes node hn
    obtain ⟨a, ha⟩ : ∃ a, r.association? schema node.relationship = some a := by
      obtain ⟨relationship, _, _, _⟩ := node
      obtain ⟨a, ha, -⟩ := hnode
      exact ⟨a, ha⟩
    refine (gives_lift (association_eq_ok.2 ha)).bind fun b hb => ?_
    obtain rfl := hb
    exact (gives_related table hnode).bind fun _ _ => gives_pure (by simp [ha])
  refine (hfilter table).bind fun condition _ => ?_
  refine (gives_mapM (P := fun _ _ => True) fun key hk => ?_).bind fun order _ => ?_
  · obtain ⟨owner, hl, hf⟩ := hsort key hk
    exact (gives_sortValue hl hf table).bind fun _ _ => gives_pure trivial
  refine gives_pure ?_
  simp only [Plan.outputs, map_eq_map_of_forall₂ hcolumns, map_eq_map_of_forall₂ hrelated]

/-- A plan that resolves has a query. -/
theorem ofPlan_eq_ok {plan : Plan} (h : plan.Resolves r schema) :
    ∃ query, ofPlan r schema plan = .ok (query, plan.outputs r schema) := by
  refine ofPlan_of_columns (fun field hf => ?_) (gives_filter h.filter) h.includes h.sort
  obtain ⟨c, -, hc, -⟩ := column_of_hasField (r := r) (h.attributes field hf)
  exact ⟨c, hc⟩

/-- A filter that resolves has a query that counts. -/
theorem ofCount_eq_ok {p : Predicate} (h : p.Resolves r schema) :
    ∃ statement, ofCount r schema p = .ok statement := by
  obtain ⟨query, hq, -⟩ := start_eq_ok (gives_keys h)
  exact ⟨.count query, by simp [ofCount, hq, bind, Except.bind, pure, Except.pure]⟩

end Statement

namespace Plan

/-- **Compiled plans can be rendered.** -/
theorem renders_of_ofQuery {schemas : List Schema} {r : Registry} {schema : Schema}
    {query : String} {id : Option String} {plan : Plan} (hr : Registry.assemble schemas = .ok r)
    (hs : schema ∈ r.schemas) (hid : id = none ∨ schema.Addressable)
    (h : ofQuery r schema query id = .ok plan) :
    plan.Resolves r schema ∧
      (∃ select, Statement.ofPlan r schema plan = .ok (select, plan.outputs r schema)) ∧
      ∃ count, Statement.ofCount r schema plan.filter = .ok count := by
  have hplan := resolves_of_ofQuery (Registry.coherent_of_assemble hr) hs hid h
  exact ⟨hplan, Statement.ofPlan_eq_ok hplan, Statement.ofCount_eq_ok hplan.filter⟩

/-- A query for the names of the nodes below one of a name, with the nodes above them. -/
def belowQuery : String := "filter[up.name]=x&include=up&fields[Node]=name&sort=-up.name"

/-- The plan of the query for the names of the nodes below one of a name. -/
def belowPlan : Plan where
  attributes := .only ["name", "id"]
  filter := .all [.condition ⟨⟨["up"], "name"⟩, .eq, .str "x"⟩]
  includes := [.mk "up" "Node" (.only ["name", "id"]) []]
  sort := [⟨⟨["up"], "name"⟩, .desc⟩]

theorem ofQuery_belowQuery : ofQuery tree treeNode belowQuery none = .ok belowPlan := by
  have hparse : Params.parse belowQuery = .ok {
      filters := [⟨"up.name", .eq, ["x"]⟩], sort := [⟨"up.name", .desc⟩], includes := ["up"],
      fields := [⟨"Node", ["name"]⟩] } := by
    decide +kernel
  exact ofQuery_eq_ok.2 ⟨_, hparse, rfl⟩

theorem renders_belowQuery : belowPlan.Resolves tree treeNode ∧
    (∃ select, Statement.ofPlan tree treeNode belowPlan =
      .ok (select, belowPlan.outputs tree treeNode)) ∧
    ∃ count, Statement.ofCount tree treeNode belowPlan.filter = .ok count :=
  renders_of_ofQuery assemble_node (by decide) (.inl rfl) ofQuery_belowQuery

/-- **A note with a dotted key has no query.** Its key is looked for at the end of a relationship. -/
theorem ofPlan_dottedNote : Registry.assemble [dottedNote] = .ok dottedNotes ∧
    ofQuery dottedNotes dottedNote "" (some "1") = .ok (.forId dottedNote (.int 1)) ∧
    Statement.ofPlan dottedNotes dottedNote (.forId dottedNote (.int 1)) =
      .error (.unknownRelationship "Note" "a") := by
  have hparse : Params.parse "" = .ok {} := by decide +kernel
  exact ⟨assemble_dottedNote, ofQuery_eq_ok.2 ⟨_, hparse, rfl⟩, rfl⟩

end Plan

end ResourceApi
