import ResourceApi.Proofs.Query.Meaning
import ResourceApi.Proofs.Query.Resolution

/-!
# What include nodes ask for

A row is told as a *record* (`Registry.Record`): an object with the selected fields and one member
for every include node. `IncludeNode.Carries` says what such a member is. Where the association
leads to one row, it is null or the record of a related row; where it leads to many, it is the list
of the records of all related rows, in some order. Records below are told in the same way, to any
depth.

**Theorem (`Plan.allDistinct_of_compile`).** In the include trees of compiled plans, no two nodes
side by side follow the same relationship, so every node has a member of its own.
-/

namespace ResourceApi

variable {r : Registry} {db : Database} {schema : Schema}

/-! ## Records -/

/-- The value under which a row shows a field. -/
def Registry.shown (r : Registry) (schema : Schema) (row : Tuple) (field : String) : Json :=
  (row.get (columnName field)).toJson ((r.column? schema field).elim .text (·.type))

/-- The object has the selected fields of a row, and the relationships of some include nodes. -/
structure Registry.Record (r : Registry) (schema : Schema) (row : Tuple) (selection : Selection)
    (nodes : List IncludeNode) (object : Object) : Prop where
  keys : ∀ key, key ∈ object.keys ↔
    key ∈ selection.names schema ∨ key ∈ nodes.map (·.relationship)
  fields : ∀ field ∈ selection.names schema, object.get? field = some (r.shown schema row field)

/-- A record shows its row. -/
theorem Registry.Record.shows {plan : Plan} {row : Tuple} {object : Object}
    (h : r.Record schema row plan.attributes plan.includes object) :
    plan.Shows r schema row object :=
  ⟨h.fields, fun key hk => (h.keys key).1 hk⟩

mutual

/-- The value is what an include node asks for of a row: one related row or null, or all related
rows. -/
def IncludeNode.Carries (r : Registry) (db : Database) (schema : Schema) (row : Tuple)
    (value : Json) : IncludeNode → Prop
  | .mk relationship _ selection nested =>
    ∃ a, r.association? schema relationship = some a ∧
      let Told (target : Tuple) (object : Object) : Prop :=
        r.Record a.target target selection nested object ∧
          IncludeNode.AllCarry r db a.target target object nested
      match a.cardinality with
      | .one => (a.relatedRows db row = [] ∧ value = .null) ∨
          ∃ target ∈ a.relatedRows db row, ∃ object, value = .obj object ∧ Told target object
      | .many => ∃ targets objects, targets.Perm (a.relatedRows db row) ∧
          value = .arr (objects.map .obj) ∧ List.Forall₂ Told targets objects

/-- The object has a member for each of several include nodes, with what the node asks for. -/
def IncludeNode.AllCarry (r : Registry) (db : Database) (schema : Schema) (row : Tuple)
    (object : Object) : List IncludeNode → Prop
  | [] => True
  | node :: rest =>
    (∃ value, object.get? node.relationship = some value ∧
      IncludeNode.Carries r db schema row value node) ∧
      IncludeNode.AllCarry r db schema row object rest

end

theorem IncludeNode.allCarry_iff {row : Tuple} {object : Object} {nodes : List IncludeNode} :
    AllCarry r db schema row object nodes ↔ ∀ node ∈ nodes, ∃ value,
      object.get? node.relationship = some value ∧ node.Carries r db schema row value := by
  induction nodes with
  | nil => simp [AllCarry]
  | cons node rest ih => simp [AllCarry, ih]

/-! ## Keys -/

mutual

/-- The keys of the records below an include node. -/
def IncludeNode.recordKeys (r : Registry) : IncludeNode → List String
  | .mk _ target selection nested =>
    (r.schema? target).elim [] selection.names ++ IncludeNode.allRecordKeys r nested

/-- The relationships of several include nodes, and the keys of the records below them. -/
def IncludeNode.allRecordKeys (r : Registry) : List IncludeNode → List String
  | [] => []
  | node :: rest => node.relationship :: IncludeNode.recordKeys r node
      ++ IncludeNode.allRecordKeys r rest

end

/-! ## Nodes side by side -/

mutual

/-- Below the node, no two nodes side by side follow the same relationship. -/
def IncludeNode.Distinct : IncludeNode → Prop
  | .mk _ _ _ nested => IncludeNode.AllDistinct nested

/-- In the forest, no two nodes side by side follow the same relationship. -/
def IncludeNode.AllDistinct : List IncludeNode → Prop
  | [] => True
  | node :: rest => node.relationship ∉ rest.map (·.relationship) ∧ IncludeNode.Distinct node ∧
      IncludeNode.AllDistinct rest

end

namespace IncludeNode

theorem allDistinct_iff {nodes : List IncludeNode} : AllDistinct nodes ↔
    (nodes.map (·.relationship)).Nodup ∧ ∀ node ∈ nodes, node.Distinct := by
  induction nodes with
  | nil => simp [AllDistinct]
  | cons node rest ih =>
    rw [AllDistinct, ih, List.map_cons, List.nodup_cons, List.forall_mem_cons]
    tauto

theorem distinct_iff {node : IncludeNode} : node.Distinct ↔ AllDistinct node.nested := by
  cases node
  rw [Distinct, nested]

end IncludeNode

namespace Plan

/-! ## Growing include trees -/

theorem relationships_place (node : IncludeNode) (nodes : List IncludeNode) :
    (place node nodes).map (·.relationship) =
      if node.relationship ∈ nodes.map (·.relationship) then nodes.map (·.relationship)
      else nodes.map (·.relationship) ++ [node.relationship] := by
  induction nodes with
  | nil => simp [place]
  | cons m rest ih =>
    unfold place
    split
    · rename_i hm
      simp [hm]
    · rename_i hm
      simp only [List.map_cons, ih, List.mem_cons, Ne.symm hm, false_or]
      split <;> rfl

theorem allDistinct_place {node : IncludeNode} {nodes : List IncludeNode} (hn : node.Distinct)
    (h : IncludeNode.AllDistinct nodes) : IncludeNode.AllDistinct (place node nodes) := by
  obtain ⟨hnodup, hall⟩ := IncludeNode.allDistinct_iff.1 h
  refine IncludeNode.allDistinct_iff.2 ⟨?_, fun n hm => ?_⟩
  · rw [relationships_place]
    split
    · exact hnodup
    · rename_i hnot
      rw [List.nodup_append]
      exact ⟨hnodup, List.nodup_singleton _, fun a ha b hb he =>
        hnot (List.mem_singleton.1 hb ▸ he ▸ ha)⟩
  · rcases mem_place hm with rfl | hm
    · exact hn
    · exact hall n hm

theorem allDistinct_grow {path : String} {names : List String} {nodes : List IncludeNode}
    (h : IncludeNode.AllDistinct nodes) :
    IncludeNode.AllDistinct (grow r path schema names nodes).1 := by
  induction names generalizing schema nodes with
  | nil => exact h
  | cons name rest ih =>
    unfold grow
    cases r.association? schema name with
    | none => exact h
    | some a =>
      refine allDistinct_place ?_ h
      rw [IncludeNode.distinct_iff]
      refine ih ?_
      cases hf : nodes.find? (·.relationship = name) with
      | none => trivial
      | some node =>
        exact IncludeNode.distinct_iff.1
          ((IncludeNode.allDistinct_iff.1 h).2 node (List.mem_of_find?_eq_some hf))

theorem allDistinct_compileInclude {paths : List String} :
    IncludeNode.AllDistinct (compileInclude r schema paths).1 :=
  of_compileInclude (P := IncludeNode.AllDistinct) trivial fun _ _ _ => allDistinct_grow

/-! ## Narrowing include trees -/

theorem relationship_select (target : String) (names : List String) (node : IncludeNode) :
    (select target names node).relationship = node.relationship := by
  cases node
  rw [select, IncludeNode.relationship, IncludeNode.relationship]

theorem relationships_selectAll (target : String) (names : List String) (nodes : List IncludeNode) :
    (selectAll target names nodes).map (·.relationship) = nodes.map (·.relationship) := by
  induction nodes with
  | nil => rfl
  | cons node rest ih =>
    rw [selectAll, List.map_cons, relationship_select, ih, List.map_cons]

mutual

theorem distinct_select {target : String} {names : List String} : ∀ {node : IncludeNode},
    node.Distinct → (select target names node).Distinct
  | .mk _ _ _ _, h => allDistinct_selectAll h

theorem allDistinct_selectAll {target : String} {names : List String} :
    ∀ {nodes : List IncludeNode}, IncludeNode.AllDistinct nodes →
      IncludeNode.AllDistinct (selectAll target names nodes)
  | [], _ => trivial
  | _ :: _, ⟨hnot, hnode, hrest⟩ => by
    rw [selectAll]
    refine ⟨?_, distinct_select hnode, allDistinct_selectAll hrest⟩
    rwa [relationship_select, relationships_selectAll]

end

/-- **In a compiled plan, no two nodes side by side follow the same relationship.** -/
theorem allDistinct_of_compile {params : Params} {id : Option String} {plan : Plan}
    (h : compile r schema params id = .ok plan) : IncludeNode.AllDistinct plan.includes := by
  rw [(parts_of_compile h).2.2.1]
  refine List.foldlRecOn _ _ (motive := IncludeNode.AllDistinct) allDistinct_compileInclude ?_
  intro nodes hnodes selection _
  exact allDistinct_selectAll hnodes

end Plan

end ResourceApi
