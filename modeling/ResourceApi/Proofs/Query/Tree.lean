import ResourceApi.Proofs.Grouping
import ResourceApi.Proofs.Query.Acceptance
import ResourceApi.Proofs.Query.Inclusion

/-!
# The tree of include paths

A node of an include tree is *reached* by the sequence of relationships from a root down to it
(`IncludeNode.Reached`). Which sequences reach a node, and in which order the nodes stand, is told
by the include paths alone (`Plan.Spells`).

**Theorem (`Plan.spells_compileInclude`).** Include paths without errors are compiled to a tree in
which exactly their non-empty beginnings reach a node. Nodes side by side follow different
relationships, in the order in which the paths come to them. A node reads the schema that its
sequence leads to. So it is in every plan that is compiled with these paths.

The tree grows path by path. What a path adds is told place by place: behind the sequences that the
path begins with, its next relationship is put at the end unless it is there
(`relationships_behind_grow`). Over all paths this puts every relationship at its first place, and
the rest follows, as a sequence reaches a node if its last relationship is found behind the others
(`exists_reached_concat`).
-/

namespace ResourceApi

variable {r : Registry} {schema : Schema}

/-! ## Beginnings of paths -/

/-- The relationship by which a path goes on behind a sequence that it begins with. -/
def next? (names path : List String) : Option String :=
  if names <+: path then path[names.length]? else none

theorem next?_nil (path : List String) : next? [] path = path.head? := by
  rw [next?, if_pos List.nil_prefix, List.length_nil, List.head?_eq_getElem?]

theorem next?_of_nil (names : List String) : next? names [] = none := by
  unfold next?
  split <;> rfl

theorem next?_cons_cons (first name : String) (names path : List String) :
    next? (first :: names) (name :: path) = if first = name then next? names path else none := by
  unfold next?
  by_cases he : first = name
  · simp [he]
  · simp [he]

theorem next?_eq_some_iff {names path : List String} {name : String} :
    next? names path = some name ↔ names ++ [name] <+: path := by
  induction names generalizing path with
  | nil => cases path <;> simp [next?_nil, eq_comm]
  | cons first names ih =>
    cases path with
    | nil => simp [next?_of_nil]
    | cons second path =>
      rw [next?_cons_cons, List.cons_append, List.cons_prefix_cons]
      by_cases he : first = second <;> simp [he, ih]

/-! ## Places in a tree -/

namespace IncludeNode

/-- A sequence of relationships leads from a root down to a node. -/
inductive Reached : List IncludeNode → List String → IncludeNode → Prop
  | root {nodes : List IncludeNode} {node : IncludeNode} : node ∈ nodes →
      Reached nodes [node.relationship] node
  | deeper {nodes : List IncludeNode} {node last : IncludeNode} {names : List String} :
      node ∈ nodes → Reached node.nested names last →
      Reached nodes (node.relationship :: names) last

/-- The nodes behind a sequence of relationships. Behind none stand the roots. -/
def behind : List IncludeNode → List String → List IncludeNode
  | nodes, [] => nodes
  | nodes, name :: rest =>
    match nodes.find? (·.relationship = name) with
    | none => []
    | some node => behind node.nested rest

theorem behind_nil (names : List String) : behind [] names = [] := by
  cases names <;> rfl

theorem behind_cons (nodes : List IncludeNode) (name : String) (rest : List String) :
    behind nodes (name :: rest) = behind (behind nodes [name]) rest := by
  rw [behind, behind]
  cases nodes.find? (·.relationship = name) with
  | none => exact (behind_nil rest).symm
  | some node => rfl

theorem not_reached_nil {nodes : List IncludeNode} {node : IncludeNode} :
    ¬ Reached nodes [] node := nofun

theorem reached_cons_iff {nodes : List IncludeNode} {name : String} {rest : List String}
    {node : IncludeNode} : Reached nodes (name :: rest) node ↔ ∃ first ∈ nodes,
      first.relationship = name ∧ (rest = [] ∧ first = node ∨ Reached first.nested rest node) := by
  constructor
  · intro h
    cases h with
    | root hm => exact ⟨_, hm, rfl, .inl ⟨rfl, rfl⟩⟩
    | deeper hm hbelow => exact ⟨_, hm, rfl, .inr hbelow⟩
  · rintro ⟨first, hm, rfl, ⟨rfl, rfl⟩ | hbelow⟩
    · exact .root hm
    · exact .deeper hm hbelow

section

variable {nodes : List IncludeNode} (h : AllDistinct nodes)
include h

/-- Side by side, a relationship has one node. -/
theorem find?_relationship_iff {name : String} {node : IncludeNode} :
    nodes.find? (·.relationship = name) = some node ↔ node ∈ nodes ∧ node.relationship = name := by
  constructor
  · intro hf
    exact ⟨List.mem_of_find?_eq_some hf, by simpa using List.find?_some hf⟩
  · rintro ⟨hm, rfl⟩
    exact find?_eq_some_of_nodup (allDistinct_iff.1 h).1 hm

theorem allDistinct_nested {node : IncludeNode} (hm : node ∈ nodes) : AllDistinct node.nested :=
  distinct_iff.1 ((allDistinct_iff.1 h).2 node hm)

end

/-- The node that is looked up is the one that is reached. -/
theorem find?_eq_some_iff {nodes : List IncludeNode} (h : AllDistinct nodes) {names : List String}
    {node : IncludeNode} : find? nodes names = some node ↔ Reached nodes names node := by
  induction names generalizing nodes with
  | nil => exact iff_of_false nofun not_reached_nil
  | cons name rest ih =>
    rw [Plan.find?_cons, reached_cons_iff, Option.bind_eq_some_iff]
    refine exists_congr fun first => ?_
    rw [find?_relationship_iff h, and_assoc]
    refine and_congr_right fun hm => and_congr_right fun _ => ?_
    cases rest with
    | nil => simp [not_reached_nil]
    | cons second rest => simpa using ih (allDistinct_nested h hm)

theorem behind_of_reached {nodes : List IncludeNode} (h : AllDistinct nodes) {names : List String}
    {node : IncludeNode} (hr : Reached nodes names node) : behind nodes names = node.nested := by
  induction hr with
  | root hm =>
    unfold behind
    rw [(find?_relationship_iff h).2 ⟨hm, rfl⟩]
    rfl
  | deeper hm _ ih =>
    unfold behind
    rw [(find?_relationship_iff h).2 ⟨hm, rfl⟩]
    exact ih (allDistinct_nested h hm)

/-- A sequence reaches a node if its last relationship is found behind the others. -/
theorem exists_reached_concat {nodes : List IncludeNode} (h : AllDistinct nodes)
    {names : List String} {name : String} : (∃ node, Reached nodes (names ++ [name]) node) ↔
      name ∈ (behind nodes names).map (·.relationship) := by
  induction names generalizing nodes with
  | nil => simp [reached_cons_iff, not_reached_nil, behind]
  | cons first names ih =>
    rw [List.cons_append, behind]
    simp only [reached_cons_iff, List.append_eq_nil_iff, List.cons_ne_nil, and_false, false_and,
      false_or]
    cases hf : nodes.find? (·.relationship = first) with
    | none =>
      have hnone := List.find?_eq_none.1 hf
      refine iff_of_false ?_ (by simp)
      rintro ⟨node, root, hm, hroot, -⟩
      exact hnone root hm (by simpa using hroot)
    | some root =>
      obtain ⟨hm, hroot⟩ := (find?_relationship_iff h).1 hf
      rw [← ih (allDistinct_nested h hm)]
      constructor
      · rintro ⟨node, other, hother, hname, hbelow⟩
        have he := hf.symm.trans ((find?_relationship_iff h).2 ⟨hother, hname⟩)
        obtain rfl := Option.some.inj he
        exact ⟨node, hbelow⟩
      · rintro ⟨node, hbelow⟩
        exact ⟨node, root, hm, hroot, hbelow⟩

/-- A node that resolves reads the schema that its sequence leads to. -/
theorem exists_leads_of_reached {nodes : List IncludeNode} {names : List String}
    {node : IncludeNode} (hr : Reached nodes names node) (h : AllResolve r schema nodes) :
    ∃ owner, r.Leads schema names owner ∧ node.target = owner.fullName := by
  induction hr generalizing schema with
  | @root nodes node hm =>
    obtain ⟨relationship, target, selection, nested⟩ := node
    obtain ⟨a, ha, ht, -⟩ := allResolve_iff.1 h _ hm
    exact ⟨a.target, .along ha (.here a.target), ht⟩
  | @deeper nodes node last names hm _ ih =>
    have hnode := allResolve_iff.1 h _ hm
    obtain ⟨a, ha⟩ : ∃ a, r.association? schema node.relationship = some a := by
      obtain ⟨relationship, target, selection, nested⟩ := node
      obtain ⟨a, ha, -⟩ := hnode
      exact ⟨a, ha⟩
    obtain ⟨owner, hleads, ht⟩ := ih (Plan.allResolve_nested hnode ha)
    exact ⟨owner, .along ha hleads, ht⟩

end IncludeNode

namespace Plan

open IncludeNode

/-! ## Trees that paths spell -/

/-- The tree is told by the paths: by the sequences of relationships that they begin with. -/
structure Spells (r : Registry) (schema : Schema) (paths : List (List String))
    (nodes : List IncludeNode) : Prop where
  /-- Exactly the non-empty beginnings of paths reach a node. -/
  reached_iff : ∀ names, (∃ node, Reached nodes names node) ↔
    names ≠ [] ∧ ∃ path ∈ paths, names <+: path
  /-- A lookup finds a node for exactly the beginnings of paths. -/
  find?_isSome_iff : ∀ names, names ≠ [] →
    ((IncludeNode.find? nodes names).isSome ↔ ∃ path ∈ paths, names <+: path)
  /-- It finds the node that is reached. -/
  find?_iff : ∀ names node, IncludeNode.find? nodes names = some node ↔ Reached nodes names node
  /-- The roots stand in the order in which paths first begin with them. -/
  roots : nodes.map (·.relationship) = (paths.filterMap (next? [])).eraseDups
  /-- The nodes below a node stand in the order in which paths first go on to them. -/
  siblings : ∀ names node, Reached nodes names node →
    node.nested.map (·.relationship) = (paths.filterMap (next? names)).eraseDups
  /-- No two nodes side by side follow the same relationship. -/
  distinct : AllDistinct nodes
  /-- A node reads the schema that its sequence leads to. -/
  target : ∀ names node, Reached nodes names node →
    ∃ owner, r.Leads schema names owner ∧ node.target = owner.fullName

/-- The relationships behind each sequence, and the targets, tell the rest. -/
theorem spells_of_behind {paths : List (List String)} {nodes : List IncludeNode}
    (hd : AllDistinct nodes)
    (hb : ∀ names, (behind nodes names).map (·.relationship) =
      (paths.filterMap (next? names)).eraseDups)
    (ht : ∀ names node, Reached nodes names node →
      ∃ owner, r.Leads schema names owner ∧ node.target = owner.fullName) :
    Spells r schema paths nodes := by
  have hreached (names : List String) : (∃ node, Reached nodes names node) ↔
      names ≠ [] ∧ ∃ path ∈ paths, names <+: path := by
    rcases List.eq_nil_or_concat' names with rfl | ⟨init, name, rfl⟩
    · simp [not_reached_nil]
    · rw [exists_reached_concat hd, hb, List.mem_eraseDups, List.mem_filterMap]
      simp [next?_eq_some_iff]
  refine ⟨hreached, fun names hne => ?_, fun names node => find?_eq_some_iff hd, hb [],
    fun names node hr => ?_, hd, ht⟩
  · have h := hreached names
    simp only [← find?_eq_some_iff hd, ← Option.isSome_iff_exists] at h
    simpa [hne] using h
  · rw [← behind_of_reached hd hr, hb]

/-! ## Growing trees -/

/-- The node that a path continues from, with the nodes that are there already. -/
theorem entered_eq (nodes : List IncludeNode) (name target : String) :
    ∃ t selection, (nodes.find? (·.relationship = name)).getD (.leaf name target) =
      .mk name t selection (behind nodes [name]) := by
  unfold behind
  cases hf : nodes.find? (·.relationship = name) with
  | none => exact ⟨target, .all, rfl⟩
  | some node =>
    obtain ⟨relationship, t, selection, nested⟩ := node
    have hname := List.find?_some hf
    obtain rfl : relationship = name := of_decide_eq_true hname
    exact ⟨t, selection, rfl⟩

/-- The roots of a grown tree. -/
theorem grow_cons {name : String} {a : Association} (ha : r.association? schema name = some a)
    (path : String) (rest : List String) (nodes : List IncludeNode) :
    ∃ t selection, (grow r path schema (name :: rest) nodes).1 =
      place (.mk name t selection (grow r path a.target rest (behind nodes [name])).1) nodes := by
  obtain ⟨t, selection, hentered⟩ := entered_eq nodes name a.target.fullName
  refine ⟨t, selection, ?_⟩
  rw [grow, ha]
  dsimp only
  rw [hentered]
  rfl

/-- **A path adds its next relationship** behind every sequence that it begins with, at the end
unless it is there. -/
theorem relationships_behind_grow {path : String} {along : List String} {nodes : List IncludeNode}
    (hl : ∃ owner, r.Leads schema along owner) (names : List String) :
    (behind (grow r path schema along nodes).1 names).map (·.relationship) =
      match next? names along with
      | none => (behind nodes names).map (·.relationship)
      | some name =>
        if name ∈ (behind nodes names).map (·.relationship) then
          (behind nodes names).map (·.relationship)
        else (behind nodes names).map (·.relationship) ++ [name] := by
  induction along generalizing schema nodes names with
  | nil =>
    rw [next?_of_nil]
    rfl
  | cons name rest ih =>
    obtain ⟨owner, _ | ⟨ha, hl⟩⟩ := hl
    obtain ⟨t, selection, hgrown⟩ := grow_cons ha path rest nodes
    rw [hgrown]
    cases names with
    | nil =>
      rw [next?_nil]
      exact relationships_place _ nodes
    | cons first names =>
      rw [next?_cons_cons, behind, find?_place, IncludeNode.relationship]
      by_cases hfirst : first = name
      · subst hfirst
        rw [if_pos rfl, if_pos rfl, behind_cons nodes first names]
        exact ih ⟨owner, hl⟩ names
      · rw [if_neg (Ne.symm hfirst), if_neg hfirst]
        rfl

/-- Over all paths, every relationship is put at its first place. -/
theorem relationships_behind_foldl {paths : List String}
    (hl : ∀ path ∈ paths, ∃ owner, r.Leads schema (Text.pieces '.' path) owner)
    (names : List String) :
    (behind (paths.foldl (addPath r schema) ([], [])).1 names).map (·.relationship) =
      ((paths.map (Text.pieces '.')).filterMap (next? names)).eraseDups := by
  induction paths using List.reverseRecOn with
  | nil =>
    rw [List.foldl_nil, behind_nil]
    rfl
  | append_singleton paths path ih =>
    have hpaths := ih fun p hp => hl p (List.mem_append_left _ hp)
    rw [List.foldl_append, List.foldl_cons, List.foldl_nil]
    show (behind (grow r path schema _ _).1 names).map (·.relationship) = _
    rw [relationships_behind_grow (hl path (by simp)), hpaths, List.map_append,
      List.filterMap_append]
    cases hnext : next? names (Text.pieces '.' path) with
    | none => simp [hnext]
    | some name => simp [hnext, Grouping.eraseDups_concat]

theorem relationships_behind_compileInclude {paths : List String}
    (h : (compileInclude r schema paths).2 = []) (names : List String) :
    (behind (compileInclude r schema paths).1 names).map (·.relationship) =
      ((paths.map (Text.pieces '.')).filterMap (next? names)).eraseDups := by
  rcases compileInclude_eq_nil_iff.1 h with rfl | ⟨ha, hl⟩
  · show (behind [] names).map _ = _
    rw [behind_nil]
    rfl
  · by_cases hp : paths = []
    · subst hp
      show (behind [] names).map _ = _
      rw [behind_nil]
      rfl
    · rw [compileInclude_eq_foldl hp ha, relationships_behind_foldl hl]

/-! ## Narrowing trees -/

/-- Selects the names of several selections on a node and below it. -/
def narrow (selections : List (String × List String)) (node : IncludeNode) : IncludeNode :=
  selections.foldl (fun node (target, names) => select target names node) node

theorem selectAll_eq_map (target : String) (names : List String) (nodes : List IncludeNode) :
    selectAll target names nodes = nodes.map (select target names) := by
  induction nodes with
  | nil => rfl
  | cons node rest ih => rw [selectAll, ih, List.map_cons]

theorem nested_select (target : String) (names : List String) (node : IncludeNode) :
    (select target names node).nested = selectAll target names node.nested := by
  cases node
  rw [select, nested, nested]

theorem target_select (target : String) (names : List String) (node : IncludeNode) :
    (select target names node).target = node.target := by
  cases node
  rw [select, IncludeNode.target, IncludeNode.target]

theorem foldl_selectAll (selections : List (String × List String)) (nodes : List IncludeNode) :
    selections.foldl (fun nodes (target, names) => selectAll target names nodes) nodes =
      nodes.map (narrow selections) := by
  induction selections generalizing nodes with
  | nil => exact (List.map_id _).symm
  | cons selection rest ih =>
    obtain ⟨target, names⟩ := selection
    rw [List.foldl_cons, ih]
    dsimp only
    rw [selectAll_eq_map, List.map_map]
    rfl

theorem relationship_narrow (selections : List (String × List String)) (node : IncludeNode) :
    (narrow selections node).relationship = node.relationship := by
  induction selections generalizing node with
  | nil => rfl
  | cons selection rest ih =>
    rw [narrow, List.foldl_cons]
    exact (ih _).trans (relationship_select _ _ node)

theorem target_narrow (selections : List (String × List String)) (node : IncludeNode) :
    (narrow selections node).target = node.target := by
  induction selections generalizing node with
  | nil => rfl
  | cons selection rest ih =>
    rw [narrow, List.foldl_cons]
    exact (ih _).trans (target_select _ _ node)

theorem nested_narrow (selections : List (String × List String)) (node : IncludeNode) :
    (narrow selections node).nested = node.nested.map (narrow selections) := by
  induction selections generalizing node with
  | nil => exact (List.map_id _).symm
  | cons selection rest ih =>
    rw [narrow, List.foldl_cons]
    refine (ih _).trans ?_
    rw [nested_select, selectAll_eq_map, List.map_map]
    rfl

/-- The nodes of a narrowed tree are reached as they were. -/
theorem reached_map_narrow {selections : List (String × List String)} {nodes : List IncludeNode}
    {names : List String} {node : IncludeNode} :
    Reached (nodes.map (narrow selections)) names node ↔
      ∃ wide, Reached nodes names wide ∧ narrow selections wide = node := by
  induction names generalizing nodes with
  | nil => simp [not_reached_nil]
  | cons name rest ih =>
    simp only [reached_cons_iff, List.mem_map, exists_exists_and_eq_and, relationship_narrow,
      nested_narrow, ih]
    constructor
    · rintro ⟨first, hm, hname, ⟨hrest, rfl⟩ | ⟨wide, hwide, rfl⟩⟩
      · exact ⟨first, ⟨first, hm, hname, .inl ⟨hrest, rfl⟩⟩, rfl⟩
      · exact ⟨wide, ⟨first, hm, hname, .inr hwide⟩, rfl⟩
    · rintro ⟨wide, ⟨first, hm, hname, ⟨hrest, rfl⟩ | hwide⟩, rfl⟩
      · exact ⟨first, hm, hname, .inl ⟨hrest, rfl⟩⟩
      · exact ⟨first, hm, hname, .inr ⟨wide, hwide, rfl⟩⟩

theorem behind_map_narrow (selections : List (String × List String)) (nodes : List IncludeNode)
    (names : List String) : behind (nodes.map (narrow selections)) names =
      (behind nodes names).map (narrow selections) := by
  induction names generalizing nodes with
  | nil => rfl
  | cons name rest ih =>
    unfold behind
    rw [List.find?_map]
    have hsame : (fun n : IncludeNode => decide (n.relationship = name)) ∘ narrow selections =
        fun n => decide (n.relationship = name) :=
      funext fun n => by rw [Function.comp_apply, relationship_narrow]
    rw [hsame]
    cases nodes.find? (·.relationship = name) with
    | none => rfl
    | some node =>
      show behind (narrow selections node).nested rest = _
      rw [nested_narrow, ih]

/-! ## Include trees -/

theorem spells_narrow {paths : List String} (h : (compileInclude r schema paths).2 = [])
    {selections : List (String × List String)}
    (hd : AllDistinct ((compileInclude r schema paths).1.map (narrow selections))) :
    Spells r schema (paths.map (Text.pieces '.'))
      ((compileInclude r schema paths).1.map (narrow selections)) := by
  refine spells_of_behind hd (fun names => ?_) fun names node hr => ?_
  · have hsame : ((·.relationship) ∘ narrow selections : IncludeNode → String) =
        (·.relationship) := funext (relationship_narrow selections)
    rw [behind_map_narrow, List.map_map, hsame, relationships_behind_compileInclude h]
  · obtain ⟨wide, hwide, rfl⟩ := reached_map_narrow.1 hr
    rw [target_narrow]
    exact exists_leads_of_reached hwide resolves_compileInclude

/-- **Include paths spell their tree**, as it is compiled and in every plan. -/
theorem spells_compileInclude {paths : List String} (h : (compileInclude r schema paths).2 = []) :
    Spells r schema (paths.map (Text.pieces '.')) (compileInclude r schema paths).1 ∧
      ∀ params id plan, params.includes = paths → compile r schema params id = .ok plan →
        Spells r schema (paths.map (Text.pieces '.')) plan.includes := by
  constructor
  · have hnarrow : (compileInclude r schema paths).1.map (narrow []) =
        (compileInclude r schema paths).1 := List.map_id _
    have hspells := spells_narrow h (hnarrow.symm ▸ allDistinct_compileInclude)
    rwa [hnarrow] at hspells
  · rintro params id plan rfl hplan
    have hd := allDistinct_of_compile hplan
    rw [(parts_of_compile hplan).2.2.1, foldl_selectAll] at hd ⊢
    exact spells_narrow h hd

/-! ## A tree of folders -/

/-- Folders, which hold files and lie in folders. -/
def folder : Schema where
  name := "Folder"
  idType := .integer
  relationships := [("files", .hasMany "File" none), ("parent", .belongsTo "Folder" none)]

/-- Files. -/
def file : Schema where
  name := "File"
  idType := .integer
  attributes := [{ name := "name", type := .string }, { name := "size", type := .integer }]

/-- The registry of folders and files. -/
def folders : Registry where
  schemas := [folder, file]
  associations := [⟨"files", folder, file, .hasMany "folderId"⟩,
    ⟨"parent", folder, folder, .belongsTo "parentId"⟩]
  foreignKeys := [⟨"File", "folderId", folder⟩, ⟨"Folder", "parentId", folder⟩]

theorem assemble_folders : Registry.assemble [folder, file] = .ok folders := by decide +kernel

/-- Folders with the files of the folders around them, and with their own. -/
def aroundFiles : List String := ["parent.parent.files", "files", "parent.files", "parent.parent"]

/-- The folder around comes first, and the one around that before its files. -/
theorem spells_aroundFiles : (compileInclude folders folder aroundFiles).2 = [] ∧
    Spells folders folder
      [["parent", "parent", "files"], ["files"], ["parent", "files"], ["parent", "parent"]]
      [.mk "parent" "Folder" .all [
        .mk "parent" "Folder" .all [.leaf "files" "File"], .leaf "files" "File"],
        .leaf "files" "File"] := by
  have hnone : (compileInclude folders folder aroundFiles).2 = [] := by decide +kernel
  exact ⟨hnone, (spells_compileInclude hnone).1⟩

end Plan

end ResourceApi
