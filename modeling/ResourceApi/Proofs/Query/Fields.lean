import ResourceApi.Proofs.Query.Gathering
import ResourceApi.Proofs.Query.Tree

/-!
# Selected fields

A query string can ask for fields of several types, and of a type in several places
(`Params.asked`). What is selected of a schema depends on what is asked for its type alone
(`Selection.ofAsked`), wherever the schema is read.

**Theorem (`Plan.selects_asked`).** In a plan that is made of a query string, the root and every
node of the include tree select what is asked for the type of the schema that is read there: every
field if nothing is asked for, and otherwise the names that are asked for, each at its first place,
with the primary key behind them unless it is one of them.

The selections are applied one after the other to the root and to the whole tree. Those for one full
name are all alike (`only_eq_ofAsked`), so the last one that is applied can be any of them
(`of_exists_selection`). Before any is applied, every node selects all
(`selectsAll_compileInclude`).
-/

namespace ResourceApi

variable {r : Registry} {schemas : List Schema} {schema owner : Schema}

/-! ## What is asked for -/

/-- The names that a pair asks for of a type. -/
def Entry.asked? (typeName : String) : Entry → Option (List String)
  | .fields type names => if type = typeName then some names else none
  | _ => none

/-- The lists of names that a query string asks for of a type, in the order of their pairs. -/
def Params.asked (query typeName : String) : List (List String) :=
  (pairs query).filterMap fun pair => (Entry.ofPair pair).toOption.bind (Entry.asked? typeName)

/-- Where nothing is asked for, everything is selected. Otherwise the names are, without repetition,
and the primary key behind them unless it is one of them. -/
def Selection.ofAsked (schema : Schema) : List (List String) → Selection
  | [] => .all
  | lists =>
    let names := lists.flatten.eraseDups
    .only (if schema.idField ∈ names then names else names ++ [schema.idField])

/-- Of a schema is selected what a query string asks for its type. So a selection of names repeats
none, has the primary key and holds only fields of the schema. -/
structure Selection.Asked (query : String) (schema : Schema) (selection : Selection) : Prop where
  eq : selection = .ofAsked schema (Params.asked query schema.fullName)
  nodup : ∀ names, selection = .only names → names.Nodup
  key : ∀ names, selection = .only names → schema.idField ∈ names
  fields : ∀ names, selection = .only names → ∀ name ∈ names, name ∈ schema.allFields

namespace Selection

theorem ofAsked_of_ne_nil {lists : List (List String)} (h : lists ≠ []) : ofAsked schema lists =
    .only (if schema.idField ∈ lists.flatten.eraseDups then lists.flatten.eraseDups
      else lists.flatten.eraseDups ++ [schema.idField]) := by
  obtain ⟨first, rest, rfl⟩ := List.exists_cons_of_ne_nil h
  rfl

theorem ofAsked_flatten {lists : List (List String)} (h : lists ≠ []) :
    ofAsked schema [lists.flatten] = ofAsked schema lists := by
  rw [ofAsked_of_ne_nil h, ofAsked_of_ne_nil (List.cons_ne_nil _ []), List.flatten_singleton]

theorem asked_ofAsked {query : String}
    (h : ∀ names ∈ Params.asked query schema.fullName, ∀ name ∈ names, name ∈ schema.allFields) :
    Asked query schema (ofAsked schema (Params.asked query schema.fullName)) := by
  by_cases hnone : Params.asked query schema.fullName = []
  · rw [hnone]
    exact ⟨by rw [hnone], nofun, nofun, nofun⟩
  have hmem (name : String) (hm : name ∈
      (Params.asked query schema.fullName).flatten.eraseDups) : name ∈ schema.allFields := by
    obtain ⟨names, hnames, hm⟩ := List.mem_flatten.1 (List.mem_eraseDups.1 hm)
    exact h names hnames name hm
  have hnodup := Grouping.nodup_eraseDups (Params.asked query schema.fullName).flatten
  refine ⟨rfl, ?_, ?_, ?_⟩ <;> rw [ofAsked_of_ne_nil hnone]
  · rintro _ ⟨⟩
    split
    · exact hnodup
    · rename_i hkey
      rw [← List.concat_eq_append]
      exact hnodup.concat hkey
  · rintro _ ⟨⟩
    split
    · assumption
    · simp
  · rintro _ ⟨⟩ name hm
    split at hm
    · exact hmem name hm
    · rcases List.mem_append.1 hm with hm | hm
      · exact hmem name hm
      · rw [List.mem_singleton.1 hm]
        exact List.mem_cons_self

end Selection

namespace Params

theorem asked_eq {ps : List (List Char)} {parts : List Params} (hps : ∀ pair ∈ ps, IsPair pair)
    (h : Parts ps parts) (typeName : String) :
    ps.filterMap (fun pair => (Entry.ofPair pair).toOption.bind (Entry.asked? typeName)) =
      ((parts.flatMap (·.fields)).filter (·.typeName = typeName)).map (·.names) := by
  induction h with
  | nil => rfl
  | @cons pair part ps parts halone _ ih =>
    obtain ⟨hpair, hps⟩ := List.forall_mem_cons.1 hps
    rw [alone_eq hpair.1 hpair.2, map_eq_ok] at halone
    obtain ⟨e, he, rfl⟩ := halone
    rw [List.filterMap_cons, he, ih hps, List.flatMap_cons, List.filter_append, List.map_append]
    cases e with
    | fields type names =>
      by_cases htype : type = typeName
      · simp [Except.toOption, Entry.asked?, ofEntry, htype]
      · simp [Except.toOption, Entry.asked?, ofEntry, htype]
    | _ => rfl

/-- Where every pair is an entry, the entries ask. -/
theorem asked_of_entries {query : String} {es : List Entry}
    (h : (pairs query).mapM Entry.ofPair = .ok es) (typeName : String) :
    asked query typeName = es.filterMap (Entry.asked? typeName) := by
  rw [mapM_eq_ok] at h
  unfold asked
  generalize pairs query = ps at h
  induction h with
  | nil => rfl
  | cons he _ ih =>
    rw [List.filterMap_cons, List.filterMap_cons, he, ih]
    rfl

/-- The fields parameter of a type has what is asked for it. -/
theorem mem_fields_iff {query : String} {params : Params} (h : parse query = .ok params)
    {param : FieldsParam} : param ∈ params.fields ↔ asked query param.typeName ≠ [] ∧
      param.names = (asked query param.typeName).flatten := by
  obtain ⟨-, parts, hparts, rfl⟩ := parse_eq_ok_iff.1 h
  rw [asked, asked_eq (fun _ => isPair_of_mem_pairs) hparts, ← List.flatMap_def]
  show param ∈ byType.grouped (parts.flatMap (·.fields)) ↔ _
  rw [byType.mem_grouped_iff]
  simp only [ne_eq, List.map_eq_nil_iff, List.filter_eq_nil_iff, decide_eq_true_eq, not_forall,
    not_not, exists_prop]
  rfl

end Params

namespace Plan

open IncludeNode

/-! ## Selections of one type -/

theorem distinct_eq_eraseDups (names : List String) : distinct names = names.eraseDups := by
  induction names using List.reverseRecOn with
  | nil => rfl
  | append_singleton names name ih =>
    rw [distinct, List.foldl_append, List.foldl_cons, List.foldl_nil, Grouping.eraseDups_concat]
    show (if name ∈ distinct names then distinct names else distinct names ++ [name]) = _
    rw [ih]
    simp only [List.mem_eraseDups]

/-- What is made of a fields parameter. -/
theorem compileSelection_eq_ok_iff {param : FieldsParam} {target : String} {names : List String} :
    compileSelection r param = .ok (target, names) ↔
      ∃ owner, r.schema? param.typeName = some owner ∧
        (∀ name ∈ param.names, owner.hasField name) ∧ target = owner.fullName ∧
        Selection.only names = .ofAsked owner [param.names] := by
  unfold compileSelection
  cases r.schema? param.typeName with
  | none => simp
  | some owner =>
    dsimp only
    split
    · rename_i hnone
      have hfields : ∀ name ∈ param.names, owner.hasField name := by
        simpa [List.filter_eq_nil_iff] using hnone
      simp only [distinct_eq_eraseDups, Except.ok.injEq, Prod.mk.injEq, Option.some.injEq,
        exists_eq_left']
      rw [Selection.ofAsked_of_ne_nil (List.cons_ne_nil _ []), List.flatten_singleton,
        Selection.only.injEq, eq_comm, eq_comm (a := names)]
      exact (and_iff_right hfields).symm
    · rename_i hsome
      refine iff_of_false nofun ?_
      rintro ⟨owner, ⟨⟩, hfields, -⟩
      exact hsome (by simpa [List.filter_eq_nil_iff] using hfields)

/-- Applies the selections for a full name, one after the other. -/
def applied (target : String) (selections : List (String × List String)) (start : Selection) :
    Selection :=
  selections.foldl (fun chosen (t, names) => if t = target then .only names else chosen) start

/-- Where there is a selection for a full name, the last one counts. -/
theorem of_exists_selection {P : Selection → Prop} {selections : List (String × List String)}
    (h : ∀ selection ∈ selections, selection.1 = schema.fullName → P (.only selection.2))
    (hm : ∃ selection ∈ selections, selection.1 = schema.fullName) {start : Selection} :
    P (applied schema.fullName selections start) := by
  induction selections generalizing start with
  | nil => simp at hm
  | cons selection rest ih =>
    obtain ⟨hfirst, hrest⟩ := List.forall_mem_cons.1 h
    rw [applied, List.foldl_cons]
    by_cases he : selection.1 = schema.fullName
    · refine of_selections hrest ?_
      dsimp only
      rw [if_pos he]
      exact hfirst he
    · rw [List.exists_mem_cons_iff] at hm
      exact ih hrest (hm.resolve_left he)

section

variable {query : String} {params : Params} (hr : r.Coherent) (ho : owner ∈ r.schemas)
  (hq : Params.parse query = .ok params)
include hr ho hq

/-- What is selected for a type is what is asked for it. -/
theorem only_eq_ofAsked {selection : String × List String}
    (hm : selection ∈ (sortOut (params.fields.map (compileSelection r))).2)
    (he : selection.1 = owner.fullName) :
    Selection.only selection.2 = .ofAsked owner (Params.asked query owner.fullName) := by
  obtain ⟨param, hparam, hselection⟩ := List.mem_map.1 (mem_of_mem_sortOut hm)
  obtain ⟨hne, hnames⟩ := (Params.mem_fields_iff hq).1 hparam
  obtain ⟨target, htarget, -, htype, honly⟩ := compileSelection_eq_ok_iff.1 hselection
  obtain ⟨htm, htn⟩ := Registry.mem_of_schema? htarget
  obtain rfl := hr.eq_of_fullName htm ho (htype.symm.trans he)
  rw [← htn] at hne hnames
  rw [honly, hnames, Selection.ofAsked_flatten hne]

/-- Where something is asked for a type and every fields parameter is accepted, there is a
selection for it. -/
theorem exists_selection (hall : ∀ param ∈ params.fields, ∃ selection,
      compileSelection r param = .ok selection)
    (hne : Params.asked query owner.fullName ≠ []) :
    ∃ selection ∈ (sortOut (params.fields.map (compileSelection r))).2,
      selection.1 = owner.fullName := by
  have hparam : ⟨owner.fullName, (Params.asked query owner.fullName).flatten⟩ ∈ params.fields :=
    (Params.mem_fields_iff hq).2 ⟨hne, rfl⟩
  obtain ⟨selection, hselection⟩ := hall _ hparam
  obtain ⟨target, htarget, -, htype, -⟩ := compileSelection_eq_ok_iff.1 hselection
  rw [hr.schema?_fullName ho] at htarget
  obtain rfl := Option.some.inj htarget
  exact ⟨selection, mem_sortOut_iff.2 (List.mem_map.2 ⟨_, hparam, hselection⟩), htype⟩

/-- What is selected in the end is what is asked for. -/
theorem applied_eq_ofAsked (hall : ∀ param ∈ params.fields, ∃ selection,
      compileSelection r param = .ok selection) :
    applied owner.fullName (sortOut (params.fields.map (compileSelection r))).2 .all =
      .ofAsked owner (Params.asked query owner.fullName) := by
  by_cases hnone : Params.asked query owner.fullName = []
  · refine of_selections (P := (· = _)) (fun _ => only_eq_ofAsked hr ho hq) ?_
    rw [hnone]
    rfl
  · exact of_exists_selection (P := (· = _)) (fun _ => only_eq_ofAsked hr ho hq)
      (exists_selection hr ho hq hall hnone)

end

/-! ## The nodes of a tree -/

theorem selection_select (target : String) (names : List String) (node : IncludeNode) :
    (select target names node).selection =
      if target = node.target then .only names else node.selection := by
  cases node
  rw [select]
  exact if_congr eq_comm rfl rfl

theorem selection_narrow (selections : List (String × List String)) (node : IncludeNode) :
    (narrow selections node).selection = applied node.target selections node.selection := by
  induction selections generalizing node with
  | nil => rfl
  | cons selection rest ih =>
    rw [narrow, List.foldl_cons]
    refine (ih _).trans ?_
    obtain ⟨target, names⟩ := selection
    dsimp only
    rw [target_select, selection_select]
    rfl

/-- Every node of a forest selects all. -/
def SelectsAll (nodes : List IncludeNode) : Prop :=
  ∀ names node, Reached nodes names node → node.selection = .all

theorem selectsAll_nil : SelectsAll [] := by
  rintro names node (hm | ⟨hm, -⟩) <;> cases hm

theorem selectsAll_iff {nodes : List IncludeNode} : SelectsAll nodes ↔
    ∀ node ∈ nodes, node.selection = .all ∧ SelectsAll node.nested := by
  constructor
  · intro h node hm
    exact ⟨h _ node (.root hm), fun names last hr => h _ last (.deeper hm hr)⟩
  · rintro h names node (hm | ⟨hm, hr⟩)
    · exact (h _ hm).1
    · exact (h _ hm).2 _ _ hr

/-- The nodes that a path adds select all. -/
theorem selectsAll_grow {path : String} {names : List String} {nodes : List IncludeNode}
    (h : SelectsAll nodes) : SelectsAll (grow r path schema names nodes).1 := by
  induction names generalizing schema nodes with
  | nil => exact h
  | cons name rest ih =>
    unfold grow
    cases r.association? schema name with
    | none => exact h
    | some a =>
      dsimp only
      -- the node of the relationship, which may be there already
      have hnode : ((nodes.find? (·.relationship = name)).getD
          (.leaf name a.target.fullName)).selection = .all ∧ SelectsAll
            ((nodes.find? (·.relationship = name)).getD (.leaf name a.target.fullName)).nested := by
        cases hf : nodes.find? (·.relationship = name) with
        | none => exact ⟨rfl, selectsAll_nil⟩
        | some node => exact selectsAll_iff.1 h node (List.mem_of_find?_eq_some hf)
      refine selectsAll_iff.2 fun node hm => ?_
      rcases mem_place hm with rfl | hm
      · exact ⟨hnode.1, ih hnode.2⟩
      · exact selectsAll_iff.1 h node hm

theorem selectsAll_compileInclude {paths : List String} :
    SelectsAll (compileInclude r schema paths).1 :=
  of_compileInclude selectsAll_nil fun _ _ _ => selectsAll_grow

/-! ## Plans -/

/-- **What is asked for is what is selected,** at the root and at every node of the tree. -/
theorem selects_asked (h : Registry.assemble schemas = .ok r) (hs : schema ∈ schemas)
    {query : String} {id : Option String} {plan : Plan}
    (hplan : ofQuery r schema query id = .ok plan) :
    plan.attributes.Asked query schema ∧
      ∀ names node, Reached plan.includes names node → ∃ owner ∈ schemas,
        r.Leads schema names owner ∧ node.target = owner.fullName ∧
          node.selection.Asked query owner := by
  have hr := Registry.coherent_of_assemble h
  have hindexes := Registry.indexes_of_assemble h
  obtain ⟨params, hq, hcompile⟩ := ofQuery_eq_ok.1 hplan
  have hall : ∀ param ∈ params.fields, param.Accepted schemas :=
    (flatten_sortOut_eq_nil_iff hindexes hr).1 (compile_isOk_iff.1 ⟨plan, hcompile⟩).1
  have hselected {owner : Schema} (ho : owner ∈ schemas) : (applied owner.fullName
      (sortOut (params.fields.map (compileSelection r))).2 .all).Asked query owner := by
    rw [applied_eq_ofAsked hr (hindexes.registered ▸ ho) hq fun param hm =>
      (compileSelection_isOk_iff hindexes hr).2 (hall param hm)]
    refine Selection.asked_ofAsked fun names hm name hname => ?_
    have hparam : ⟨owner.fullName, (Params.asked query owner.fullName).flatten⟩ ∈ params.fields :=
      (Params.mem_fields_iff hq).2 ⟨List.ne_nil_of_mem hm, rfl⟩
    obtain ⟨target, ht, hn, hfields⟩ := hall _ hparam
    obtain rfl := hr.eq_of_fullName (hindexes.registered ▸ ht) (hindexes.registered ▸ ho) hn
    exact hfields name (List.mem_flatten.2 ⟨names, hm, hname⟩)
  obtain ⟨hroot, -, hincludes, -⟩ := parts_of_compile hcompile
  refine ⟨hroot ▸ hselected hs, fun names node hreached => ?_⟩
  rw [hincludes, foldl_selectAll] at hreached
  obtain ⟨wide, hwide, rfl⟩ := reached_map_narrow.1 hreached
  obtain ⟨owner, hleads, ht⟩ := exists_leads_of_reached hwide resolves_compileInclude
  have ho : owner ∈ schemas := ((hindexes.leads_iff_walks hr hs).1 hleads).mem hs
  refine ⟨owner, ho, hleads, by rw [target_narrow, ht], ?_⟩
  rw [selection_narrow, selectsAll_compileInclude names wide hwide, ht]
  exact hselected ho

/-- Folders with the files of the folders around those around them. Of folders nothing but the key
is wanted, of files what two parameters ask for. -/
def sizesAround : String :=
  "include=parent.parent.files&fields[File]=size&fields[Folder]=&fields[File]=name,size"

/-- The parameters of this query string. -/
def sizesParams : Params where
  includes := ["parent.parent.files"]
  fields := [⟨"File", ["size", "name", "size"]⟩, ⟨"Folder", []⟩]

theorem entries_sizesAround : (Params.pairs sizesAround).mapM Entry.ofPair =
    .ok [.includes ["parent.parent.files"], .fields "File" ["size"], .fields "Folder" [],
      .fields "File" ["name", "size"]] := by decide +kernel

/-- Folders are read at the root and around it, and their key alone is selected everywhere. -/
theorem selects_sizesAround : Registry.assemble [folder, file] = .ok folders ∧
    folder ∈ [folder, file] ∧ ∃ plan, ofQuery folders folder sizesAround none = .ok plan ∧
      (IncludeNode.find? plan.includes ["parent", "parent", "files"]).isSome ∧
      plan.attributes = .only ["id"] ∧ ∀ names node, Reached plan.includes names node →
        (node.target = "Folder" ∧ node.selection = .only ["id"]) ∨
          (node.target = "File" ∧ node.selection = .only ["size", "name", "id"]) := by
  have hs : folder ∈ [folder, file] := List.mem_cons_self
  have hparams : Params.parse sizesAround = .ok sizesParams :=
    (Params.parse_of_entries entries_sizesAround).trans (by decide +kernel)
  have hfolder : Selection.ofAsked folder (Params.asked sizesAround folder.fullName) =
      .only ["id"] := by
    rw [Params.asked_of_entries entries_sizesAround]
    decide +kernel
  have hfile : Selection.ofAsked file (Params.asked sizesAround file.fullName) =
      .only ["size", "name", "id"] := by
    rw [Params.asked_of_entries entries_sizesAround]
    decide +kernel
  have hfound : (compile folders folder sizesParams none).toOption.any fun plan =>
      (IncludeNode.find? plan.includes ["parent", "parent", "files"]).isSome := by decide +kernel
  refine ⟨assemble_folders, hs, ?_⟩
  cases hcompile : compile folders folder sizesParams none with
  | error e =>
    rw [hcompile] at hfound
    cases hfound
  | ok plan =>
    rw [hcompile] at hfound
    have hplan := ofQuery_eq_ok.2 ⟨_, hparams, hcompile⟩
    obtain ⟨hroot, hnodes⟩ := selects_asked assemble_folders hs hplan
    refine ⟨plan, hplan, hfound, hroot.eq.trans hfolder, fun names node hreached => ?_⟩
    obtain ⟨owner, ho, -, ht, hasked⟩ := hnodes names node hreached
    rw [List.mem_pair] at ho
    rcases ho with rfl | rfl
    · exact .inl ⟨ht, hasked.eq.trans hfolder⟩
    · exact .inr ⟨ht, hasked.eq.trans hfile⟩

end Plan

end ResourceApi
