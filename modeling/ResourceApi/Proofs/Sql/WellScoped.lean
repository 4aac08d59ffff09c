import ResourceApi.Proofs.Engine.Addressing
import ResourceApi.Proofs.Sql.Aliases
import ResourceApi.Proofs.Sql.Literals

/-!
# Well-scoped statements

**Theorem (`Statement.scoped_of_assemble`).** The text of every statement that selects, counts,
changes or deletes rows is well-scoped (`Sql.Scoped`): each of the aliases `t0`, `t1`, ... is
introduced by one `FROM`, it is used only in the `SELECT` that introduces it and in the queries
inside, and the column behind it is one that the table of the alias is created with. The statement
can be rendered if the names of the plan or filter resolve.

A plan must not ask for a related attribute or relationship whose name holds an apostrophe: what
stands behind the apostrophe is read as a part of the statement, and may be a column of no table
(`Statement.not_scoped_stray`).
-/

namespace ResourceApi

open Sql (Item Unquoted aliasName)
open Sql.Item (Settled Plain Bound AllBound sources selected introduced gather)

/-! ## Aliases in use -/

namespace Sql.Item

/-- The table in front of a column. -/
@[simp]
def used? : Item → Option String
  | reference table _ => some table
  | _ => none

/-- The tables in front of columns, from left to right. -/
abbrev used (items : List Item) : List String := gather used? items

theorem mem_introduced_of_mem_sources {entry : String × String} {items : List Item}
    (h : entry ∈ sources items) : entry.2 ∈ introduced items := by
  induction items with
  | nil => cases h
  | cons item rest ih =>
    cases item with
    | source table name =>
      rw [sources_source, List.mem_cons] at h
      rcases h with rfl | h
      · simp
      · simp [ih h]
    | token lexeme => simp [ih h]
    | reference table column => simp [ih h]
    | group items => simp [ih h]

theorem mem_sources_of_mem_selected {items : List Item} {entry : String × String}
    (h : entry ∈ selected items) : entry ∈ sources items := by
  unfold selected at h
  split at h
  · exact h
  · cases h

mutual

theorem mem_introduced_of_bound {r : Registry} {scope : List (String × TableDefinition)} :
    ∀ {item : Item}, item.Bound r scope → ∀ name ∈ used [item],
    name ∈ introduced [item] ∨ name ∈ scope.map (·.1)
  | token lexeme, _, name, hname => by simp at hname
  | source table other, _, name, hname => by simp at hname
  | reference table column, h, name, hname => by
    rw [Bound] at h
    obtain ⟨t, ht, -⟩ := h
    obtain rfl : name = table := by simpa using hname
    exact .inr (List.mem_map_of_mem ht)
  | group items, h, name, hname => by
    rw [Bound] at h
    obtain ⟨own, hown, -, hitems⟩ := h
    have hused : name ∈ used items := by simpa using hname
    rcases mem_introduced_of_allBound hitems name hused with hintroduced | hscope
    · exact .inl (by simpa using hintroduced)
    · rw [List.map_append, List.mem_append] at hscope
      refine hscope.imp_left fun hmem => ?_
      obtain ⟨⟨name, t⟩, he, rfl⟩ := List.mem_map.1 hmem
      have hselected : (t.name, name) ∈ selected items := hown ▸ List.mem_map_of_mem he
      simpa using mem_introduced_of_mem_sources (mem_sources_of_mem_selected hselected)

/-- An alias that is used is introduced, too, or comes from around. -/
theorem mem_introduced_of_allBound {r : Registry} {scope : List (String × TableDefinition)} :
    ∀ {items : List Item}, AllBound r scope items → ∀ name ∈ used items,
    name ∈ introduced items ∨ name ∈ scope.map (·.1)
  | [], _, name, hname => nomatch hname
  | item :: rest, h, name, hname => by
    rw [allBound_cons] at h
    have hcons (f : Item → Option String) :
        gather f (item :: rest) = gather f [item] ++ gather f rest := gather_append [item] rest
    have hname : name ∈ used [item] ∨ name ∈ used rest := by
      rw [← List.mem_append, ← hcons]
      exact hname
    rw [introduced, hcons, List.mem_append]
    rcases hname with hfirst | hrest
    · exact (mem_introduced_of_bound h.1 name hfirst).imp_left .inl
    · exact (mem_introduced_of_allBound h.2 name hrest).imp_left .inr

end

end Sql.Item

namespace Sql

/-- Each of the first aliases is introduced once, and every column is one of the table that its
alias stands for. -/
structure Item.WellScoped (r : Registry) (items : List Item) : Prop where
  isSettled : Settled items
  bound : (Item.group items).Bound r []
  aliases : ∃ k, (introduced items).Perm ((List.range k).map aliasName)

/-- Every alias that is used is introduced, too. -/
theorem Item.WellScoped.used_subset {r : Registry} {items : List Item} (h : WellScoped r items) :
    used items ⊆ introduced items := by
  intro name hname
  have hmem := mem_introduced_of_bound h.bound name (by simpa using hname)
  simpa using hmem

/-- The text is read as a tree that is well-scoped. -/
def Scoped (r : Registry) (text : String) : Prop :=
  ∃ items, Item.ofText? text = some items ∧ Item.WellScoped r items

end Sql

/-! ## Statements about the rows of a query -/

namespace KeyQuery

variable {q : KeyQuery} {r : Registry} (h : Item.WellScoped r q.items)
include h

theorem wellScoped_countItems : Item.WellScoped r q.countItems where
  isSettled := settled_countItems
  bound := by
    have hall : (Item.group [.symbol "*"]).Bound r [] := Item.bound_group (by simp) rfl
    exact Item.bound_group (by simpa [countItems] using ⟨hall, h.bound⟩) rfl
  aliases := by simpa [countItems] using h.aliases

theorem wellScoped_updateItems (values : List (String × SqlValue)) :
    Item.WellScoped r (q.updateItems values) where
  isSettled := settled_updateItems
  bound := by
    have hvalues : AllBound r []
        (Item.listed (values.map fun value => [.name value.1, .symbol "=", .mark])) :=
      Item.allBound_listed (List.forall_mem_map.2 fun _ _ => by simp)
    have hsources : sources
        (Item.listed (values.map fun value => [.name value.1, .symbol "=", .mark])) = [] :=
      Item.sources_listed (List.forall_mem_map.2 fun _ _ => rfl)
    refine Item.bound_group ?_ ?_
    · simpa [updateItems, hvalues] using h.bound
    · simp [updateItems, hsources]
  aliases := by
    have hsame : introduced (q.updateItems values) = introduced q.items := by
      simp [updateItems, List.flatMap_map]
    rw [hsame]
    exact h.aliases

theorem wellScoped_deleteItems : Item.WellScoped r q.deleteItems where
  isSettled := settled_deleteItems
  bound := Item.bound_group (by simpa [deleteItems] using h.bound) rfl
  aliases := by simpa [deleteItems] using h.aliases

end KeyQuery

namespace Statement

open Sql (Scoped)

variable {schemas : List Schema} {r : Registry} {schema : Schema}

section

variable (hr : Registry.assemble schemas = .ok r) (hs : schema ∈ r.schemas)
include hr hs

theorem wellScoped_ofPlan {plan : Plan} {q : SelectQuery} {outputs : List Output}
    (h : ofPlan r schema plan = .ok (q, outputs)) : Item.WellScoped r q.items where
  isSettled := q.settled_items
  bound := Rendering.bound_ofPlan hr hs h
  aliases := Rendering.introduced_ofPlan h

/-- The query for the keys of the rows that a filter selects is plain: it has no keys of objects. -/
theorem wellScoped_keys {p : Predicate} {q : KeyQuery}
    (h : Rendering.start (Rendering.keys r schema p) = .ok q) :
    Plain q.items ∧ Item.WellScoped r q.items := by
  have hbound := Rendering.bound_keys hr hs h
  have hplain := Item.plain_of_bound hr (by simp) hbound (by simp [q.literals_items])
  exact ⟨by simpa using hplain, q.settled_items, hbound, Rendering.introduced_keys h⟩

theorem scoped_ofCount {p : Predicate} {s : Statement} (h : ofCount r schema p = .ok s) :
    Scoped r s.sql := by
  obtain ⟨q, hq, hcount⟩ := bind_eq_ok.1 h
  obtain rfl := pure_eq_ok.1 hcount
  obtain ⟨hplain, hscoped⟩ := wellScoped_keys hr hs hq
  exact ⟨_, KeyQuery.ofText?_count hplain, KeyQuery.wellScoped_countItems hscoped⟩

theorem scoped_ofUpdate {row : Object} {p : Predicate} {s : Statement}
    (h : ofUpdate r schema row p = .ok s) : Scoped r s.sql := by
  obtain ⟨values, hvalues, h⟩ := bind_eq_ok.1 h
  obtain ⟨q, hq, hupdate⟩ := bind_eq_ok.1 h
  obtain rfl := pure_eq_ok.1 hupdate
  obtain rfl := assignments_eq_ok hvalues
  obtain ⟨hplain, hscoped⟩ := wellScoped_keys hr hs hq
  have hcolumns : ∀ value ∈ row.map fun m => (columnName m.1, SqlValue.ofJson m.2),
      Unquoted value.1 := List.forall_mem_map.2 fun m _ => unquoted_snake m.1
  exact ⟨_, KeyQuery.ofText?_update hplain hcolumns, KeyQuery.wellScoped_updateItems hscoped _⟩

theorem scoped_ofDelete {p : Predicate} {s : Statement} (h : ofDelete r schema p = .ok s) :
    Scoped r s.sql := by
  obtain ⟨q, hq, hdelete⟩ := bind_eq_ok.1 h
  obtain rfl := pure_eq_ok.1 hdelete
  obtain ⟨hplain, hscoped⟩ := wellScoped_keys hr hs hq
  exact ⟨_, KeyQuery.ofText?_delete hplain, KeyQuery.wellScoped_deleteItems hscoped⟩

/-- **Statements are well-scoped.** They can be rendered if the names of the plan or filter resolve,
and the fields of the row to be set have columns. The tree of a plan's query is well-scoped in any
case, and its text is if no key of the plan holds an apostrophe. -/
theorem scoped_of_assemble :
    (∀ plan, (plan.Resolves r schema → ∃ q outputs, ofPlan r schema plan = .ok (q, outputs)) ∧
      ∀ q outputs, ofPlan r schema plan = .ok (q, outputs) → Item.WellScoped r q.items ∧
        ((∀ key ∈ plan.keys r schema, '\'' ∉ key.toList) → Scoped r q.sql)) ∧
    (∀ p, (p.Resolves r schema → ∃ s, ofCount r schema p = .ok s) ∧
      ∀ s, ofCount r schema p = .ok s → Scoped r s.sql) ∧
    (∀ row p, ((∀ field ∈ row.keys, ∃ c, r.column? schema field = some c) →
        p.Resolves r schema → ∃ s, ofUpdate r schema row p = .ok s) ∧
      ∀ s, ofUpdate r schema row p = .ok s → Scoped r s.sql) ∧
    ∀ p, (p.Resolves r schema → ∃ s, ofDelete r schema p = .ok s) ∧
      ∀ s, ofDelete r schema p = .ok s → Scoped r s.sql := by
  have hkeys {p : Predicate} (h : p.Resolves r schema) :
      ∃ q, Rendering.start (Rendering.keys r schema p) = .ok q := by
    obtain ⟨q, hq, -⟩ := Rendering.start_eq_ok (Rendering.gives_keys h)
    exact ⟨q, hq⟩
  refine ⟨fun plan => ⟨fun h => ?_, fun q outputs h => ?_⟩,
    fun p => ⟨ofCount_eq_ok, fun s => scoped_ofCount hr hs⟩,
    fun row p => ⟨fun hrow h => ?_, fun s => scoped_ofUpdate hr hs⟩,
    fun p => ⟨fun h => ?_, fun s => scoped_ofDelete hr hs⟩⟩
  · obtain ⟨q, hq⟩ := ofPlan_eq_ok h
    exact ⟨q, _, hq⟩
  · have hscoped := wellScoped_ofPlan hr hs h
    exact ⟨hscoped, fun hkeys => ⟨q.items, Registry.ofText?_ofPlan hr hs h hkeys, hscoped⟩⟩
  · exact exists_bind_eq_ok (exists_assignments_iff.2 hrow) fun _ =>
      exists_bind_eq_ok (hkeys h) fun _ => ⟨_, rfl⟩
  · exact exists_bind_eq_ok (hkeys h) fun _ => ⟨_, rfl⟩

end

/-- The query for the names of the nodes below one of a name introduces an alias for the nodes, one
for those above them, one for the filter and one for the order. -/
theorem scoped_below : Registry.assemble [treeNode] = .ok tree ∧
    Plan.belowPlan.Resolves tree treeNode ∧
    (∃ q outputs, ofPlan tree treeNode Plan.belowPlan = .ok (q, outputs) ∧ Scoped tree q.sql ∧
      Item.WellScoped tree q.items ∧ introduced q.items = ["t1", "t0", "t2", "t3"]) ∧
    ∃ s, ofDelete tree treeNode Plan.belowPlan.filter = .ok s ∧ Scoped tree s.sql := by
  have hnode : treeNode ∈ tree.schemas := by decide
  obtain ⟨hplans, -, -, hdelete⟩ := scoped_of_assemble assemble_node hnode
  obtain ⟨hresolves, -⟩ := Plan.renders_of_ofQuery assemble_node hnode (.inl rfl)
    Plan.ofQuery_belowQuery
  obtain ⟨-, hscoped⟩ := hplans Plan.belowPlan
  obtain ⟨hexists, hdeletes⟩ := hdelete Plan.belowPlan.filter
  obtain ⟨s, hs⟩ := hexists hresolves.filter
  obtain ⟨q, outputs, hq, hnames⟩ : ∃ q outputs,
      ofPlan tree treeNode Plan.belowPlan = .ok (q, outputs) ∧
      introduced q.items = ["t1", "t0", "t2", "t3"] := ⟨_, _, rfl, by decide +kernel⟩
  obtain ⟨htree, htext⟩ := hscoped q outputs hq
  exact ⟨assemble_node, hresolves, ⟨q, outputs, hq, htext (by decide +kernel), htree, hnames⟩,
    s, hs, hdeletes s hs⟩

end Statement

/-! ## A stray column -/

/-- Notes with an attribute whose name holds a column between apostrophes. -/
def strayNote : Schema where
  name := "Note"
  idType := .integer
  attributes := [{ name := "x\', \"t9\".\"x\", \'y", type := .string }]
  relationships := [("up", .belongsTo "Note" none)]

/-- The registry of notes with such an attribute. -/
def strayNotes : Registry :=
  ⟨[strayNote], [⟨"up", strayNote, strayNote, .belongsTo "upId"⟩], [⟨"Note", "upId", strayNote⟩]⟩

/-- **The name of an attribute may be read as a column.** No `FROM` introduces the alias in it. -/
theorem Statement.not_scoped_stray : Registry.assemble [strayNote] = .ok strayNotes ∧
    ∃ plan q outputs, Plan.compile strayNotes strayNote { includes := ["up"] } none = .ok plan ∧
      ofPlan strayNotes strayNote plan = .ok (q, outputs) ∧
      (Item.ofText? q.sql).map (fun items => (Item.used items, introduced items)) =
        some (["t0", "t0", "t1", "t9", "t1", "t1", "t0"], ["t1", "t0"]) ∧
      ¬Sql.Scoped strayNotes q.sql := by
  obtain ⟨q, outputs, hq, hread⟩ : ∃ q outputs,
      ofPlan strayNotes strayNote { includes := [.mk "up" "Note" .all []] } = .ok (q, outputs) ∧
      (Item.ofText? q.sql).map (fun items => (Item.used items, introduced items)) =
        some (["t0", "t0", "t1", "t9", "t1", "t1", "t0"], ["t1", "t0"]) :=
    ⟨_, _, rfl, by decide +kernel⟩
  refine ⟨by decide +kernel, _, q, outputs, rfl, hq, hread, fun hscoped => ?_⟩
  obtain ⟨items, hitems, hscoped⟩ := hscoped
  rw [hitems] at hread
  obtain ⟨hused, hnames⟩ := Prod.mk.inj (Option.some.inj hread)
  have hstray : "t9" ∈ introduced items := hscoped.used_subset (by simp [hused])
  simp [hnames] at hstray

end ResourceApi
