import ResourceApi.Proofs.Sql.Lookup
import ResourceApi.Proofs.Sql.Placeholders
import ResourceApi.Proofs.Sql.Texts
import ResourceApi.Proofs.Store.Expressible

/-!
# Scopes of aliases

An alias stands for a table in the `SELECT` that takes rows from the table, and in the queries
inside. A tree is *bound* in a scope (`Sql.Item.Bound`) if every alias in front of a column stands
for a table there, and the column is one that the table is created with.

**Theorem (`Rendering.bound_ofPlan`).** The query of a plan is bound in the empty scope. The proof
follows the recursion of the rendering: below an association, the scope holds the table of its
target, too (`Rendering.inScope_below`).
-/

namespace ResourceApi

open Sql (Item Unquoted aliasName)

/-! ## Scopes -/

/-- The table of a schema, or the join table of an association. -/
def Registry.Defines (r : Registry) (t : TableDefinition) : Prop :=
  (∃ schema ∈ r.schemas, t = r.tableOf schema) ∨
    ∃ a ∈ r.associations, ∃ join, a.join? = some join ∧ t = Registry.joinTableOf a join

namespace Sql.Item

/-- The tables that rows are taken from, with the names they get. Those in brackets are left out. -/
def sources : List Item → List (String × String)
  | [] => []
  | source table name :: rest => (table, name) :: sources rest
  | _ :: rest => sources rest

@[simp] theorem sources_nil : sources [] = [] := rfl

@[simp] theorem sources_token (lexeme : Lexeme) (rest : List Item) :
    sources (token lexeme :: rest) = sources rest := rfl

@[simp] theorem sources_reference (table column : String) (rest : List Item) :
    sources (reference table column :: rest) = sources rest := rfl

@[simp] theorem sources_source (table name : String) (rest : List Item) :
    sources (source table name :: rest) = (table, name) :: sources rest := rfl

@[simp] theorem sources_group (items rest : List Item) :
    sources (group items :: rest) = sources rest := rfl

@[simp] theorem sources_append (a b : List Item) : sources (a ++ b) = sources a ++ sources b := by
  induction a with
  | nil => rfl
  | cons item a ih => cases item <;> simp [ih]

theorem sources_intercalate {separator : List Item} (hs : sources separator = [])
    {parts : List (List Item)} (h : ∀ part ∈ parts, sources part = []) :
    sources (separator.intercalate parts) = [] := by
  induction parts with
  | nil => rfl
  | cons part parts ih =>
    rw [List.forall_mem_cons] at h
    cases parts with
    | nil => simpa using h.1
    | cons next parts => simp [List.intercalate_cons_cons, h.1, hs, ih h.2]

theorem sources_listed {parts : List (List Item)} (h : ∀ part ∈ parts, sources part = []) :
    sources (listed parts) = [] := sources_intercalate rfl h

theorem sources_flatMap {α : Type} {xs : List α} {f : α → List Item}
    (h : ∀ x ∈ xs, sources (f x) = []) : sources (xs.flatMap f) = [] := by
  induction xs with
  | nil => rfl
  | cons x xs ih =>
    rw [List.forall_mem_cons] at h
    simp [h.1, ih h.2]

/-- The tables that a `SELECT` takes rows from, with the names they get. -/
def selected : List Item → List (String × String)
  | token ⟨.word, "SELECT"⟩ :: rest => sources rest
  | _ => []

theorem selected_eq_nil {items : List Item} (h : sources items = []) : selected items = [] := by
  unfold selected
  split
  · exact h
  · rfl

mutual

/-- A column is one of the table that its alias stands for. An alias stands for a table in the
`SELECT` that takes rows from it, and in the brackets inside. -/
def Bound (r : Registry) (scope : List (String × TableDefinition)) : Item → Prop
  | token lexeme => lexeme.kind ≠ .illegal
  | reference name column => ∃ t, (name, t) ∈ scope ∧ column ∈ t.columns.map (·.name)
  | source table name => ∃ t, (name, t) ∈ scope ∧ t.name = table
  | group items => ∃ own : List (String × TableDefinition),
      own.map (fun (name, t) => (t.name, name)) = selected items ∧
      (∀ entry ∈ own, r.Defines entry.2) ∧ AllBound r (own ++ scope) items

/-- Every column among some items is one of the table that its alias stands for. -/
def AllBound (r : Registry) (scope : List (String × TableDefinition)) : List Item → Prop
  | [] => True
  | item :: rest => Bound r scope item ∧ AllBound r scope rest

end

section

variable {r : Registry} {scope : List (String × TableDefinition)}

@[simp] theorem allBound_nil : AllBound r scope [] := trivial

@[simp] theorem allBound_cons {item : Item} {rest : List Item} :
    AllBound r scope (item :: rest) ↔ item.Bound r scope ∧ AllBound r scope rest := by
  rw [AllBound]

@[simp] theorem allBound_append {a b : List Item} :
    AllBound r scope (a ++ b) ↔ AllBound r scope a ∧ AllBound r scope b := by
  induction a with
  | nil => simp
  | cons item a ih => simp [ih, and_assoc]

theorem allBound_intercalate {separator : List Item} (hs : AllBound r scope separator)
    {parts : List (List Item)} (h : ∀ part ∈ parts, AllBound r scope part) :
    AllBound r scope (separator.intercalate parts) := by
  induction parts with
  | nil => trivial
  | cons part parts ih =>
    rw [List.forall_mem_cons] at h
    cases parts with
    | nil => simpa using h.1
    | cons next parts =>
      rw [List.intercalate_cons_cons, allBound_append, allBound_append]
      exact ⟨⟨h.1, hs⟩, ih h.2⟩

theorem allBound_listed {parts : List (List Item)} (h : ∀ part ∈ parts, AllBound r scope part) :
    AllBound r scope (listed parts) :=
  allBound_intercalate (by simp [Bound]) h

theorem allBound_flatMap {α : Type} {xs : List α} {f : α → List Item}
    (h : ∀ x ∈ xs, AllBound r scope (f x)) : AllBound r scope (xs.flatMap f) := by
  induction xs with
  | nil => trivial
  | cons x xs ih =>
    rw [List.forall_mem_cons] at h
    simpa using ⟨h.1, ih h.2⟩

@[simp] theorem bound_token {lexeme : Lexeme} :
    (token lexeme).Bound r scope ↔ lexeme.kind ≠ .illegal := by
  rw [Bound]

/-- Brackets around anything but a query. -/
theorem bound_group {items : List Item} (h : AllBound r scope items) (hs : sources items = []) :
    (group items).Bound r scope := by
  rw [Bound]
  exact ⟨[], (selected_eq_nil hs).symm, by simp, h⟩

/-- A query for rows of one table. -/
theorem bound_select {t : TableDefinition} (ht : r.Defines t) {name : String}
    {before after : List Item} (hbefore : AllBound r ((name, t) :: scope) before)
    (hafter : AllBound r ((name, t) :: scope) after) (hb : sources before = [])
    (ha : sources after = []) :
    (group (word "SELECT" :: (before ++ source t.name name :: after))).Bound r scope := by
  have hsource : (source t.name name).Bound r ((name, t) :: scope) := by
    rw [Bound]
    exact ⟨t, List.mem_cons_self, rfl⟩
  rw [Bound]
  refine ⟨[(name, t)], ?_, by simpa using ht, ?_⟩
  · simp [selected, hb, ha]
  · simpa using ⟨hbefore, hsource, hafter⟩

/-- A query for rows of the table of a schema. -/
theorem bound_selectFrom {schema : Schema} (hs : schema ∈ r.schemas) {name : String}
    {before after : List Item} (hbefore : AllBound r ((name, r.tableOf schema) :: scope) before)
    (hafter : AllBound r ((name, r.tableOf schema) :: scope) after) (hb : sources before = [])
    (ha : sources after = []) :
    (group (word "SELECT" :: (before ++ source schema.tableName name :: after))).Bound r scope :=
  bound_select (.inl ⟨schema, hs, rfl⟩) hbefore hafter hb ha

end

end Sql.Item

/-! ## Sources -/

open Sql.Item (sources)

@[simp] theorem JoinCondition.sources_items (j : JoinCondition) : sources j.items = [] := by
  cases j <;> simp [items, ColumnRef.item]

@[simp] theorem RowCondition.sources_items (c : RowCondition) : sources c.items = [] := by
  cases c with
  | compare _ comparison _ => cases comparison <;> simp [items, ColumnRef.item, Comparison.item]
  | _ => simp [items, ColumnRef.item, Item.marks]

theorem RowCondition.sources_itemsOf (cs : List RowCondition) :
    ∀ part ∈ itemsOf cs, sources part = [] := by
  induction cs with
  | nil => simp [itemsOf]
  | cons c cs ih =>
    rw [itemsOf, List.forall_mem_cons]
    exact ⟨c.sources_items, ih⟩

@[simp] theorem RowCondition.sources_clause (c : Option RowCondition) :
    sources (clauseItems c) = [] := by
  cases c <;> simp [clauseItems]

@[simp] theorem SortValue.sources_items (v : SortValue) : sources v.items = [] := by
  cases v <;> simp [items, ColumnRef.item]

namespace RelatedQuery

theorem sources_items (q : RelatedQuery) : sources q.items = [] := by
  cases q
  rfl

theorem sources_members (fields : List (String × MemberValue))
    (nested : List (String × RelatedQuery)) :
    ∀ part ∈ fields.map fieldItems ++ itemsOf nested, sources part = [] := by
  rw [List.forall_mem_append, List.forall_mem_map]
  constructor
  · rintro ⟨key, value⟩ _
    cases value <;> rfl
  · induction nested with
    | nil => nofun
    | cons member nested ih =>
      rw [itemsOf, List.forall_mem_cons]
      exact ⟨rfl, ih⟩

/-- The tree of a query for related rows is bound if its members are, and what ties its rows. -/
theorem bound_items {r : Registry} {scope : List (String × TableDefinition)} {schema : Schema}
    (hs : schema ∈ r.schemas) {aliasId : Nat} {many : Bool} {fields : List (String × MemberValue)}
    {nested : List (String × RelatedQuery)} {fault : Option ObjectFault} {join : JoinCondition}
    (hmembers : ∀ part ∈ fields.map fieldItems ++ itemsOf nested,
      Item.AllBound r ((aliasName aliasId, r.tableOf schema) :: scope) part)
    (hjoin : Item.AllBound r ((aliasName aliasId, r.tableOf schema) :: scope) join.items) :
    Item.AllBound r scope (mk many fields nested fault schema.tableName aliasId join).items := by
  have hobject : Item.AllBound r ((aliasName aliasId, r.tableOf schema) :: scope)
      [.word "json_object", .group (Item.listed (fields.map fieldItems ++ itemsOf nested))] := by
    have hbrackets := Item.bound_group (Item.allBound_listed hmembers)
      (Item.sources_listed (sources_members fields nested))
    simpa using hbrackets
  cases many with
  | true =>
    have harray := Item.bound_group hobject rfl
    have hbefore : Item.AllBound r ((aliasName aliasId, r.tableOf schema) :: scope)
        [.word "json_group_array", .group [.word "json_object",
          .group (Item.listed (fields.map fieldItems ++ itemsOf nested))]] := by
      simpa using harray
    have hafter : Item.AllBound r ((aliasName aliasId, r.tableOf schema) :: scope)
        (.word "WHERE" :: join.items) := by
      simpa using hjoin
    simpa [items] using Item.bound_selectFrom hs hbefore hafter rfl (by simp)
  | false =>
    have hafter : Item.AllBound r ((aliasName aliasId, r.tableOf schema) :: scope)
        (.word "WHERE" :: (join.items ++ [.word "LIMIT", .number "1"])) := by
      simpa using hjoin
    simpa [items] using Item.bound_selectFrom hs hobject hafter rfl (by simp)

end RelatedQuery

namespace SelectQuery

theorem sources_order (order : List (SortValue × Direction)) : sources (orderItems order) = [] := by
  have hkeys : ∀ part ∈ order.map keyItems, sources part = [] := by
    rw [List.forall_mem_map]
    rintro ⟨value, _ | _⟩ _ <;> simp [keyItems]
  unfold orderItems
  split_ifs
  · rfl
  · simpa using Item.sources_listed hkeys

theorem sources_window (limit offset : Option Nat) : sources (windowItems limit offset) = [] := by
  cases limit <;> cases offset <;> rfl

variable {r : Registry} {scope : List (String × TableDefinition)}

theorem bound_order {order : List (SortValue × Direction)}
    (h : ∀ key ∈ order, Item.AllBound r scope key.1.items) :
    Item.AllBound r scope (orderItems order) := by
  have hkeys : ∀ part ∈ order.map keyItems, Item.AllBound r scope part := by
    rw [List.forall_mem_map]
    rintro ⟨value, _ | _⟩ hm <;> simpa [keyItems] using h _ hm
  unfold orderItems
  split_ifs
  · trivial
  · simpa using Item.allBound_listed hkeys

theorem bound_window (limit offset : Option Nat) :
    Item.AllBound r scope (windowItems limit offset) := by
  cases limit <;> cases offset <;> simp [windowItems]

end SelectQuery

/-! ## Rendering -/

namespace Rendering

open Sql.Item (Bound AllBound)

variable {schemas : List Schema} {r : Registry} {schema : Schema}
  {scope : List (String × TableDefinition)}

/-- The table of a schema stands in the scope under an alias. -/
def InScope (r : Registry) (scope : List (String × TableDefinition)) (table : Nat)
    (schema : Schema) : Prop := (aliasName table, r.tableOf schema) ∈ scope

theorem bound_column {table : Nat} (ht : InScope r scope table schema) {field : String} {c : Column}
    (h : column r schema field = .ok c) : (ColumnRef.mk table c.column).item.Bound r scope := by
  rw [ColumnRef.item, Bound]
  refine ⟨_, ht, ?_⟩
  rw [Registry.names_tableOf]
  exact List.mem_map_of_mem (List.mem_of_find?_eq_some (of_column_eq_ok h).1)

theorem bound_idColumn {table : Nat} (ht : InScope r scope table schema) :
    (ColumnRef.mk table schema.idColumn).item.Bound r scope := by
  rw [ColumnRef.item, Bound]
  exact ⟨_, ht, List.mem_map_of_mem (List.mem_cons_self ..)⟩

theorem bound_marks {α : Type} (values : List α) : (Item.marks values).Bound r scope := by
  refine Item.bound_group (Item.allBound_listed ?_) (Item.sources_listed ?_)
  · simp
  · simp

theorem bound_compare {c : ColumnRef} {operator : Operator} {value : Json}
    {condition : RowCondition} (h : compare c operator value = .ok condition)
    (hc : c.item.Bound r scope) : AllBound r scope condition.items := by
  have hcomparison (comparison : Comparison) : comparison.item.Bound r scope := by
    cases comparison <;> simp [Comparison.item]
  have hbrackets {item : Item} (hitem : item.Bound r scope) (hs : sources [item] = []) :
      (Item.group [item]).Bound r scope :=
    Item.bound_group (by simpa using hitem) hs
  unfold compare at h
  split at h <;> cases h
  case h_9.refl => simpa [RowCondition.items, hc] using ⟨hbrackets hc rfl, hbrackets (by simp) rfl⟩
  all_goals simp [RowCondition.items, hc, bound_marks, hcomparison]

section

variable (hr : Registry.assemble schemas = .ok r)
include hr

theorem bound_key {a : Association} (ha : a ∈ r.associations) {owner other : Schema}
    {field : String}
    (hk : a.KeyOn owner field other) {table : Nat} (ht : InScope r scope table owner) :
    (ColumnRef.mk table (columnName field)).item.Bound r scope := by
  obtain ⟨c, hc⟩ := Registry.exists_column_of_keyOn hr ha hk
  have hcolumn : column r owner field = .ok c := by
    unfold column
    rw [hc]
  rw [← column_eq_ok hcolumn]
  exact bound_column ht hcolumn

theorem bound_join {a : Association} (ha : a ∈ r.associations) {inner table : Nat}
    (hi : InScope r scope inner a.target) (ht : InScope r scope table a.source) :
    Yields (join a inner table) fun j => AllBound r scope j.items := by
  unfold join
  cases hk : a.kind with
  | belongsTo key =>
    refine yields_pure ?_
    simpa [JoinCondition.items] using ⟨bound_idColumn hi, bound_key hr ha (.belongsTo hk) ht⟩
  | hasOne key =>
    refine yields_pure ?_
    simpa [JoinCondition.items] using ⟨bound_key hr ha (.hasOne hk) hi, bound_idColumn ht⟩
  | hasMany key =>
    refine yields_pure ?_
    simpa [JoinCondition.items] using ⟨bound_key hr ha (.hasMany hk) hi, bound_idColumn ht⟩
  | hasManyThrough j =>
    refine (yields_trivial aliasId).bind fun link _ => yields_pure ?_
    have hj : a.join? = some j := by rw [Association.join?, hk]
    have hdefines : r.Defines (Registry.joinTableOf a j) := .inr ⟨a, ha, j, hj, rfl⟩
    have hlink : (aliasName link, Registry.joinTableOf a j) ∈
        (aliasName link, Registry.joinTableOf a j) :: scope := List.mem_cons_self
    have hcolumn {key : String} (hkey : key = j.sourceKey ∨ key = j.targetKey) :
        (ColumnRef.mk link (columnName key)).item.Bound r
          ((aliasName link, Registry.joinTableOf a j) :: scope) := by
      rw [ColumnRef.item, Bound]
      refine ⟨_, hlink, ?_⟩
      obtain rfl | rfl := hkey <;> simp [Registry.joinTableOf, Registry.joinColumn]
    have hbefore : AllBound r ((aliasName link, Registry.joinTableOf a j) :: scope)
        [(ColumnRef.mk link (columnName j.targetKey)).item] := by
      simp [hcolumn]
    have hafter : AllBound r ((aliasName link, Registry.joinTableOf a j) :: scope)
        [.word "WHERE", (ColumnRef.mk link (columnName j.sourceKey)).item, .symbol "=",
          (ColumnRef.mk table a.source.idColumn).item] := by
      simp [hcolumn, bound_idColumn (List.mem_cons_of_mem _ ht)]
    have hselect := Item.bound_select hdefines hbefore hafter rfl rfl
    simpa [JoinCondition.items] using ⟨bound_idColumn hi, hselect⟩

/-- Below an association, its target stands in the scope, too. -/
theorem inScope_below {a : Association} {name : String} (ha : r.association? schema name = some a)
    (hs : schema ∈ r.schemas) {table : Nat} (ht : InScope r scope table schema) (inner : Nat) :
    InScope r ((aliasName inner, r.tableOf a.target) :: scope) inner a.target ∧
      InScope r ((aliasName inner, r.tableOf a.target) :: scope) table a.source ∧
      a.target ∈ r.schemas ∧ a ∈ r.associations := by
  obtain ⟨rfl, htarget⟩ := (Registry.coherent_of_assemble hr).of_association? hs ha
  exact ⟨List.mem_cons_self, List.mem_cons_of_mem _ ht, htarget,
    (Registry.mem_of_association? ha).1⟩

theorem bound_pathCondition {field : String} {operator : Operator} {value : Json}
    {names : List String} (hs : schema ∈ r.schemas) {table : Nat}
    (ht : InScope r scope table schema) :
    Yields (pathCondition r field operator value schema table names) fun c =>
      AllBound r scope c.items := by
  induction names generalizing schema table scope with
  | nil =>
    refine (yields_lift fun c hc => bound_column ht hc).bind fun c hc => ?_
    exact yields_lift fun condition h => bound_compare h hc
  | cons name rest ih =>
    refine (yields_lift fun a ha => association_eq_ok.1 ha).bind fun a ha => ?_
    refine (yields_trivial aliasId).bind fun inner _ => ?_
    obtain ⟨hinner, hsource, htarget, hm⟩ := inScope_below hr ha hs ht inner
    refine (bound_join hr hm hinner hsource).bind fun joined hj => ?_
    refine (ih htarget hinner).bind fun condition hc => yields_pure ?_
    have hbefore : AllBound r ((aliasName inner, r.tableOf a.target) :: scope) [.number "1"] := by
      simp
    have hafter : AllBound r ((aliasName inner, r.tableOf a.target) :: scope)
        (.word "WHERE" :: (joined.items ++ .word "AND" :: condition.items)) := by
      simp [hj, hc]
    have hselect := Item.bound_selectFrom htarget hbefore hafter rfl (by simp)
    simpa [RowCondition.items] using hselect

omit hr

mutual

theorem bound_condition (hr : Registry.assemble schemas = .ok r) (hs : schema ∈ r.schemas)
    {table : Nat} (ht : InScope r scope table schema) : ∀ p : Predicate,
    Yields (condition r schema table p) fun c => AllBound r scope c.items
  | .condition c => by
    unfold condition
    exact bound_pathCondition hr hs ht
  | .all [] | .any [] => by
    unfold condition
    exact yields_pure (by simp [RowCondition.items])
  | .all (child :: rest) | .any (child :: rest) => by
    unfold condition
    refine (bound_conditions hr hs ht (child :: rest)).bind fun cs hcs => yields_pure ?_
    rw [RowCondition.items, Item.allBound_cons]
    refine ⟨Item.bound_group (Item.allBound_intercalate (by simp) hcs) ?_, trivial⟩
    exact Item.sources_intercalate rfl (RowCondition.sources_itemsOf cs)

theorem bound_conditions (hr : Registry.assemble schemas = .ok r) (hs : schema ∈ r.schemas)
    {table : Nat} (ht : InScope r scope table schema) : ∀ children : List Predicate,
    Yields (conditions r schema table children) fun cs =>
      ∀ part ∈ RowCondition.itemsOf cs, AllBound r scope part
  | [] => by
    unfold conditions
    exact yields_pure nofun
  | child :: rest => by
    unfold conditions
    refine (bound_condition hr hs ht child).bind fun c hc => ?_
    refine (bound_conditions hr hs ht rest).bind fun cs hcs => yields_pure ?_
    rw [RowCondition.itemsOf, List.forall_mem_cons]
    exact ⟨hc, hcs⟩

end

include hr

theorem bound_filter (hs : schema ∈ r.schemas) {table : Nat} (ht : InScope r scope table schema)
    (p : Predicate) : Yields (filter r schema table p) fun c =>
      AllBound r scope (RowCondition.clauseItems c) := by
  unfold filter
  split
  · exact yields_pure trivial
  · refine (bound_condition hr hs ht p).bind fun c hc => yields_pure ?_
    simpa [RowCondition.clauseItems] using hc

theorem bound_sortValue {field : String} {names : List String} (hs : schema ∈ r.schemas)
    {table : Nat} (ht : InScope r scope table schema) :
    Yields (sortValue r field schema table names) fun v => AllBound r scope v.items := by
  induction names generalizing schema table scope with
  | nil =>
    refine (yields_lift fun c hc => bound_column ht hc).bind fun c hc => yields_pure ?_
    simpa [SortValue.items] using hc
  | cons name rest ih =>
    refine (yields_lift fun a ha => association_eq_ok.1 ha).bind fun a ha => ?_
    refine (yields_trivial aliasId).bind fun inner _ => ?_
    obtain ⟨hinner, hsource, htarget, hm⟩ := inScope_below hr ha hs ht inner
    refine (ih htarget hinner).bind fun value hv => ?_
    refine (bound_join hr hm hinner hsource).bind fun joined hj => yields_pure ?_
    have hafter : AllBound r ((aliasName inner, r.tableOf a.target) :: scope)
        (.word "WHERE" :: (joined.items ++ [.word "LIMIT", .number "1"])) := by
      simp [hj]
    have hselect := Item.bound_selectFrom htarget hv hafter (by simp) (by simp)
    simpa [SortValue.items] using hselect

omit hr

mutual

theorem bound_related (hr : Registry.assemble schemas = .ok r) {schema : Schema}
    {scope : List (String × TableDefinition)} (hs : schema ∈ r.schemas) {table : Nat}
    (ht : InScope r scope table schema) : ∀ node : IncludeNode,
    Yields (related r schema table node) fun q => AllBound r scope q.items
  | .mk relationship target selection nested => by
    unfold related
    refine (yields_lift fun a ha => association_eq_ok.1 ha).bind fun a ha => ?_
    refine (yields_trivial aliasId).bind fun inner _ => ?_
    obtain ⟨hinner, hsource, htarget, hm⟩ := inScope_below hr ha hs ht inner
    refine (yields_mapM (P := fun member => AllBound r
      ((aliasName inner, r.tableOf a.target) :: scope) (RelatedQuery.fieldItems member))
      fun field _ => ?_).bind fun fields hfields => ?_
    · refine (yields_lift fun c hc => bound_column hinner hc).bind fun c hc => yields_pure ?_
      simpa [RelatedQuery.fieldItems, MemberValue.item] using hc
    refine (bound_relatedMembers hr htarget hinner nested).bind fun members hmembers => ?_
    refine (bound_join hr hm hinner hsource).bind fun joined hj => yields_pure ?_
    refine RelatedQuery.bound_items htarget (List.forall_mem_append.2 ⟨?_, hmembers⟩) hj
    rwa [List.forall_mem_map]

theorem bound_relatedMembers (hr : Registry.assemble schemas = .ok r) {schema : Schema}
    {scope : List (String × TableDefinition)} (hs : schema ∈ r.schemas) {table : Nat}
    (ht : InScope r scope table schema) : ∀ nodes : List IncludeNode,
    Yields (relatedMembers r schema table nodes) fun members =>
      ∀ part ∈ RelatedQuery.itemsOf members, AllBound r scope part
  | [] => by
    unfold relatedMembers
    exact yields_pure nofun
  | node :: rest => by
    unfold relatedMembers
    refine (bound_related hr hs ht node).bind fun q hq => ?_
    refine (bound_relatedMembers hr hs ht rest).bind fun members hmembers => yields_pure ?_
    rw [RelatedQuery.itemsOf, List.forall_mem_cons]
    refine ⟨?_, hmembers⟩
    simpa using Item.bound_group hq q.sources_items

end

include hr

/-! ## Statements -/

theorem bound_keys (hs : schema ∈ r.schemas) {p : Predicate} {q : KeyQuery}
    (h : start (keys r schema p) = .ok q) : (Item.group q.items).Bound r [] := by
  refine Yields.start (P := fun q => (Item.group q.items).Bound r []) ?_ h
  refine (yields_trivial aliasId).bind fun table _ => ?_
  have ht : InScope r [(aliasName table, r.tableOf schema)] table schema := List.mem_cons_self
  refine (bound_filter hr hs ht p).bind fun condition hc => yields_pure ?_
  have hcolumn : AllBound r [(aliasName table, r.tableOf schema)]
      [(ColumnRef.mk table schema.idColumn).item] := by
    simpa using bound_idColumn ht
  simpa [KeyQuery.items] using Item.bound_selectFrom hs hcolumn hc rfl (by simp)

/-- **Every column in the query of a plan is one of the table that its alias stands for.** -/
theorem bound_ofPlan (hs : schema ∈ r.schemas) {plan : Plan} {q : SelectQuery}
    {outputs : List Output} (h : Statement.ofPlan r schema plan = .ok (q, outputs)) :
    (Item.group q.items).Bound r [] := by
  refine Yields.start (P := fun out => (Item.group out.1.items).Bound r []) ?_ h
  refine (yields_trivial aliasId).bind fun table _ => ?_
  have ht : InScope r [(aliasName table, r.tableOf schema)] table schema := List.mem_cons_self
  refine (yields_mapM fun field _ => yields_lift fun c hc =>
    bound_column ht hc).bind fun columns hcolumns => ?_
  refine (yields_mapM (P := fun out =>
    AllBound r [(aliasName table, r.tableOf schema)] (.symbol "," :: out.1.items))
    fun node _ => ?_).bind fun related hrelated => ?_
  · refine (yields_trivial _).bind fun a _ => ?_
    refine (bound_related hr hs ht node).bind fun q hq => yields_pure ?_
    simpa using hq
  refine (bound_filter hr hs ht plan.filter).bind fun condition hc => ?_
  refine (yields_mapM (P := fun out => AllBound r [(aliasName table, r.tableOf schema)] out.1.items)
    fun key _ => ?_).bind fun order horder => yields_pure ?_
  · exact (bound_sortValue hr hs ht).bind fun _ hv => yields_pure hv
  have hbefore : AllBound r [(aliasName table, r.tableOf schema)]
      (Item.listed ((columns.map fun c => ColumnRef.mk table c.column).map fun c => [c.item]) ++
        (related.map (·.1)).flatMap fun q => .symbol "," :: q.items) := by
    rw [Item.allBound_append]
    refine ⟨Item.allBound_listed ?_, Item.allBound_flatMap ?_⟩
    · simpa using hcolumns
    · simpa [List.forall_mem_map] using hrelated
  have hafter : AllBound r [(aliasName table, r.tableOf schema)]
      (RowCondition.clauseItems condition ++ SelectQuery.orderItems order ++
        SelectQuery.windowItems plan.limit plan.offset) := by
    simpa [hc] using ⟨SelectQuery.bound_order horder, SelectQuery.bound_window _ _⟩
  have hselect := Item.bound_selectFrom hs hbefore hafter
    (by
      rw [Item.sources_append, Item.sources_listed, Item.sources_flatMap]
      · rfl
      · intro q _
        exact q.sources_items
      · simp [ColumnRef.item])
    (by simp [SelectQuery.sources_order, SelectQuery.sources_window])
  simpa [SelectQuery.items] using hselect

end

end Rendering

end ResourceApi
