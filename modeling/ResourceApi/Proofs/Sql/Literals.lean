import ResourceApi.Proofs.Schema.Names
import ResourceApi.Proofs.Sql.Columns
import ResourceApi.Proofs.Sql.Scopes
import ResourceApi.Proofs.Sql.Texts

/-!
# Literals in statements

Two kinds of texts stand between apostrophes: the values of an enumeration in the definition of a
table, which has a tree of items, too (`TableDefinition.items`), and the keys of objects in a query
for related rows.

**Theorem (`Registry.literals_read`).** Definitions of tables are read as they are meant, with
literals for what the schema declares. So are queries, with literals for the names of the related
attributes and relationships that the plan asks for (`Plan.keys`), unless one of these holds an
apostrophe: values are written with apostrophes doubled, keys as they are
(`Registry.literals_misread`).
-/

namespace ResourceApi

open Sql (Item Tight Loose Unquoted name tight_name tight_words loose_words tight_literal
  tight_intercalate loose_comma loose_blank loose_in loose_closing literal tight_parts)
open Sql.Item (lexemesOf lexemesOf_intercalate literals Settled joints)

/-! ## Trees of table definitions -/

/-- The tree of an action. -/
def OnDelete.items : OnDelete → List Item
  | setNull => [.word "SET", .word "NULL"]
  | cascade => [.word "CASCADE"]

/-- The tree of a constraint on a column. -/
def Constraint.items (column : String) : Constraint → List Item
  | primaryKey => [.word "PRIMARY", .word "KEY"]
  | assignedKey => [.word "PRIMARY", .word "KEY", .word "AUTOINCREMENT"]
  | notNull => [.word "NOT", .word "NULL"]
  | unique => [.word "UNIQUE"]
  | oneOf values =>
    [.word "CHECK", .group [.name column, .word "IN",
      .group (Item.listed (values.map fun value => [.text value]))]]
  | references table target onDelete =>
    [.word "REFERENCES", .name table, .group [.name target], .word "ON", .word "DELETE"]
      ++ onDelete.items

/-- The tree of a column. -/
def ColumnDefinition.items (c : ColumnDefinition) : List Item :=
  [.name c.name, .word c.affinity.sql] ++ c.constraints.flatMap (·.items c.name)

namespace TableDefinition

/-- The tree of a primary key that spans several columns. -/
def keyItems (key : List String) : List (List Item) :=
  if key.isEmpty then []
  else [[.word "PRIMARY", .word "KEY", .group (Item.listed (key.map ([.name ·])))]]

/-- The tree of a table. -/
def items (t : TableDefinition) : List Item :=
  [.word "CREATE", .word "TABLE", .word "IF", .word "NOT", .word "EXISTS", .name t.name,
    .group (Item.listed (t.columns.map (·.items) ++ keyItems t.compositeKey))]

end TableDefinition

/-! ## Texts of table definitions -/

/-- A constraint names tables and columns without quotation marks. -/
def Constraint.IsUnquoted : Constraint → Prop
  | references table target _ => Unquoted table ∧ Unquoted target
  | _ => True

/-- A table and what it names have names without quotation marks. -/
structure TableDefinition.IsUnquoted (t : TableDefinition) : Prop where
  name : Unquoted t.name
  columns : ∀ c ∈ t.columns, Unquoted c.name
  constraints : ∀ c ∈ t.columns, ∀ k ∈ c.constraints, k.IsUnquoted
  compositeKey : ∀ c ∈ t.compositeKey, Unquoted c

theorem OnDelete.tight (action : OnDelete) : Tight action.sql (lexemesOf action.items) := by
  cases action <;> exact tight_words (by decide)

theorem Affinity.tight (affinity : Affinity) :
    Tight affinity.sql (lexemesOf [.word affinity.sql]) := by
  cases affinity <;> exact tight_words (by decide)

theorem Sql.tight_literals (values : List String) :
    Tight (", ".intercalate (values.map literal))
      (lexemesOf (Item.listed (values.map fun value => [.text value]))) := by
  refine (tight_intercalate loose_comma rfl (tight_parts (f := literal)
    (g := fun value => [Item.text value]) fun value _ => tight_literal value)).congr ?_
  simp [Item.listed, lexemesOf_intercalate]

theorem Sql.tight_names {names : List String} (h : ∀ s ∈ names, Unquoted s) :
    Tight (", ".intercalate (names.map name))
      (lexemesOf (Item.listed (names.map ([.name ·])))) := by
  refine (tight_intercalate loose_comma rfl (tight_parts (f := name)
    (g := fun s => [Item.name s]) fun s hs => tight_name (h s hs))).congr ?_
  simp [Item.listed, lexemesOf_intercalate]

namespace Constraint

theorem tight {column : String} (hcolumn : Unquoted column) {k : Constraint} (hk : k.IsUnquoted) :
    Tight (k.sql column) (lexemesOf (k.items column)) := by
  cases k with
  | primaryKey | assignedKey | notNull | unique =>
    simp only [sql, items]
    exact tight_words (by decide)
  | oneOf values =>
    have hcheck : Loose "CHECK (" [⟨.word, "CHECK"⟩, ⟨.symbol, "("⟩] := loose_words (by decide)
    have hin : Loose " IN (" [⟨.word, "IN"⟩, ⟨.symbol, "("⟩] := loose_words (by decide)
    have hclose : Loose "))" [⟨.symbol, ")"⟩, ⟨.symbol, ")"⟩] := loose_words (by decide)
    have hvalues := (hcheck.tight (tight_name hcolumn)).join hin rfl (Sql.tight_literals values)
    exact (hvalues.loose hclose rfl).toTight.congr (by simp [items])
  | references table target onDelete =>
    have hreferences : Loose "REFERENCES " [⟨.word, "REFERENCES"⟩] := loose_words (by decide)
    have hopen : Loose " (" [⟨.symbol, "("⟩] := loose_words (by decide)
    have haction : Loose ") ON DELETE " [⟨.symbol, ")"⟩, ⟨.word, "ON"⟩, ⟨.word, "DELETE"⟩] :=
      loose_words (by decide)
    have htarget := (hreferences.tight (tight_name hk.1)).join hopen rfl (tight_name hk.2)
    exact (htarget.join haction rfl onDelete.tight).congr (by simp [items])

end Constraint

theorem Sql.intercalate_nil_left {α : Type} (parts : List (List α)) :
    ([] : List α).intercalate parts = parts.flatten := by
  induction parts with
  | nil => rfl
  | cons part parts ih =>
    cases parts with
    | nil => simp
    | cons next parts => simp [List.intercalate_cons_cons, ih]

theorem ColumnDefinition.tight {c : ColumnDefinition} (hname : Unquoted c.name)
    (hconstraints : ∀ k ∈ c.constraints, k.IsUnquoted) : Tight c.sql (lexemesOf c.items) := by
  have hparts : List.Forall₂ Tight
      (Sql.name c.name :: c.affinity.sql :: c.constraints.map (·.sql c.name))
      (([Item.name c.name] :: [Item.word c.affinity.sql] ::
        c.constraints.map (·.items c.name)).map lexemesOf) :=
    .cons (tight_name hname) (.cons c.affinity.tight
      (Sql.tight_parts fun k hk => Constraint.tight hname (hconstraints k hk)))
  refine (tight_intercalate loose_blank rfl hparts).congr ?_
  simp [items, Sql.intercalate_nil_left, ← List.flatMap_def, Function.comp_def]

theorem TableDefinition.tight {t : TableDefinition} (h : t.IsUnquoted) :
    Tight t.sql (lexemesOf t.items) := by
  have hcreate : Loose "CREATE TABLE IF NOT EXISTS " [⟨.word, "CREATE"⟩, ⟨.word, "TABLE"⟩,
      ⟨.word, "IF"⟩, ⟨.word, "NOT"⟩, ⟨.word, "EXISTS"⟩] := loose_words (by decide)
  have hopen : Loose " (" [⟨.symbol, "("⟩] := loose_words (by decide)
  have hprimary : Loose "PRIMARY KEY (" [⟨.word, "PRIMARY"⟩, ⟨.word, "KEY"⟩, ⟨.symbol, "("⟩] :=
    loose_words (by decide)
  have hkey : List.Forall₂ Tight
      (if t.compositeKey.isEmpty then []
        else ["PRIMARY KEY (" ++ ", ".intercalate (t.compositeKey.map Sql.name) ++ ")"])
      ((keyItems t.compositeKey).map lexemesOf) := by
    unfold keyItems
    split_ifs
    · exact .nil
    · refine .cons ?_ .nil
      have hnames := hprimary.tight (Sql.tight_names h.compositeKey)
      exact (hnames.loose loose_closing rfl).toTight.congr (by simp)
  have hcolumns := Sql.tight_parts fun c hc =>
    ColumnDefinition.tight (h.columns c hc) (h.constraints c hc)
  have hparts := tight_intercalate loose_comma rfl (List.rel_append hcolumns hkey)
  have hname := (hcreate.tight (tight_name h.name)).join hopen rfl hparts
  refine (hname.loose loose_closing rfl).toTight.congr ?_
  simp [items, Item.listed, lexemesOf_intercalate]

/-! ## Tables of a registry -/

namespace TableDefinition

theorem settled_items (t : TableDefinition) : Settled t.items := by
  have haction (action : OnDelete) : Settled action.items := by
    cases action <;> simp [OnDelete.items, joints]
  have hconstraint (column : String) (k : Constraint) : Settled (k.items column) := by
    cases k <;> simp [Constraint.items, joints, haction]
  have hcolumn (c : ColumnDefinition) : Settled c.items := by
    have haffinity : c.affinity.sql ≠ "AS" := by
      cases c.affinity <;> simp [Affinity.sql]
    simp [ColumnDefinition.items, joints, hconstraint, haffinity]
  have hkey : ∀ part ∈ keyItems t.compositeKey, Settled part := by
    unfold keyItems
    split_ifs <;> simp [joints]
  have hparts : Settled (Item.listed (t.columns.map (·.items) ++ keyItems t.compositeKey)) :=
    (Item.each_listed (by simp [joints])).2 (List.forall_mem_append.2
      ⟨List.forall_mem_map.2 fun c _ => hcolumn c, hkey⟩)
  simp [items, joints, hparts]

/-- The text of a table is read as its tree. -/
theorem ofText?_sql {t : TableDefinition} (h : t.IsUnquoted) : Item.ofText? t.sql = some t.items :=
  Item.ofText?_eq_some t.settled_items (tight h).lexemes_eq

end TableDefinition

/-- A spelling in snake case holds no quotation mark. -/
theorem unquoted_snake (s : String) : Unquoted (Text.Words.snake s) := by
  constructor <;>
    · rw [Text.Words.snake, String.toList_ofList]
      intro h
      exact (Text.Words.mem_spelling h).elim (by decide) (by decide)

namespace Registry

variable {schemas : List Schema} {r : Registry}

theorem isUnquoted_tableOf (r : Registry) (schema : Schema) : (r.tableOf schema).IsUnquoted where
  name := unquoted_snake _
  columns := by
    simp only [tableOf, List.forall_mem_append, List.forall_mem_cons, List.forall_mem_map]
    exact ⟨⟨unquoted_snake _, fun _ _ => unquoted_snake _⟩, fun _ _ => unquoted_snake _⟩
  constraints := by
    simp only [tableOf, List.forall_mem_append, List.forall_mem_cons, List.forall_mem_map]
    refine ⟨⟨?_, fun a _ k hk => ?_⟩, fun key _ => ?_⟩
    · cases hid : schema.idType <;> simp [Schema.keyDefinition, hid, Constraint.IsUnquoted]
    · cases k with
      | references table target action =>
        unfold Attribute.constraints at hk
        split_ifs at hk <;> split at hk <;> simp at hk
      | _ => trivial
    · simpa [foreignKeyDefinition, Constraint.IsUnquoted] using
        ⟨unquoted_snake _, unquoted_snake _⟩
  compositeKey := nofun

theorem isUnquoted_joinTableOf (h : assemble schemas = .ok r) {a : Association}
    (ha : a ∈ r.associations) {join : JoinTable} (hj : a.join? = some join) :
    (joinTableOf a join).IsUnquoted where
  name := by
    rw [joinTableOf, (joinTable_of_assemble h ha hj).1]
    exact unquoted_snake _
  columns := by
    simp [joinTableOf, joinColumn, columnName, unquoted_snake]
  constraints := by
    simp [joinTableOf, joinColumn, Constraint.IsUnquoted, Schema.tableName, Schema.idColumn,
      columnName, unquoted_snake]
  compositeKey := by
    simp [joinTableOf, columnName, unquoted_snake]

theorem isUnquoted_of_mem_tables (h : assemble schemas = .ok r) {t : TableDefinition}
    (ht : t ∈ r.tables) : t.IsUnquoted := by
  rcases List.mem_append.1 ht with ht | ht
  · obtain ⟨schema, -, rfl⟩ := List.mem_map.1 ht
    exact isUnquoted_tableOf r schema
  · obtain ⟨⟨a, join⟩, hm, rfl⟩ := List.mem_map.1 ht
    obtain ⟨ha, hj⟩ := mem_joinAssociations hm
    exact isUnquoted_joinTableOf h ha hj

end Registry

/-! ## Literals -/

/-- The values of an enumeration. -/
def Attribute.enumValues (a : Attribute) : List String :=
  match a.type with
  | .enum values => values
  | _ => []

@[simp] theorem Sql.Item.literals_listed (parts : List (List Item)) :
    literals (listed parts) = parts.flatMap literals :=
  gather_intercalate (by simp) parts

/-- The values that a column is restricted to. -/
def Constraint.values : Constraint → List String
  | oneOf values => values
  | _ => []

@[simp] theorem Constraint.literals_items (column : String) (k : Constraint) :
    literals (k.items column) = k.values := by
  have haction (action : OnDelete) : literals action.items = [] := by
    cases action <;> simp [OnDelete.items]
  cases k <;> simp [items, values, haction, List.flatMap_map]

@[simp] theorem ColumnDefinition.literals_items (c : ColumnDefinition) :
    literals c.items = c.constraints.flatMap (·.values) := by
  simp [items]

theorem TableDefinition.literals_items (t : TableDefinition) :
    literals t.items = t.columns.flatMap fun c => c.constraints.flatMap (·.values) := by
  have hkey : (keyItems t.compositeKey).flatMap literals = [] := by
    unfold keyItems
    split_ifs <;> simp [List.flatMap_map]
  simp [items, hkey, List.flatMap_map]

theorem Attribute.values_constraints (a : Attribute) :
    a.constraints.flatMap (·.values) = a.enumValues := by
  unfold constraints enumValues
  cases a.type <;> split_ifs <;> simp [Constraint.values]

namespace Registry

/-- The literals in the definition of a table are the values of its enumerations. -/
theorem literals_tableOf (r : Registry) (schema : Schema) :
    literals (r.tableOf schema).items = schema.attributes.flatMap (·.enumValues) := by
  have hid : schema.keyDefinition.constraints.flatMap (·.values) = [] := by
    cases hid : schema.idType <;> simp [Schema.keyDefinition, hid, Constraint.values]
  have hkeys : (r.foreignKeysOf schema).flatMap (fun key =>
      (foreignKeyDefinition key).constraints.flatMap (·.values)) = [] :=
    List.flatMap_eq_nil_iff.2 fun _ _ => rfl
  simp [TableDefinition.literals_items, tableOf, hid, hkeys, List.flatMap_map,
    Attribute.values_constraints]

theorem literals_joinTableOf (a : Association) (join : JoinTable) :
    literals (joinTableOf a join).items = [] := by
  rw [TableDefinition.literals_items]
  rfl

end Registry

/-! ## Keys of objects -/

mutual

/-- The keys that a query for related rows writes: those of the selected attributes, then each
nested relationship with the keys below it. -/
def IncludeNode.keys (r : Registry) (schema : Schema) : IncludeNode → List String
  | .mk relationship _ selection nested =>
    match r.association? schema relationship with
    | some a => selection.names a.target ++ IncludeNode.nestedKeys r a.target nested
    | none => []

/-- The keys that several nested relationships write. -/
def IncludeNode.nestedKeys (r : Registry) (schema : Schema) : List IncludeNode → List String
  | [] => []
  | node :: rest => node.relationship :: node.keys r schema ++ IncludeNode.nestedKeys r schema rest

end

/-- The keys of objects that the query of a plan writes. -/
def Plan.keys (r : Registry) (schema : Schema) (plan : Plan) : List String :=
  plan.includes.flatMap (·.keys r schema)

/-! Conditions and values to sort by hold no literals: values are bound to marks. -/

@[simp] theorem JoinCondition.literals_items (j : JoinCondition) : literals j.items = [] := by
  cases j <;> simp [items, ColumnRef.item]

@[simp] theorem Sql.Item.literals_marks {α : Type} (values : List α) (rest : List Item) :
    literals (.marks values :: rest) = literals rest := by
  simp [Item.marks]

namespace RowCondition

mutual

@[simp] theorem literals_items : ∀ c : RowCondition, literals c.items = []
  | compare _ comparison _ => by
    cases comparison <;> simp [items, ColumnRef.item, Comparison.item]
  | always | never | isNull _ | isNotNull _ | among .. | notAmong .. | ilike .. => by
    simp [items, ColumnRef.item]
  | all children | any children => by
    simp [items, Item.gather_intercalate, literals_itemsOf children]
  | hasRelated _ _ _ condition => by
    simp [items, literals_items condition]

theorem literals_itemsOf : ∀ cs : List RowCondition, (itemsOf cs).flatMap literals = []
  | [] => rfl
  | c :: cs => by
    simp [itemsOf, literals_items c, literals_itemsOf cs]

end

@[simp] theorem literals_clause (c : Option RowCondition) : literals (clauseItems c) = [] := by
  cases c <;> simp [clauseItems]

end RowCondition

@[simp] theorem SortValue.literals_items : ∀ v : SortValue, literals v.items = []
  | column _ => by simp [items, ColumnRef.item]
  | related value _ _ _ => by simp [items, literals_items value]

theorem SelectQuery.literals_items (q : SelectQuery) :
    literals q.items = q.related.flatMap fun related => literals related.items := by
  have hcolumns : q.columns.flatMap (fun c => literals [c.item]) = [] :=
    List.flatMap_eq_nil_iff.2 (by simp [ColumnRef.item])
  have hkey (key : SortValue × Direction) : literals (keyItems key) = [] := by
    obtain ⟨value, _ | _⟩ := key <;> simp [keyItems]
  have horder : literals (orderItems q.order) = [] := by
    unfold orderItems
    split_ifs <;> simp [List.flatMap_map, hkey]
  have hwindow : literals (windowItems q.limit q.offset) = [] := by
    cases q.limit <;> cases q.offset <;> simp [windowItems]
  simp [items, List.flatMap_map, hcolumns, horder, hwindow]

theorem KeyQuery.literals_items (q : KeyQuery) : literals q.items = [] := by
  simp [items, ColumnRef.item]

theorem RelatedQuery.literals_items {many : Bool} {fields : List (String × MemberValue)}
    {nested : List (String × RelatedQuery)} {fault : Option ObjectFault} {table : String}
    {inner : Nat} {join : JoinCondition} :
    literals (mk many fields nested fault table inner join).items =
      fields.map (·.1) ++ (itemsOf nested).flatMap literals := by
  have hfield (member : String × MemberValue) : literals (fieldItems member) = [member.1] := by
    obtain ⟨key, value⟩ := member
    cases value <;> simp [fieldItems, MemberValue.item, ColumnRef.item]
  cases many <;> simp [items, List.flatMap_map, hfield, ← List.map_eq_flatMap]

namespace Rendering

variable {r : Registry}

theorem yields_mapM_forall₂ {α β : Type} {f : α → Rendering β} {P : α → β → Prop} {xs : List α}
    (h : ∀ x ∈ xs, Yields (f x) (P x)) : Yields (xs.mapM f) (List.Forall₂ P xs) := by
  induction xs with
  | nil => exact yields_pure .nil
  | cons x xs ih =>
    rw [List.forall_mem_cons] at h
    rw [List.mapM_cons]
    exact h.1.bind fun y hy => (ih h.2).bind fun ys hys => yields_pure (.cons hy hys)

mutual

theorem literals_related {schema : Schema} {table : Nat} : ∀ node : IncludeNode,
    Yields (related r schema table node) fun q => literals q.items = node.keys r schema
  | .mk relationship target selection nested => by
    unfold related
    refine (yields_lift fun a ha => association_eq_ok.1 ha).bind fun a ha => ?_
    refine (yields_trivial aliasId).bind fun inner _ => ?_
    refine (yields_mapM_forall₂ (P := fun field member => member.1 = field) fun field _ => ?_).bind
      fun fields hfields => ?_
    · exact (yields_trivial _).bind fun c _ => yields_pure rfl
    refine (literals_relatedMembers nested).bind fun members hmembers => ?_
    refine (yields_trivial (join a inner table)).bind fun joined _ => yields_pure ?_
    have hnames : fields.map (·.1) = (selection.names a.target).map id :=
      map_eq_map_of_forall₂ hfields
    rw [RelatedQuery.literals_items, hmembers, IncludeNode.keys, ha, hnames, List.map_id]

theorem literals_relatedMembers {schema : Schema} {table : Nat} : ∀ nodes : List IncludeNode,
    Yields (relatedMembers r schema table nodes) fun members =>
      (RelatedQuery.itemsOf members).flatMap literals = IncludeNode.nestedKeys r schema nodes
  | [] => by
    unfold relatedMembers
    exact yields_pure rfl
  | node :: rest => by
    unfold relatedMembers
    refine (literals_related node).bind fun q hq => ?_
    refine (literals_relatedMembers rest).bind fun members hmembers => yields_pure ?_
    simp [RelatedQuery.itemsOf, IncludeNode.nestedKeys, hq, hmembers]

end

/-- **The literals in the query of a plan are the keys of its objects.** -/
theorem literals_ofPlan {schema : Schema} {plan : Plan} {q : SelectQuery} {outputs : List Output}
    (h : Statement.ofPlan r schema plan = .ok (q, outputs)) :
    literals q.items = plan.keys r schema := by
  refine Yields.start (P := fun out => literals out.1.items = plan.keys r schema) ?_ h
  refine (yields_trivial aliasId).bind fun table _ => ?_
  refine (yields_trivial _).bind fun columns _ => ?_
  refine (yields_mapM_forall₂ (P := fun node out => literals out.1.items = node.keys r schema)
    fun node _ => ?_).bind fun related hrelated => ?_
  · exact (yields_trivial _).bind fun a _ => (literals_related node).bind fun q hq => yields_pure hq
  refine (yields_trivial _).bind fun condition _ => (yields_trivial _).bind fun order _ =>
    yields_pure ?_
  have hkeys : related.map (fun out => literals out.1.items) =
      plan.includes.map (·.keys r schema) := map_eq_map_of_forall₂ hrelated
  rw [SelectQuery.literals_items, List.flatMap_map, List.flatMap_def, hkeys]
  rfl

end Rendering

/-! ## Bound trees -/

theorem Registry.Defines.isUnquoted {schemas : List Schema} {r : Registry}
    (hr : Registry.assemble schemas = .ok r) {t : TableDefinition} (h : r.Defines t) :
    t.IsUnquoted := by
  obtain ⟨schema, -, rfl⟩ | ⟨a, ha, join, hj, rfl⟩ := h
  · exact Registry.isUnquoted_tableOf r schema
  · exact Registry.isUnquoted_joinTableOf hr ha hj

namespace Sql.Item

mutual

theorem plain_of_bound {schemas : List Schema} {r : Registry}
    (hr : Registry.assemble schemas = .ok r) {scope : List (String × TableDefinition)}
    (hscope : ∀ entry ∈ scope, entry.2.IsUnquoted) : ∀ {item : Item}, item.Bound r scope →
    (∀ key ∈ literals [item], '\'' ∉ key.toList) → Plain [item]
  | token ⟨kind, s⟩, h, hkeys => by
    rw [bound_token] at h
    refine each_token.2 ⟨⟨h, ?_⟩, each_nil⟩
    rintro rfl
    exact hkeys s (by simp)
  | reference name column, h, _ => by
    rw [Bound] at h
    obtain ⟨t, ht, hcolumn⟩ := h
    obtain ⟨c, hc, rfl⟩ := List.mem_map.1 hcolumn
    exact each_reference.2 ⟨(hscope _ ht).columns c hc, each_nil⟩
  | source table name, h, _ => by
    rw [Bound] at h
    obtain ⟨t, ht, rfl⟩ := h
    exact each_source.2 ⟨(hscope _ ht).name, each_nil⟩
  | group items, h, hkeys => by
    rw [Bound] at h
    obtain ⟨own, -, hown, hitems⟩ := h
    have hinside : ∀ entry ∈ own ++ scope, entry.2.IsUnquoted :=
      List.forall_mem_append.2 ⟨fun entry he => (hown entry he).isUnquoted hr, hscope⟩
    exact each_group.2 ⟨plain_of_allBound hr hinside hitems (by simpa using hkeys), each_nil⟩

/-- Items that are bound in a registry are read as they are written, unless a key is not. -/
theorem plain_of_allBound {schemas : List Schema} {r : Registry}
    (hr : Registry.assemble schemas = .ok r) {scope : List (String × TableDefinition)}
    (hscope : ∀ entry ∈ scope, entry.2.IsUnquoted) : ∀ {items : List Item},
    AllBound r scope items → (∀ key ∈ literals items, '\'' ∉ key.toList) → Plain items
  | [], _, _ => each_nil
  | item :: rest, h, hkeys => by
    rw [allBound_cons] at h
    obtain ⟨hfirst, hrest⟩ : (∀ key ∈ literals [item], '\'' ∉ key.toList) ∧
        ∀ key ∈ literals rest, '\'' ∉ key.toList := by
      rw [← List.forall_mem_append, ← gather_append]
      exact hkeys
    exact each_append.2 ⟨plain_of_bound hr hscope h.1 hfirst, plain_of_allBound hr hscope h.2 hrest⟩

end

end Sql.Item

/-! ## Statements of a registry -/

namespace Registry

variable {schemas : List Schema} {r : Registry}

theorem ofText?_ofPlan (hr : assemble schemas = .ok r) {schema : Schema} (hs : schema ∈ r.schemas)
    {plan : Plan} {q : SelectQuery} {outputs : List Output}
    (h : Statement.ofPlan r schema plan = .ok (q, outputs))
    (hkeys : ∀ key ∈ plan.keys r schema, '\'' ∉ key.toList) :
    Item.ofText? q.sql = some q.items := by
  have hplain := Item.plain_of_bound hr (by simp) (Rendering.bound_ofPlan hr hs h)
    (by simpa [Rendering.literals_ofPlan h] using hkeys)
  exact SelectQuery.ofText?_sql (by simpa using hplain)

/-- **Literals are read as what they are written for.** The values of enumerations are, whatever
they hold; the keys of objects are if no key of the plan holds an apostrophe. -/
theorem literals_read (hr : assemble schemas = .ok r) :
    (∀ t ∈ r.tables, Item.ofText? t.sql = some t.items) ∧
    (∀ schema ∈ r.schemas, r.tableOf schema ∈ r.tables ∧
      literals (r.tableOf schema).items = schema.attributes.flatMap (·.enumValues)) ∧
    (∀ a join, (a, join) ∈ r.joinAssociations →
      joinTableOf a join ∈ r.tables ∧ literals (joinTableOf a join).items = []) ∧
    ∀ schema ∈ r.schemas, ∀ plan q outputs, Statement.ofPlan r schema plan = .ok (q, outputs) →
      literals q.items = plan.keys r schema ∧
      ((∀ key ∈ plan.keys r schema, '\'' ∉ key.toList) → Item.ofText? q.sql = some q.items) := by
  refine ⟨fun t ht => TableDefinition.ofText?_sql (isUnquoted_of_mem_tables hr ht),
    fun schema hs => ⟨tableOf_mem_tables hs, literals_tableOf r schema⟩, fun a join hj => ?_,
    fun schema hs plan q outputs h => ⟨Rendering.literals_ofPlan h, ofText?_ofPlan hr hs h⟩⟩
  exact ⟨List.mem_append_right _ (List.mem_map.2 ⟨(a, join), hj, rfl⟩), literals_joinTableOf a join⟩

end Registry

/-- The plan for volumes with the titles of their sequels, and the shelves of these. -/
def sequelsPlan : Plan where
  includes := [.mk "sequels" "Volume" (.only ["title"]) [.mk "shelf" "Shelf" .all []]]

/-- A binding is refused with an apostrophe doubled, and read back as it was declared. -/
theorem Registry.literals_read_shelves : assemble [shelf, shelvedVolume] = .ok shelves ∧
    Item.ofText? (shelves.tableOf shelvedVolume).sql = some (shelves.tableOf shelvedVolume).items ∧
    literals (shelves.tableOf shelvedVolume).items = ["cloth", "won\'t say"] ∧
    ∃ q outputs, Statement.ofPlan shelves shelvedVolume sequelsPlan = .ok (q, outputs) ∧
      Item.ofText? q.sql = some q.items ∧ literals q.items = ["title", "shelf", "shelfNumber"] := by
  have hr : assemble [shelf, shelvedVolume] = .ok shelves := by decide +kernel
  have hs : shelvedVolume ∈ shelves.schemas := by decide
  obtain ⟨hread, hschemas, -, hplans⟩ := literals_read hr
  obtain ⟨htable, hvalues⟩ := hschemas shelvedVolume hs
  obtain ⟨q, outputs, hq⟩ : ∃ q outputs,
      Statement.ofPlan shelves shelvedVolume sequelsPlan = .ok (q, outputs) := ⟨_, _, rfl⟩
  obtain ⟨hkeys, hquery⟩ := hplans shelvedVolume hs sequelsPlan q outputs hq
  exact ⟨hr, hread _ htable, hvalues.trans (by decide), q, outputs, hq,
    hquery (by decide +kernel), hkeys.trans (by decide +kernel)⟩

/-! ## An apostrophe in a key -/

/-- Notes with an attribute whose name holds an apostrophe. -/
def contractedNote : Schema where
  name := "Note"
  idType := .integer
  attributes := [{ name := "won\'t", type := .string }]
  relationships := [("up", .belongsTo "Note" none)]

/-- The registry of notes with an apostrophe. -/
def contractedNotes : Registry :=
  ⟨[contractedNote], [⟨"up", contractedNote, contractedNote, .belongsTo "upId"⟩],
    [⟨"Note", "upId", contractedNote⟩]⟩

/-- **An apostrophe in a key ends its literal.** The next one begins a literal that does not end. -/
theorem Registry.literals_misread : assemble [contractedNote] = .ok contractedNotes ∧
    ∃ plan q outputs, Plan.compile contractedNotes contractedNote { includes := ["up"] } none =
        .ok plan ∧
      Statement.ofPlan contractedNotes contractedNote plan = .ok (q, outputs) ∧
      plan.keys contractedNotes contractedNote = ["id", "won\'t"] ∧
      ((Sql.lexemes q.sql.toList).filter (·.kind = .text)).map (·.name) = ["id", "won"] ∧
      (Item.ofText? q.sql).map literals = none := by
  refine ⟨by decide +kernel, _, _, _, rfl, rfl, by decide +kernel, ?_, ?_⟩
  · decide +kernel
  · decide +kernel

end ResourceApi
