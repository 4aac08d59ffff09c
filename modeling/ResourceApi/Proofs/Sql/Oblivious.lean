import ResourceApi.Proofs.Sql.Placeholders
import ResourceApi.Proofs.Sql.Rendering

/-!
# Texts that do not depend on values

**Theorem (`Registry.values_stay_out`).** Plans, filters and rows that differ in their values only
are rendered with one text, or fail alike. What is rendered has a question mark for each of its
values and no other, if no name holds one.

Values are alike for an operator if both or neither are null, and for one on lists if they are
lists of one length. Two renderings are followed side by side (`Rendering.Parallel`): from one
alias on they fail alike, or both succeed with related results and come to one alias.
-/

namespace ResourceApi

open Sql (name mark marks)

/-! ## Alike -/

/-- The number of items of a list. -/
def Json.size? : Json → Option Nat
  | .arr items => some items.length
  | _ => none

theorem Json.exists_of_size? {v : Json} {n : Nat} (h : v.size? = some n) :
    ∃ items, v = .arr items ∧ items.length = n := by
  cases v <;> cases h
  exact ⟨_, rfl, rfl⟩

/-- Values that make the same comparison of an operator. -/
structure Operator.Alike (operator : Operator) (v w : Json) : Prop where
  null : v = .null ↔ w = .null
  size : operator.takesArray → v.size? = w.size?

namespace Predicate

mutual

/-- Predicates that differ in their values only. -/
def Alike : Predicate → Predicate → Prop
  | .condition c, .condition d =>
    c.path = d.path ∧ c.operator = d.operator ∧ c.operator.Alike c.value d.value
  | .all cs, .all ds => AllAlike cs ds
  | .any cs, .any ds => AllAlike cs ds
  | _, _ => False

/-- Lists of predicates that differ in their values only. -/
def AllAlike : List Predicate → List Predicate → Prop
  | [], [] => True
  | c :: cs, d :: ds => Alike c d ∧ AllAlike cs ds
  | _, _ => False

end

end Predicate

/-- Plans that differ in the values of their filters only. -/
structure Plan.Alike (p q : Plan) : Prop where
  filter : p.filter.Alike q.filter
  rest : q = { p with filter := q.filter }

namespace Rendering

variable {α β γ δ : Type}

/-! ## Side by side -/

/-- From any alias on, two renderings fail alike, or succeed with related results and come to one
alias. -/
def Parallel (x : Rendering α) (y : Rendering β) (R : α → β → Prop) : Prop :=
  ∀ n, Agree (fun s t => R s.1 t.1 ∧ s.2 = t.2) (x.run n) (y.run n)

theorem parallel_refl (x : Rendering α) : Parallel x x Eq :=
  fun _ => .refl (fun _ => ⟨rfl, rfl⟩) _

theorem parallel_pure {R : α → β → Prop} {a : α} {b : β} (h : R a b) :
    Parallel (pure a) (pure b) R :=
  fun _ => .ok ⟨h, rfl⟩

theorem parallel_lift {R : α → β → Prop} {x : Except RenderError α} {y : Except RenderError β}
    (h : Agree R x y) : Parallel (liftM x) (liftM y) R := by
  intro n
  cases h with
  | error e => exact .error e
  | ok h => exact .ok ⟨h, rfl⟩

theorem Parallel.bind {R : α → β → Prop} {Q : γ → δ → Prop} {x : Rendering α} {y : Rendering β}
    {f : α → Rendering γ} {g : β → Rendering δ} (h : Parallel x y R)
    (hf : ∀ a b, R a b → Parallel (f a) (g b) Q) : Parallel (x >>= f) (y >>= g) Q := by
  intro n
  rw [StateT.run_bind, StateT.run_bind]
  refine (h n).bind ?_
  rintro ⟨a, k⟩ ⟨b, m⟩ ⟨hR, rfl⟩
  exact hf a b hR k

theorem Parallel.mono {R Q : α → β → Prop} {x : Rendering α} {y : Rendering β}
    (h : Parallel x y R) (hR : ∀ a b, R a b → Q a b) : Parallel x y Q :=
  fun n => (h n).mono fun _ _ hst => ⟨hR _ _ hst.1, hst.2⟩

/-- Both renderings begin in the same way. -/
theorem parallel_bind {Q : γ → δ → Prop} (x : Rendering α) {f : α → Rendering γ}
    {g : α → Rendering δ} (hf : ∀ a, Parallel (f a) (g a) Q) : Parallel (x >>= f) (x >>= g) Q :=
  (parallel_refl x).bind fun a _ he => he ▸ hf a

theorem Parallel.start {R : α → β → Prop} {x : Rendering α} {y : Rendering β}
    (h : Parallel x y R) : Agree R (Rendering.start x) (Rendering.start y) := by
  show Agree R (Prod.fst <$> x.run 0) (Prod.fst <$> y.run 0)
  have h := h 0
  cases hx : x.run 0 <;> cases hy : y.run 0 <;> rw [hx, hy] at h <;> cases h
  · exact .error _
  · rename_i h
    exact .ok h.1

/-! ## Conditions -/

variable (r : Registry)

/-- Conditions with one text. -/
def SameText (c d : RowCondition) : Prop := c.sql = d.sql

theorem marks_eq_of_length {xs : List α} {ys : List β} (h : xs.length = ys.length) :
    Sql.marks xs = Sql.marks ys := by
  rw [Sql.marks, Sql.marks, List.map_const', List.map_const', h]

theorem sameText_compare (c : ColumnRef) (comparison : Comparison) (v w : SqlValue) :
    SameText (.compare c comparison v) (.compare c comparison w) := rfl

theorem sameText_ilike (c : ColumnRef) (v w : SqlValue) : SameText (.ilike c v) (.ilike c w) := rfl

theorem sameText_among (c : ColumnRef) {vs ws : List SqlValue} (h : vs.length = ws.length) :
    SameText (.among c vs) (.among c ws) :=
  congrArg (c.sql ++ " IN " ++ ·) (marks_eq_of_length h)

theorem sameText_notAmong (c : ColumnRef) {vs ws : List SqlValue} (h : vs.length = ws.length) :
    SameText (.notAmong c vs) (.notAmong c ws) :=
  congrArg (c.sql ++ " NOT IN " ++ ·) (marks_eq_of_length h)

/-- What an operator on lists makes of a value that is none. -/
theorem compare_eq_error (c : ColumnRef) {operator : Operator} (h : operator.takesArray) {v : Json}
    (hv : v.size? = none) : compare c operator v = .error (.notAnArray operator) := by
  cases operator <;> cases h <;> cases v <;> first | rfl | cases hv

/-- Lists of one length make conditions with one text. -/
theorem compare_arr (c : ColumnRef) {operator : Operator} (h : operator.takesArray)
    {xs ys : List Json} (hlength : xs.length = ys.length) :
    Agree SameText (compare c operator (.arr xs)) (compare c operator (.arr ys)) := by
  have hmap : (xs.map SqlValue.ofJson).length = (ys.map SqlValue.ofJson).length := by
    simpa using hlength
  cases xs with
  | nil =>
    obtain rfl := List.length_eq_zero_iff.1 hlength.symm
    exact .refl (R := SameText) (fun _ => rfl) _
  | cons x xs =>
    cases ys with
    | nil => cases hlength
    | cons y ys =>
      cases operator <;> cases h
      · exact .ok (sameText_among c hmap)
      · exact .ok (sameText_notAmong c hmap)

/-- What an operator makes of a value, but for lists, patterns in any case and tests for null. -/
theorem compare_eq_compare (c : ColumnRef) {operator : Operator} (hlist : ¬ operator.takesArray)
    (hpattern : operator ≠ .ilike) {v : Json}
    (hnull : ¬ (v = .null ∧ (operator = .eq ∨ operator = .ne))) :
    compare c operator v = .ok (.compare c (comparison operator) (.ofJson v)) := by
  cases operator <;> first
    | exact absurd rfl hlist
    | exact absurd rfl hpattern
    | rfl
    | cases v <;> first | rfl | simp at hnull

/-- Alike values make conditions with one text. -/
theorem compare_agree (c : ColumnRef) {operator : Operator} {v w : Json}
    (h : operator.Alike v w) :
    Agree SameText (compare c operator v) (compare c operator w) := by
  obtain ⟨hnull, hsize⟩ := h
  by_cases hlist : operator.takesArray
  · have hsize := hsize hlist
    cases hv : v.size? with
    | none =>
      rw [compare_eq_error c hlist hv, compare_eq_error c hlist (hsize ▸ hv)]
      exact .error _
    | some n =>
      obtain ⟨xs, rfl, hx⟩ := Json.exists_of_size? hv
      obtain ⟨ys, rfl, hy⟩ := Json.exists_of_size? (hsize ▸ hv)
      exact compare_arr c hlist (hx.trans hy.symm)
  · by_cases hpattern : operator = .ilike
    · subst hpattern
      exact .ok (sameText_ilike _ _ _)
    -- null is not compared with but tested for, so both values must be null here
    · by_cases htest : v = .null ∧ (operator = .eq ∨ operator = .ne)
      · rw [hnull.1 htest.1, htest.1]
        exact .refl (R := SameText) (fun _ => rfl) _
      · have htest' : ¬ (w = .null ∧ (operator = .eq ∨ operator = .ne)) :=
          fun hw => htest ⟨hnull.2 hw.1, hw.2⟩
        rw [compare_eq_compare c hlist hpattern htest, compare_eq_compare c hlist hpattern htest']
        exact .ok (sameText_compare _ _ _ _)

theorem parallel_pathCondition (field : String) {operator : Operator} {v w : Json}
    (h : operator.Alike v w) : ∀ (names : List String) (schema : Schema) (table : Nat),
    Parallel (pathCondition r field operator v schema table names)
      (pathCondition r field operator w schema table names) SameText
  | [], schema, table => by
    unfold pathCondition
    exact parallel_bind _ fun c => parallel_lift (compare_agree _ h)
  | relationship :: rest, schema, table => by
    unfold pathCondition
    refine parallel_bind _ fun a => parallel_bind _ fun inner => parallel_bind _ fun join => ?_
    refine (parallel_pathCondition field h rest a.target inner).bind fun c d hcd => ?_
    exact parallel_pure (congrArg (fun text => "EXISTS (SELECT 1 FROM "
      ++ Sql.aliased a.target.tableName inner ++ " WHERE " ++ join.sql ++ " AND " ++ text
      ++ ")") hcd)

mutual

/-- Alike predicates are rendered with one text. -/
theorem parallel_condition (schema : Schema) (table : Nat) : ∀ {p q : Predicate}, p.Alike q →
    Parallel (condition r schema table p) (condition r schema table q) SameText
  | .condition c, .condition d, h => by
    obtain ⟨hpath, hoperator, hvalue⟩ := h
    unfold condition
    rw [← hpath, ← hoperator]
    exact parallel_pathCondition r _ hvalue _ _ _
  | .all [], .all [], _ => (parallel_refl _).mono fun _ _ he => he ▸ rfl
  | .any [], .any [], _ => (parallel_refl _).mono fun _ _ he => he ▸ rfl
  | .all (_ :: _), .all (_ :: _), h => by
    unfold condition
    refine (parallel_conditions schema table h).bind fun cs ds hcd => parallel_pure ?_
    exact congrArg (fun texts => "(" ++ " AND ".intercalate texts ++ ")") hcd
  | .any (_ :: _), .any (_ :: _), h => by
    unfold condition
    refine (parallel_conditions schema table h).bind fun cs ds hcd => parallel_pure ?_
    exact congrArg (fun texts => "(" ++ " OR ".intercalate texts ++ ")") hcd

theorem parallel_conditions (schema : Schema) (table : Nat) : ∀ {ps qs : List Predicate},
    Predicate.AllAlike ps qs →
    Parallel (conditions r schema table ps) (conditions r schema table qs)
      fun cs ds => RowCondition.sqls cs = RowCondition.sqls ds
  | [], [], _ => (parallel_refl _).mono fun _ _ he => he ▸ rfl
  | p :: ps, q :: qs, ⟨hp, hps⟩ => by
    unfold conditions
    refine (parallel_condition schema table hp).bind fun c d hcd => ?_
    refine (parallel_conditions schema table hps).bind fun cs ds hcds => parallel_pure ?_
    rw [RowCondition.sqls, RowCondition.sqls, hcds]
    exact congrArg (· :: _) hcd

end

theorem isEmpty_eq_of_alike : ∀ {p q : Predicate}, p.Alike q → p.isEmpty = q.isEmpty
  | .condition _, .condition _, _ => rfl
  | .all [], .all [], _ | .any [], .any [], _ => rfl
  | .all (_ :: _), .all (_ :: _), _ | .any (_ :: _), .any (_ :: _), _ => rfl

theorem parallel_filter (schema : Schema) (table : Nat) {p q : Predicate} (h : p.Alike q) :
    Parallel (filter r schema table p) (filter r schema table q)
      fun c d => RowCondition.clause c = RowCondition.clause d := by
  unfold filter
  rw [isEmpty_eq_of_alike h]
  split
  · exact parallel_pure rfl
  · refine (parallel_condition r schema table h).bind fun c d hcd => parallel_pure ?_
    exact congrArg (" WHERE " ++ ·) hcd

/-- Alike filters make queries for keys with one text. -/
theorem parallel_keys (schema : Schema) {p q : Predicate} (h : p.Alike q) :
    Parallel (keys r schema p) (keys r schema q)
      fun s t => (s.table = t.table ∧ s.column = t.column) ∧ s.sql = t.sql := by
  unfold keys
  refine parallel_bind _ fun table => (parallel_filter r schema table h).bind fun c d hcd => ?_
  refine parallel_pure ⟨⟨rfl, rfl⟩, ?_⟩
  rw [KeyQuery.sql, KeyQuery.sql, hcd]

end Rendering

namespace Statement

open Rendering

variable (r : Registry) (schema : Schema)

/-! ## Statements -/

/-- The SQL of a plan does not depend on the values of its filter. -/
theorem agree_ofPlan {p q : Plan} (h : p.Alike q) :
    Agree (fun s t => s.1.sql = t.1.sql) (ofPlan r schema p) (ofPlan r schema q) := by
  obtain ⟨hfilter, hrest⟩ := h
  rw [hrest]
  unfold ofPlan
  -- the filter comes between parts that are rendered from the same plan, from the same alias on
  refine Parallel.start (parallel_bind _ fun table => parallel_bind _ fun columns =>
    parallel_bind _ fun related => ?_)
  refine (parallel_filter r schema table hfilter).bind fun c d hcd => ?_
  refine parallel_bind _ fun order => parallel_pure ?_
  simp only [SelectQuery.sql, SelectQuery.source, SelectQuery.selection, hcd]

theorem agree_ofCount {p q : Predicate} (h : p.Alike q) :
    Agree (fun s t => s.sql = t.sql) (ofCount r schema p) (ofCount r schema q) := by
  refine (parallel_keys r schema h).start.bind fun s t hst => .ok ?_
  exact congrArg (fun text => "SELECT COUNT(*) FROM (" ++ text ++ ")") hst.2

theorem sql_delete (rows : KeyQuery) : (delete rows).sql = "DELETE FROM " ++ name rows.table
    ++ " WHERE " ++ name rows.column ++ " IN (" ++ rows.sql ++ ")" :=
  rfl

theorem agree_ofDelete {p q : Predicate} (h : p.Alike q) :
    Agree (fun s t => s.sql = t.sql) (ofDelete r schema p) (ofDelete r schema q) := by
  refine (parallel_keys r schema h).start.bind fun s t hst => .ok ?_
  obtain ⟨⟨htable, hcolumn⟩, hsql⟩ := hst
  rw [sql_delete, sql_delete, htable, hcolumn, hsql]

/-- Rows with the same keys go into the same columns. -/
theorem agree_assignments {row other : Object} (h : row.keys = other.keys) :
    Agree (fun v w => v.map (·.1) = w.map (·.1)) (assignments r schema row)
      (assignments r schema other) := by
  have hkeys : List.Forall₂ Eq (row.map (·.1)) (other.map (·.1)) := by
    rw [List.forall₂_eq_eq_eq]
    exact h
  rw [List.forall₂_map_left_iff, List.forall₂_map_right_iff] at hkeys
  refine (agree_mapM (R := fun v w => v.1 = w.1) ?_ hkeys).mono fun v w hvw => ?_
  · rintro ⟨field, v⟩ ⟨_, w⟩ rfl
    exact (Agree.refl (R := Eq) (fun _ => rfl) _).bind fun c d he =>
      .ok (congrArg Column.column he)
  · exact map_eq_map_of_forall₂ hvw.flip

section

variable {v w : List (String × SqlValue)} (h : v.map (·.1) = w.map (·.1))
include h

/-- What is written of columns only. -/
theorem map_columns_eq (f : String → String) :
    v.map (fun x => f x.1) = w.map fun x => f x.1 := by
  have hv := congrArg (List.map f) h
  rwa [List.map_map, List.map_map] at hv

theorem length_eq_of_columns : v.length = w.length := by
  have hlength := congrArg List.length h
  rwa [List.length_map, List.length_map] at hlength

theorem sql_insert_eq (table : String) : (insert table v).sql = (insert table w).sql := by
  have hinsert (values : List (String × SqlValue)) : (insert table values).sql =
      "INSERT INTO " ++ name table
        ++ (if values.isEmpty then " DEFAULT VALUES"
          else " (" ++ ", ".intercalate (values.map (name ·.1)) ++ ") VALUES " ++ marks values)
        ++ " RETURNING *" := rfl
  have hempty : v.isEmpty = w.isEmpty := by
    rw [Bool.eq_iff_iff, List.isEmpty_iff_length_eq_zero,
      List.isEmpty_iff_length_eq_zero, length_eq_of_columns h]
  rw [hinsert, hinsert, hempty, map_columns_eq h, marks_eq_of_length (length_eq_of_columns h)]

theorem sql_update_eq {s t : KeyQuery} (hst : (s.table = t.table ∧ s.column = t.column) ∧
    s.sql = t.sql) : (update s v).sql = (update t w).sql := by
  have hupdate (rows : KeyQuery) (values : List (String × SqlValue)) : (update rows values).sql =
      "UPDATE " ++ name rows.table ++ " SET "
        ++ ", ".intercalate (values.map fun x => name x.1 ++ " = " ++ mark)
        ++ " WHERE " ++ name rows.column ++ " IN (" ++ rows.sql ++ ")" := rfl
  obtain ⟨⟨htable, hcolumn⟩, hsql⟩ := hst
  rw [hupdate, hupdate, map_columns_eq h (name · ++ " = " ++ mark), htable, hcolumn, hsql]

end

theorem agree_ofInsert {row other : Object} (h : row.keys = other.keys) :
    Agree (fun s t => s.sql = t.sql) (ofInsert r schema row) (ofInsert r schema other) :=
  (agree_assignments r schema h).bind fun _ _ hvw => .ok (sql_insert_eq hvw _)

theorem agree_ofUpdate {row other : Object} (h : row.keys = other.keys) {p q : Predicate}
    (hp : p.Alike q) :
    Agree (fun s t => s.sql = t.sql) (ofUpdate r schema row p) (ofUpdate r schema other q) :=
  (agree_assignments r schema h).bind fun _ _ hvw =>
    (parallel_keys r schema hp).start.bind fun _ _ hst => .ok (sql_update_eq hvw hst)

end Statement

namespace Registry

/-- **Values stay out of the text.** Plans, filters and rows that differ in their values only have
one SQL, or none. Where no name holds a question mark, a statement that is rendered binds the values
that it is rendered with: it has as many marks, and each value stands at the place of its mark. -/
theorem values_stay_out {schemas : List Schema} {r : Registry}
    (hr : assemble schemas = .ok r) (hu : r.NamesUnmarked) :
    (∀ (schema : Schema) (p q : Plan), p.Alike q →
      (Statement.ofPlan r schema p).map (·.1.sql) = (Statement.ofPlan r schema q).map (·.1.sql)) ∧
    (∀ (schema : Schema) (p q : Predicate), p.Alike q →
      (Statement.ofCount r schema p).map (·.sql) = (Statement.ofCount r schema q).map (·.sql) ∧
      (Statement.ofDelete r schema p).map (·.sql) = (Statement.ofDelete r schema q).map (·.sql) ∧
      ∀ row other : Object, row.keys = other.keys →
        (Statement.ofUpdate r schema row p).map (·.sql) =
          (Statement.ofUpdate r schema other q).map (·.sql)) ∧
    (∀ (schema : Schema) (row other : Object), row.keys = other.keys →
      (Statement.ofInsert r schema row).map (·.sql) =
        (Statement.ofInsert r schema other).map (·.sql)) ∧
    ∀ (s : Statement) (values : List Json), s.Rendered r values →
      s.params = values.map .ofJson ∧ s.sql.toList.count '?' = s.params.length ∧
        ∀ write : SqlValue → String,
          Sql.fill s.sql.toList (s.params.map write) = some (s.spelled write).toList := by
  refine ⟨fun schema p q h => ?_, fun schema p q h => ⟨?_, ?_, fun row other hrow => ?_⟩,
    fun schema row other hrow => ?_, fun s values h => ?_⟩
  · exact (Statement.agree_ofPlan r schema h).map_eq fun _ _ he => he
  · exact (Statement.agree_ofCount r schema h).map_eq fun _ _ he => he
  · exact (Statement.agree_ofDelete r schema h).map_eq fun _ _ he => he
  · exact (Statement.agree_ofUpdate r schema hrow h).map_eq fun _ _ he => he
  · exact (Statement.agree_ofInsert r schema hrow).map_eq fun _ _ he => he
  · obtain ⟨hplaced, hparams⟩ := Statement.placed_of_rendered hr hu h
    have hfill (write : SqlValue → String) := (hplaced write).fill_eq
    refine ⟨hparams, ?_, hfill⟩
    have hcount := Sql.count_of_fill (hfill fun _ => "")
    rwa [List.length_map] at hcount

theorem namesUnmarked_tree : tree.NamesUnmarked where
  fields := by decide
  relationships := by decide

/-- The plan for the nodes below one of a name that reads like SQL. -/
def quotedPlan : Plan :=
  { Plan.belowPlan with
    filter := .all [.condition ⟨⟨["up"], "name"⟩, .eq, .str "' OR '?' = '?"⟩] }

/-- A name that reads like SQL is looked for with the text that looks for any other name. -/
theorem values_stay_out_tree :
    (Statement.ofPlan tree treeNode Plan.belowPlan).map (·.1.sql) =
      (Statement.ofPlan tree treeNode quotedPlan).map (·.1.sql) ∧
    (Statement.ofIds treeNode [.int 1, .str "?"]).sql.toList.count '?' = 2 := by
  obtain ⟨hplans, -, -, hplaced⟩ := values_stay_out assemble_node namesUnmarked_tree
  refine ⟨hplans treeNode _ _ ⟨⟨⟨rfl, rfl, ⟨by decide, nofun⟩⟩, trivial⟩, rfl⟩, ?_⟩
  exact (hplaced _ _ (.ids treeNode _)).2.1

/-- Nodes that keep the node above them under a key that is spelled with a question mark. -/
def markedNode : Schema where
  name := "Node"
  idType := .integer
  relationships := [("up", .belongsTo "Node" (some "up?"))]

/-- The registry of nodes with such a key. -/
def markedTree : Registry :=
  ⟨[markedNode], [⟨"up", markedNode, markedNode, .belongsTo "up?"⟩], [⟨"Node", "up?", markedNode⟩]⟩

/-- **The key of an association is written into the text.** Relationships, attributes and primary
keys here are named with letters only, yet a plan without values has a question mark: it includes
the node above with its key. -/
theorem mark_of_key : assemble [markedNode] = .ok markedTree ∧
    (∀ schema ∈ markedTree.schemas, ∀ name ∈ schema.relationshipNames ++ schema.allFields,
      name.toList.all Char.isAlpha) ∧
    ∃ q outputs, Statement.ofPlan markedTree markedNode
        { includes := [.mk "up" "Node" (.only ["up?"]) []] } = .ok (q, outputs) ∧
      (Statement.select q).params = [] ∧ (Statement.select q).sql.toList.count '?' = 1 := by
  refine ⟨by decide +kernel, by decide, _, _, rfl, rfl, ?_⟩
  decide +kernel

end Registry

end ResourceApi
