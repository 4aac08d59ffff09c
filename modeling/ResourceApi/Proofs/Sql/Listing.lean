import ResourceApi.Proofs.Sql.Meaning
import ResourceApi.Proofs.Sql.Nesting

/-!
# Lists of values

A field can be compared with a list of values at once, or with each of them in turn, in a
disjunction or a conjunction.

**Theorems (`Predicate.selects_among`, `Predicate.selects_notAmong`).** A null in a list is equal to
nothing, and nothing is known to differ from it. So a field has one of the values if it equals one
of those that are not null, and it has none of the values if it differs from all of them and none of
them is null.

Rendered, both forms name the same column and bind the same values (`RowCondition.Lists`). What the
second form costs is depth, one level for each value.
-/

namespace ResourceApi

variable {r : Registry} {db : Database} {schema : Schema} {field : String} {values : List Json}

/-- A comparison with null holds for no value. -/
theorem Operator.compares_null (o : Operator) (affinity : Affinity) (stored : SqlValue) :
    o.compares affinity stored .null = false := by
  have hnull : affinity.convert (.ofJson .null) = .null := Rendering.convert_eq_null.2 rfl
  unfold compares
  rw [hnull]
  simp

namespace Predicate

/-! ## The two forms -/

section

variable (field : String)

/-- The field is compared with a value. -/
def compares (operator : Operator) (value : Json) : Predicate :=
  .condition ⟨⟨[], field⟩, operator, value⟩

/-- The field has one of the values. -/
def among (values : List Json) : Predicate := compares field .among (.arr values)

/-- The field equals some value of a list. The disjunction stands in a conjunction, because a filter
that is a disjunction of nothing counts as none. -/
def equalsAny (values : List Json) : Predicate := .all [.any (values.map (compares field .eq))]

/-- The field has none of the values. -/
def notAmong (values : List Json) : Predicate := compares field .notAmong (.arr values)

/-- The field differs from every value of a list. -/
def differsFromAll (values : List Json) : Predicate := .all (values.map (compares field .ne))

/-- Comparisons with a list at once, and in turn with its values. -/
def listed (values : List Json) : List (Predicate × Predicate) :=
  [(among field values, equalsAny field values),
    (notAmong field values, differsFromAll field values)]

end

/-! ## Rows -/

theorem selects_compares (operator : Operator) (value : Json) (row : Tuple) :
    (compares field operator value).selects r db schema row = operator.meets
      (db.affinity schema.tableName (columnName field)) value (row.get (columnName field)) := by
  rw [selects, compares, eval]
  rfl

theorem selects_equalsAny (row : Tuple) : (equalsAny field values).selects r db schema row =
    values.any fun value => (compares field .eq value).selects r db schema row := by
  rw [equalsAny, selects, eval_all, List.all_cons, List.all_nil, Bool.and_true, eval_any,
    List.any_map]
  rfl

theorem selects_differsFromAll (row : Tuple) :
    (differsFromAll field values).selects r db schema row =
      values.all fun value => (compares field .ne value).selects r db schema row := by
  rw [differsFromAll, selects, eval_all, List.all_map]
  rfl

/-- **A field has one of the values** if it equals one of those that are not null. -/
theorem selects_among (values : List Json) (row : Tuple) :
    (among field values).selects r db schema row =
      (equalsAny field (values.filter (· ≠ .null))).selects r db schema row := by
  rw [among, selects_compares, selects_equalsAny, List.any_filter]
  refine congrArg values.any (funext fun value => ?_)
  rw [selects_compares]
  by_cases hv : value = .null
  · subst hv
    exact Operator.compares_null _ _ _
  · rw [Operator.meets_of_ne_null hv]
    simp [hv, Operator.accepts]

/-- **A field has none of the values** if it differs from all of them, and none of them is null. -/
theorem selects_notAmong (values : List Json) (row : Tuple) :
    (notAmong field values).selects r db schema row =
      (decide (.null ∉ values) && (differsFromAll field values).selects r db schema row) := by
  rw [notAmong, selects_compares, selects_differsFromAll]
  show values.all _ = _
  by_cases hnull : .null ∈ values
  · have hfalse : values.all (Operator.ne.compares
        (db.affinity schema.tableName (columnName field)) (row.get (columnName field))) = false :=
      List.all_eq_false.2 ⟨_, hnull, by rw [Operator.compares_null]; exact Bool.false_ne_true⟩
    rw [hfalse, decide_eq_false (not_not.2 hnull), Bool.false_and]
  · rw [decide_eq_true hnull, Bool.true_and, Bool.eq_iff_iff, List.all_eq_true, List.all_eq_true]
    refine forall₂_congr fun value hv => ?_
    rw [selects_compares, Operator.meets_of_ne_null fun he => hnull (he ▸ hv)]
    rfl

/-- **Without null, a list selects what its values select in turn.** -/
theorem selected_of_listed (hn : .null ∉ values) {q p : Predicate}
    (h : (q, p) ∈ listed field values) (db : Database) : q.selected r db schema = p.selected r db schema := by
  refine List.filter_congr fun row _ => ?_
  simp only [listed, List.mem_cons, Prod.mk.injEq, List.not_mem_nil, or_false] at h
  rcases h with ⟨rfl, rfl⟩ | ⟨rfl, rfl⟩
  · have hall : values.filter (· ≠ .null) = values :=
      List.filter_eq_self.2 fun value hv => decide_eq_true fun he => hn (he ▸ hv)
    rw [selects_among, hall]
  · rw [selects_notAmong, decide_eq_true hn, Bool.true_and]

end Predicate

/-! ## Rendered conditions -/

namespace Depth

/-- In a chain of comparisons, each adds a level. -/
theorem foldl_chain (ds : List Depth) (hd : ∀ d ∈ ds, d = node [qualified, leaf]) (height : Nat)
    (hh : 3 ≤ height) :
    ds.foldl (fun left right => node [left, right]) ⟨height, 0⟩ = ⟨height + ds.length, 0⟩ := by
  induction ds generalizing height with
  | nil => rfl
  | cons d ds ih =>
    obtain ⟨rfl, hds⟩ := List.forall_mem_cons.1 hd
    have hnode : node [⟨height, 0⟩, node [qualified, leaf]] = ⟨height + 1, 0⟩ := by
      have hmax : max height 3 = height := Nat.max_eq_left hh
      simp [node, largest, qualified, leaf, hmax]
    rw [List.foldl_cons, hnode, ih hds (height + 1) (by omega), List.length_cons]
    congr 1
    omega

end Depth

/-- An optional condition compares a column with values, and is no deeper than a bound. -/
structure RowCondition.Lists (c : ColumnRef) (values : List SqlValue) (bound : Nat)
    (condition : Option RowCondition) : Prop where
  params : (condition.map RowCondition.params).getD [] = values
  tables : ((condition.map RowCondition.names).getD Names.none).tables = []
  columns : ∀ d, d ∈ ((condition.map RowCondition.names).getD Names.none).columns ↔
    values ≠ [] ∧ d = c
  depth : ∀ d ∈ condition, d.depth.total ≤ bound

/-- Under every alias, a filter is rendered as a condition that compares a column with values, and
is no deeper than a bound. -/
def Predicate.Lists (r : Registry) (schema : Schema) (column : String) (values : List SqlValue)
    (bound : Nat) (p : Predicate) : Prop :=
  ∃ condition : Nat → Option RowCondition, ∀ table,
    Rendering.filter r schema table p = pure (condition table) ∧
      RowCondition.Lists ⟨table, column⟩ values bound (condition table)

namespace RowCondition

/-- Comparisons of a column with one value after the other. -/
def comparisons (c : ColumnRef) (comparison : Comparison) (values : List SqlValue) :
    List RowCondition :=
  values.map (compare c comparison)

theorem paramsOf_comparisons (c : ColumnRef) (comparison : Comparison) (values : List SqlValue) :
    paramsOf (comparisons c comparison values) = values := by
  induction values with
  | nil => rfl
  | cons v values ih =>
    show v :: paramsOf (comparisons c comparison values) = _
    rw [ih]

theorem namesOf_comparisons (c : ColumnRef) (comparison : Comparison) (values : List SqlValue) :
    namesOf (comparisons c comparison values) = ⟨[], List.replicate values.length c⟩ := by
  induction values with
  | nil => rfl
  | cons v values ih =>
    show Names.ofColumns [c] ++ namesOf (comparisons c comparison values) = _
    rw [ih]
    rfl

theorem depths_comparisons (c : ColumnRef) (comparison : Comparison) (values : List SqlValue) :
    depths (comparisons c comparison values) =
      values.map fun _ => Depth.node [.qualified, .leaf] := by
  induction values with
  | nil => rfl
  | cons v values ih =>
    show depth (compare c comparison v) :: depths (comparisons c comparison values) = _
    rw [ih]
    rfl

theorem total_chain_comparisons (c : ColumnRef) (comparison : Comparison) (values : List SqlValue) :
    (Depth.chain (depths (comparisons c comparison values))).total ≤ values.length + 2 := by
  rw [depths_comparisons]
  cases values with
  | nil => exact Nat.zero_le 2
  | cons v values =>
    have hchain := Depth.foldl_chain (values.map fun _ => Depth.node [.qualified, .leaf])
      (by simp) 3 (Nat.le_refl 3)
    rw [List.length_map] at hchain
    show (List.foldl (fun left right => Depth.node [left, right]) (⟨3, 0⟩ : Depth) _).total ≤ _
    rw [hchain]
    show 3 + values.length + 0 ≤ (v :: values).length + 2
    rw [List.length_cons]
    omega

/-- A condition that has no values and names nothing stands for comparisons with no values. -/
theorem lists_nil (c : ColumnRef) {condition : Option RowCondition} {bound : Nat}
    (hparams : (condition.map params).getD [] = [])
    (hnames : (condition.map names).getD Names.none = Names.none)
    (hdepth : ∀ d ∈ condition, d.depth.total ≤ bound) : Lists c [] bound condition := by
  refine ⟨hparams, congrArg Names.tables hnames, fun d => ?_, hdepth⟩
  rw [hnames]
  simp [Names.none]

theorem lists_always (c : ColumnRef) : Lists c [] 4 (some .always) := by
  refine lists_nil c rfl rfl ?_
  rintro _ ⟨⟩
  decide

theorem lists_never (c : ColumnRef) : Lists c [] 4 (some .never) := by
  refine lists_nil c rfl rfl ?_
  rintro _ ⟨⟩
  decide

theorem lists_all_never (c : ColumnRef) : Lists c [] 2 (some (.all [.never])) := by
  refine lists_nil c rfl rfl ?_
  rintro _ ⟨⟩
  decide

variable {c : ColumnRef} {values : List SqlValue}

theorem lists_among (hv : values ≠ []) : Lists c values 4 (some (.among c values)) := by
  refine ⟨rfl, rfl, by simp [names, Names.ofColumns, hv], ?_⟩
  rintro _ ⟨⟩
  show (Depth.node [.qualified, .leaf]).total ≤ 4
  decide

theorem lists_notAmong (hv : values ≠ []) : Lists c values 4 (some (.notAmong c values)) := by
  refine ⟨rfl, rfl, by simp [names, Names.ofColumns, hv], ?_⟩
  rintro _ ⟨⟩
  show (Depth.node [.node [.qualified, .leaf]]).total ≤ 4
  decide

theorem lists_all (c : ColumnRef) (comparison : Comparison) (values : List SqlValue) :
    Lists c values (values.length + 2) (some (.all (comparisons c comparison values))) := by
  refine ⟨paramsOf_comparisons c comparison values, ?_, fun d => ?_, ?_⟩
  · exact congrArg Names.tables (namesOf_comparisons c comparison values)
  · show d ∈ (namesOf (comparisons c comparison values)).columns ↔ _
    simp [namesOf_comparisons, List.mem_replicate]
  · rintro _ ⟨⟩
    exact total_chain_comparisons c comparison values

theorem lists_all_any (c : ColumnRef) (comparison : Comparison) (values : List SqlValue) :
    Lists c values (values.length + 2)
      (some (.all [.any (comparisons c comparison values)])) := by
  have h := lists_all c comparison values
  have hlike := Alike.all (some (.any (comparisons c comparison values)))
  refine ⟨hlike.params.trans h.params, ?_, ?_, ?_⟩
  · exact (congrArg Names.tables hlike.names).trans h.tables
  · intro d
    rw [← h.columns d]
    exact iff_of_eq (congrArg (d ∈ ·.columns) hlike.names)
  · rintro _ ⟨⟩
    exact total_chain_comparisons c comparison values

end RowCondition

namespace Rendering

/-! ## Rendering -/

variable {column : Column} (hc : r.column? schema field = some column)
include hc

theorem condition_compares (table : Nat) (operator : Operator) (value : Json) :
    condition r schema table (.compares field operator value) =
      liftM (compare ⟨table, column.column⟩ operator value) := by
  have hcolumn : Rendering.column r schema field = .ok column := by
    unfold Rendering.column
    rw [hc]
  unfold Predicate.compares condition pathCondition
  dsimp only
  rw [hcolumn]
  rfl

/-- Comparisons with values other than null bind the values. -/
theorem conditions_compares {operator : Operator} {comparison : Comparison}
    (ho : (operator = .eq ∧ comparison = .eq) ∨ (operator = .ne ∧ comparison = .ne))
    (hn : .null ∉ values) (table : Nat) :
    conditions r schema table (values.map (.compares field operator)) =
      pure (RowCondition.comparisons ⟨table, column.column⟩ comparison (values.map .ofJson)) := by
  induction values with
  | nil =>
    unfold conditions
    rfl
  | cons value values ih =>
    rw [List.mem_cons, not_or] at hn
    have hvalue : compare ⟨table, column.column⟩ operator value =
        .ok (.compare ⟨table, column.column⟩ comparison (.ofJson value)) := by
      rcases ho with ⟨rfl, rfl⟩ | ⟨rfl, rfl⟩ <;>
        cases value <;> first | rfl | exact absurd rfl hn.1
    rw [List.map_cons]
    unfold conditions
    rw [condition_compares hc, hvalue, ih hn.2]
    rfl

/-- A list at once is rendered as one comparison. -/
theorem lists_compares {operator : Operator} {value : Json} {values : List SqlValue}
    {condition : ColumnRef → RowCondition} {bound : Nat}
    (h : ∀ c, compare c operator value = .ok (condition c) ∧
      RowCondition.Lists c values bound (some (condition c))) :
    (Predicate.compares field operator value).Lists r schema column.column values bound := by
  refine ⟨fun table => some (condition ⟨table, column.column⟩), fun table => ?_⟩
  obtain ⟨hcompare, hlists⟩ := h ⟨table, column.column⟩
  refine ⟨?_, hlists⟩
  unfold filter
  rw [if_neg (by simp [Predicate.compares, Predicate.isEmpty]), condition_compares hc, hcompare]
  rfl

theorem lists_among (values : List Json) :
    (Predicate.among field values).Lists r schema column.column (values.map .ofJson) 4 := by
  cases values with
  | nil => exact lists_compares hc fun c => ⟨rfl, RowCondition.lists_never c⟩
  | cons value values =>
    exact lists_compares hc fun c => ⟨rfl, RowCondition.lists_among (List.cons_ne_nil _ _)⟩

theorem lists_notAmong (values : List Json) :
    (Predicate.notAmong field values).Lists r schema column.column (values.map .ofJson) 4 := by
  cases values with
  | nil => exact lists_compares hc fun c => ⟨rfl, RowCondition.lists_always c⟩
  | cons value values =>
    exact lists_compares hc fun c => ⟨rfl, RowCondition.lists_notAmong (List.cons_ne_nil _ _)⟩

variable (hn : .null ∉ values)
include hn

theorem lists_differsFromAll : (Predicate.differsFromAll field values).Lists r schema column.column
    (values.map .ofJson) (values.length + 2) := by
  cases values with
  | nil => exact ⟨fun _ => none, fun table => ⟨rfl, RowCondition.lists_nil _ rfl rfl nofun⟩⟩
  | cons value values =>
    refine ⟨fun table => some (.all (RowCondition.comparisons ⟨table, column.column⟩ .ne
      ((value :: values).map .ofJson))), fun table => ⟨?_, ?_⟩⟩
    · have hall := conditions_compares hc (.inr ⟨rfl, rfl⟩) hn table
      rw [List.map_cons] at hall
      unfold filter Predicate.differsFromAll condition
      rw [List.map_cons]
      dsimp only
      rw [hall]
      rfl
    · have h := RowCondition.lists_all ⟨table, column.column⟩ .ne ((value :: values).map .ofJson)
      rwa [List.length_map] at h

theorem lists_equalsAny : (Predicate.equalsAny field values).Lists r schema column.column
    (values.map .ofJson) (values.length + 2) := by
  cases values with
  | nil =>
    refine ⟨fun _ => some (.all [.never]), fun table => ⟨?_, RowCondition.lists_all_never _⟩⟩
    unfold filter Predicate.equalsAny condition conditions conditions condition
    rfl
  | cons value values =>
    refine ⟨fun table => some (.all [.any (RowCondition.comparisons ⟨table, column.column⟩ .eq
      ((value :: values).map .ofJson))]), fun table => ⟨?_, ?_⟩⟩
    · have hall := conditions_compares hc (.inl ⟨rfl, rfl⟩) hn table
      rw [List.map_cons] at hall
      rw [Predicate.equalsAny, filter_all r schema table (by simp), List.map_cons]
      unfold filter condition
      dsimp only
      rw [hall]
      rfl
    · have h := RowCondition.lists_all_any ⟨table, column.column⟩ .eq
        ((value :: values).map .ofJson)
      rwa [List.length_map] at h

end Rendering

/-- The first filter can stand for the second one: both compare a column with the same values, and
they select the same rows. The first one is no deeper than a bound. -/
structure Predicate.StandsFor (r : Registry) (schema : Schema) (bound : Nat) (q p : Predicate) :
    Prop where
  lists : ∃ column values other, q.Lists r schema column values bound ∧
    p.Lists r schema column values other
  selected : ∀ db : Database, q.selected r db schema = p.selected r db schema
  ne_any : q ≠ .any [] ∧ p ≠ .any []

/-- **A list at once and its values in turn stand for each other.** -/
theorem Predicate.standsFor_of_listed (hf : schema.hasField field) (hn : .null ∉ values)
    {q p : Predicate} (h : (q, p) ∈ listed field values) :
    q.StandsFor r schema 4 p ∧ p.StandsFor r schema (values.length + 2) q := by
  obtain ⟨column, hc, -⟩ := Registry.column?_of_hasField r hf
  have hselected (db : Database) : q.selected r db schema = p.selected r db schema :=
    selected_of_listed hn h db
  have hlists : q.Lists r schema column.column (values.map .ofJson) 4 ∧
      p.Lists r schema column.column (values.map .ofJson) (values.length + 2) ∧
        q ≠ .any [] ∧ p ≠ .any [] := by
    simp only [listed, List.mem_cons, Prod.mk.injEq, List.not_mem_nil, or_false] at h
    rcases h with ⟨rfl, rfl⟩ | ⟨rfl, rfl⟩
    · exact ⟨Rendering.lists_among hc values, Rendering.lists_equalsAny hc hn, nofun, nofun⟩
    · exact ⟨Rendering.lists_notAmong hc values, Rendering.lists_differsFromAll hc hn, nofun, nofun⟩
  obtain ⟨hq, hp, hne⟩ := hlists
  exact ⟨⟨⟨_, _, _, hq, hp⟩, hselected, hne⟩,
    ⟨⟨_, _, _, hp, hq⟩, fun db => (hselected db).symm, hne.symm⟩⟩

/-! ## Statements -/

section

variable {query : KeyQuery} {bound : Nat} (hb : 2 ≤ bound)
  (h : ∀ d ∈ query.condition, d.depth.total ≤ bound)
include hb h

theorem KeyQuery.total_le {d : Depth}
    (hd : d ∈ .qualified :: (query.condition.map (·.depth)).toList) : d.total ≤ bound := by
  rcases List.mem_cons.1 hd with rfl | hd
  · exact hb
  · obtain ⟨c, hc, rfl⟩ := Option.map_eq_some_iff.1 (Option.mem_toList.1 hd)
    exact h c hc

/-- Counting is as deep as the condition. -/
theorem Statement.depth_count_le : (Statement.count query).depth ≤ bound :=
  Depth.largest_le_iff.2 (List.forall_mem_map.2 fun _ hd => query.total_le hb h hd)

/-- Changing and deleting is twice as deep as the condition, and a level more. -/
theorem Statement.depth_change_le :
    (Depth.node [.leaf, query.depth]).total ≤ 2 * bound + 1 := by
  have hheight : query.depth.height ≤ bound :=
    Depth.largest_le_iff.2 (List.forall_mem_map.2 fun d hd =>
      Nat.le_trans (Nat.le_add_right d.height d.inner) (query.total_le hb h hd))
  have hinner : query.depth.inner ≤ bound := Statement.depth_count_le hb h
  have hheights : Depth.largest [1, query.depth.height] ≤ bound :=
    Depth.largest_le_iff.2 (by simp; omega)
  have hinners : Depth.largest [0, query.depth.inner] ≤ bound :=
    Depth.largest_le_iff.2 (by simp; omega)
  show Depth.largest [1, query.depth.height] + 1 + Depth.largest [0, query.depth.inner] ≤ _
  omega

end

/-- Another condition makes a query no deeper than the rest of it and the condition. -/
theorem Statement.depth_select_le {query : SelectQuery} {condition : Option RowCondition}
    {bound : Nat} (h : (Statement.select query).depth ≤ bound)
    (hc : ∀ d ∈ condition, d.depth.total ≤ bound) :
    (Statement.select { query with condition }).depth ≤ bound := by
  have hparts := List.forall_mem_map.1 (Depth.largest_le_iff.1 h)
  refine Depth.largest_le_iff.2 (List.forall_mem_map.2 fun d hd => ?_)
  simp only [List.mem_append] at hparts hd
  rcases hd with (hd | hd) | hd
  · exact hparts d (.inl (.inl hd))
  · obtain ⟨c, hm, rfl⟩ := Option.map_eq_some_iff.1 (Option.mem_toList.1 hd)
    exact hc c hm
  · exact hparts d (.inr hd)

/-- Names resolve as before where a part of them is replaced by some of its columns. -/
theorem Database.resolves_of_subset (db : Database) {a x y b : Names} (hx : x.tables = [])
    (hy : y.tables = []) (hsub : ∀ c ∈ y.columns, c ∈ x.columns)
    (h : ∀ c ∈ (a ++ x ++ b).columns, db.resolves (a ++ x ++ b) c = true) :
    ∀ c ∈ (a ++ y ++ b).columns, db.resolves (a ++ y ++ b) c = true := by
  intro c hc
  have htables : (a ++ y ++ b).tables = (a ++ x ++ b).tables := by
    show a.tables ++ y.tables ++ b.tables = a.tables ++ x.tables ++ b.tables
    rw [hx, hy]
  have hmem : c ∈ (a ++ x ++ b).columns := by
    rcases List.mem_append.1 hc with hc | hc
    · rcases List.mem_append.1 hc with hc | hc
      · exact List.mem_append_left _ (List.mem_append_left _ hc)
      · exact List.mem_append_left _ (List.mem_append_right _ (hsub c hc))
    · exact List.mem_append_right _ hc
  unfold resolves
  rw [htables]
  exact h c hmem

end ResourceApi
