import Mathlib.Data.List.Perm.Basic
import ResourceApi.Proofs.Sql.Runs
import ResourceApi.Proofs.Sql.Trees

/-!
# Aliases of rendered queries

The aliases of a query are drawn from a counter (`Rendering.aliasId`), before or after the text in
which they are used. What a rendering introduces is therefore followed together with the counter
(`Rendering.Draws`): between two values of the counter, the tables that get a name in the tree are
those of the aliases drawn, each once, in some order.

**Theorem (`Rendering.introduced_ofPlan`).** The query of a plan introduces the first aliases, each
once.
-/

namespace ResourceApi

open Sql (Item aliasName)
open Sql.Item (introduced)

/-! ## Introduced names -/

@[simp] theorem Sql.Item.introduced_listed (parts : List (List Item)) :
    introduced (listed parts) = parts.flatMap introduced :=
  gather_intercalate (by simp) parts

@[simp] theorem Sql.Item.introduced_marks {α : Type} (values : List α) (rest : List Item) :
    introduced (.marks values :: rest) = introduced rest := by
  simp [Item.marks]

@[simp] theorem SelectQuery.introduced_order (order : List (SortValue × Direction)) :
    introduced (orderItems order) = order.flatMap fun key => introduced key.1.items := by
  have hkey (key : SortValue × Direction) : introduced (keyItems key) = introduced key.1.items := by
    obtain ⟨value, _ | _⟩ := key <;> simp [keyItems]
  unfold orderItems
  split_ifs with hempty
  · simp [List.isEmpty_iff.1 hempty]
  · simp [List.flatMap_map, hkey]

@[simp] theorem SelectQuery.introduced_window (limit offset : Option Nat) :
    introduced (windowItems limit offset) = [] := by
  cases limit <;> cases offset <;> simp [windowItems]

namespace Rendering

variable {α β : Type}

/-! ## Drawing -/

/-- The names that a result introduces are those before, and the aliases that the rendering
draws. -/
def Draws (before : List String) (x : Rendering α) (g : α → List String) : Prop :=
  ∀ ⦃n a m⦄, x.run n = .ok (a, m) →
    ∃ k, m = n + k ∧ (g a).Perm (before ++ (List.range' n k).map aliasName)

variable {before : List String}

theorem draws_pure {a : α} {g : α → List String} (h : (g a).Perm before) :
    Draws before (pure a) g := by
  intro n b m hb
  obtain ⟨rfl, rfl⟩ := run_pure_eq_ok.1 hb
  exact ⟨0, rfl, by simpa using h⟩

theorem draws_lift (x : Except RenderError α) : Draws [] (liftM x : Rendering α) fun _ => [] := by
  intro n a m h
  obtain ⟨-, rfl⟩ := run_lift_eq_ok.1 h
  exact ⟨0, rfl, by simp⟩

theorem draws_aliasId : Draws [] aliasId fun i => [aliasName i] := by
  intro n i m h
  obtain ⟨rfl, rfl⟩ := run_aliasId_eq_ok.1 h
  exact ⟨1, rfl, by simp [List.range'_one]⟩

theorem Draws.bind {x : Rendering α} {f : α → Rendering β} {g : α → List String}
    {others : β → List String} (hx : Draws [] x g)
    (hf : ∀ a, Draws (before ++ g a) (f a) others) : Draws before (x >>= f) others := by
  intro n b m h
  obtain ⟨a, m', ha, hb⟩ := run_bind_eq_ok.1 h
  obtain ⟨k, rfl, hk⟩ := hx ha
  obtain ⟨l, rfl, hl⟩ := hf a hb
  refine ⟨k + l, by omega, hl.trans ?_⟩
  rw [← List.range'_append_1, List.map_append, List.append_assoc]
  exact ((hk.append_right _).append_left before)

theorem draws_mapM {f : α → Rendering β} {g : β → List String} {xs : List α}
    (h : ∀ x ∈ xs, Draws [] (f x) g) : Draws [] (xs.mapM f) fun ys => ys.flatMap g := by
  induction xs with
  | nil => exact draws_pure .rfl
  | cons x xs ih =>
    rw [List.forall_mem_cons] at h
    rw [List.mapM_cons]
    refine h.1.bind fun y => (ih h.2).bind fun ys => draws_pure ?_
    simp

/-- Columns are looked up without drawing aliases. -/
theorem draws_columns {f : α → Rendering β} {xs : List α}
    (h : ∀ x ∈ xs, Draws [] (f x) fun _ => []) : Draws [] (xs.mapM f) fun _ => [] := by
  intro n ys m hrun
  have hnone : ys.flatMap (fun _ => ([] : List String)) = [] := List.flatMap_eq_nil_iff.2 (by simp)
  simpa [hnone] using draws_mapM h hrun

/-- From the first alias on, the aliases that are drawn are the first ones. -/
theorem Draws.start {x : Rendering α} {g : α → List String} (hx : Draws [] x g) {a : α}
    (h : Rendering.start x = .ok a) : ∃ k, (g a).Perm ((List.range k).map aliasName) := by
  obtain ⟨m, hrun⟩ := run_of_start h
  obtain ⟨k, -, hk⟩ := hx hrun
  exact ⟨k, by simpa [List.range_eq_range'] using hk⟩

variable {r : Registry} {schema : Schema}

/-! ## Parts of statements -/

theorem draws_join (a : Association) (inner table : Nat) :
    Draws [] (join a inner table) fun j => introduced j.items := by
  unfold join
  split
  · exact draws_pure (by simp [JoinCondition.items, ColumnRef.item])
  · exact draws_pure (by simp [JoinCondition.items, ColumnRef.item])
  · exact draws_pure (by simp [JoinCondition.items, ColumnRef.item])
  · exact draws_aliasId.bind fun link => draws_pure (by simp [JoinCondition.items, ColumnRef.item])

theorem introduced_compare {c : ColumnRef} {operator : Operator} {value : Json}
    {condition : RowCondition} (h : compare c operator value = .ok condition) :
    introduced condition.items = [] := by
  have hcomparison (comparison : Comparison) (rest : List Item) :
      introduced (comparison.item :: rest) = introduced rest := by
    cases comparison <;> simp [Comparison.item]
  unfold compare at h
  split at h <;> cases h <;> simp [RowCondition.items, ColumnRef.item, hcomparison]

theorem draws_pathCondition {field : String} {operator : Operator} {value : Json}
    {names : List String} {table : Nat} :
    Draws [] (pathCondition r field operator value schema table names) fun c =>
      introduced c.items := by
  induction names generalizing schema table with
  | nil =>
    refine (draws_lift _).bind fun c => ?_
    intro n condition m h
    obtain ⟨hcompare, rfl⟩ := run_lift_eq_ok.1 h
    exact ⟨0, rfl, by simp [introduced_compare hcompare]⟩
  | cons name rest ih =>
    refine (draws_lift _).bind fun a => draws_aliasId.bind fun inner => ?_
    refine (draws_join a inner table).bind fun joined => ih.bind fun condition => draws_pure ?_
    simp [RowCondition.items]

mutual

theorem draws_condition {table : Nat} : ∀ p : Predicate,
    Draws [] (condition r schema table p) fun c => introduced c.items
  | .condition c => by
    unfold condition
    exact draws_pathCondition
  | .all [] | .any [] => by
    unfold condition
    exact draws_pure (by simp [RowCondition.items])
  | .all (child :: rest) | .any (child :: rest) => by
    unfold condition
    refine (draws_conditions (child :: rest)).bind fun cs => draws_pure ?_
    simp [RowCondition.items, Item.gather_intercalate]

theorem draws_conditions {table : Nat} : ∀ children : List Predicate,
    Draws [] (conditions r schema table children) fun cs =>
      (RowCondition.itemsOf cs).flatMap introduced
  | [] => by
    unfold conditions
    exact draws_pure .rfl
  | child :: rest => by
    unfold conditions
    refine (draws_condition child).bind fun c => (draws_conditions rest).bind fun cs =>
      draws_pure ?_
    simp [RowCondition.itemsOf]

end

theorem draws_filter {table : Nat} (p : Predicate) :
    Draws [] (filter r schema table p) fun c => introduced (RowCondition.clauseItems c) := by
  unfold filter
  split
  · exact draws_pure .rfl
  · exact (draws_condition p).bind fun c => draws_pure (by simp [RowCondition.clauseItems])

theorem draws_sortValue {field : String} {names : List String} {table : Nat} :
    Draws [] (sortValue r field schema table names) fun v => introduced v.items := by
  induction names generalizing schema table with
  | nil =>
    exact (draws_lift _).bind fun c => draws_pure (by simp [SortValue.items, ColumnRef.item])
  | cons name rest ih =>
    refine (draws_lift _).bind fun a => draws_aliasId.bind fun inner => ?_
    refine ih.bind fun value => (draws_join a inner table).bind fun joined => draws_pure ?_
    simp [SortValue.items, List.perm_middle]

/-- A query for related rows introduces its own alias and those of its members and its join. -/
theorem introduced_related {many : Bool} {fields : List (String × MemberValue)}
    {nested : List (String × RelatedQuery)} {fault : Option ObjectFault} {table : String}
    {inner : Nat} {join : JoinCondition} :
    (introduced (RelatedQuery.mk many fields nested fault table inner join).items).Perm
      (aliasName inner :: ((RelatedQuery.itemsOf nested).flatMap introduced ++
        introduced join.items)) := by
  have hfields :
      fields.flatMap (fun member => introduced (RelatedQuery.fieldItems member)) = [] := by
    rw [List.flatMap_eq_nil_iff]
    rintro ⟨key, value⟩ _
    cases value <;> simp [RelatedQuery.fieldItems, MemberValue.item, ColumnRef.item]
  cases many <;>
    simp [RelatedQuery.items, List.flatMap_map, hfields, List.perm_middle]

mutual

theorem draws_related {schema : Schema} {table : Nat} : ∀ node : IncludeNode,
    Draws [] (related r schema table node) fun q => introduced q.items
  | .mk relationship target selection nested => by
    unfold related
    refine (draws_lift _).bind fun a => draws_aliasId.bind fun inner => ?_
    refine (draws_columns fun field _ => ?_).bind fun fields => ?_
    · exact (draws_lift _).bind fun c => draws_pure .rfl
    refine (draws_relatedMembers nested).bind fun members => ?_
    refine (draws_join a inner table).bind fun joined => draws_pure ?_
    simpa using introduced_related

theorem draws_relatedMembers {schema : Schema} {table : Nat} : ∀ nodes : List IncludeNode,
    Draws [] (relatedMembers r schema table nodes) fun members =>
      (RelatedQuery.itemsOf members).flatMap introduced
  | [] => by
    unfold relatedMembers
    exact draws_pure .rfl
  | node :: rest => by
    unfold relatedMembers
    refine (draws_related node).bind fun q => (draws_relatedMembers rest).bind fun members =>
      draws_pure ?_
    simp [RelatedQuery.itemsOf]

end

/-! ## Statements -/

theorem introduced_keys {p : Predicate} {q : KeyQuery} (h : start (keys r schema p) = .ok q) :
    ∃ k, (introduced q.items).Perm ((List.range k).map aliasName) := by
  refine Draws.start (x := keys r schema p) (g := fun q => introduced q.items) ?_ h
  refine draws_aliasId.bind fun table => (draws_filter p).bind fun condition => draws_pure ?_
  simp [KeyQuery.items, ColumnRef.item]

/-- **Every alias in the query of a plan is introduced once.** -/
theorem introduced_ofPlan {plan : Plan} {q : SelectQuery} {outputs : List Output}
    (h : Statement.ofPlan r schema plan = .ok (q, outputs)) :
    ∃ k, (introduced q.items).Perm ((List.range k).map aliasName) := by
  refine Draws.start (g := fun out => introduced out.1.items) ?_ h
  refine draws_aliasId.bind fun table => ?_
  refine (draws_columns fun field _ => draws_lift _).bind fun columns => ?_
  refine (draws_mapM (g := fun out => introduced out.1.items) fun node _ => ?_).bind
    fun related => ?_
  · exact (draws_lift _).bind fun a => (draws_related node).bind fun q => draws_pure (by simp)
  refine (draws_filter plan.filter).bind fun condition => ?_
  refine (draws_mapM (g := fun out => introduced out.1.items) fun key _ => ?_).bind
    fun order => draws_pure ?_
  · exact draws_sortValue.bind fun value => draws_pure (by simp)
  have hcolumns : columns.flatMap (fun c => introduced [(ColumnRef.mk table c.column).item]) = [] :=
    List.flatMap_eq_nil_iff.2 (by simp [ColumnRef.item])
  simp [SelectQuery.items, List.flatMap_map, hcolumns]

end Rendering

end ResourceApi
