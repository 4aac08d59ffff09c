import ResourceApi.Proofs.Sql.Lookup
import ResourceApi.Sql.Change
import ResourceApi.Sql.Size

/-!
# Filters in filters

A filter that stands alone in a conjunction or in a disjunction is rendered as the condition that it
is rendered as alone, in brackets. A database tells the two apart by nothing but their texts
(`RowCondition.Alike`): they keep the same rows, have the same values and names, and make statements
of the same depth.

**Theorem (`Predicate.exists_wraps`).** So it is with every filter but the disjunction of nothing.
That one is rendered as no condition, where the disjunction or conjunction of it holds for no row.
-/

namespace ResourceApi

/-! ## Depths -/

namespace Depth

theorem largest_append (ms ns : List Nat) :
    largest (ms ++ ns) = max (largest ms) (largest ns) := by
  have h : ns.foldl max (max (largest ms) 0) = max (largest ms) (ns.foldl max 0) :=
    List.foldl_assoc
  rw [Nat.max_zero] at h
  rw [largest, List.foldl_append]
  exact h

theorem le_largest {n : Nat} {ns : List Nat} (h : n ∈ ns) : n ≤ largest ns := by
  obtain ⟨before, after, rfl⟩ := List.append_of_mem h
  rw [largest_append, ← List.singleton_append, largest_append]
  have hn : largest [n] = n := Nat.zero_max n
  omega

theorem largest_le_iff {ns : List Nat} {m : Nat} : largest ns ≤ m ↔ ∀ n ∈ ns, n ≤ m := by
  refine ⟨fun h n hn => Nat.le_trans (le_largest hn) h, fun h => ?_⟩
  induction ns with
  | nil => exact Nat.zero_le m
  | cons n ns ih =>
    obtain ⟨hn, hns⟩ := List.forall_mem_cons.1 h
    have hfirst : largest [n] = n := Nat.zero_max n
    rw [← List.singleton_append, largest_append, hfirst, Nat.max_le]
    exact ⟨hn, ih hns⟩

/-- A part that is there already makes a query no deeper. -/
theorem query_insert {d : Depth} {before after : List Depth} (h : d ∈ before) :
    query (before ++ [d] ++ after) = query (before ++ [] ++ after) := by
  have hlargest (f : Depth → Nat) :
      largest ((before ++ [d] ++ after).map f) = largest ((before ++ [] ++ after).map f) := by
    have hle := le_largest (List.mem_map_of_mem (f := f) h)
    have hd : largest [f d] = f d := Nat.zero_max _
    simp only [List.map_append, List.map_cons, List.map_nil, largest_append, hd]
    rw [Nat.max_eq_left hle, show largest [] = 0 from rfl, Nat.max_zero]
  rw [query, query, hlargest, hlargest]

end Depth

/-! ## Conditions -/

/-- Two optional conditions differ in nothing but their texts. -/
structure RowCondition.Alike (c d : Option RowCondition) : Prop where
  params : (d.map (·.params)).getD [] = (c.map (·.params)).getD []
  names : (d.map (·.names)).getD .none = (c.map (·.names)).getD .none
  /-- Every query compares with a column. -/
  depth : ∀ before after, .qualified ∈ before →
    Depth.query (before ++ (d.map (·.depth)).toList ++ after) =
      Depth.query (before ++ (c.map (·.depth)).toList ++ after)
  filtered : ∀ (db : Database) (table : String) (aliasId : Nat),
    db.filtered table aliasId d = db.filtered table aliasId c

namespace RowCondition.Alike

theorem refl (c : Option RowCondition) : Alike c c := ⟨rfl, rfl, fun _ _ _ => rfl, fun _ _ _ => rfl⟩

theorem names_append_none (a : Names) : a ++ Names.none = a :=
  congrArg₂ Names.mk (List.append_nil _) (List.append_nil _)

/-- A conjunction of one condition is like the condition. No condition is like one that holds for
every row. -/
theorem all (c : Option RowCondition) : Alike c (some (.all [c.getD .always])) := by
  cases c with
  | none =>
    refine ⟨rfl, rfl, fun before after h => Depth.query_insert h, fun db table aliasId => ?_⟩
    exact List.filter_eq_self.2 fun _ _ => rfl
  | some c =>
    refine ⟨List.append_nil _, names_append_none _, fun _ _ _ => rfl, fun db table aliasId => ?_⟩
    exact List.filter_congr fun row _ => Bool.and_true _

/-- A disjunction of one condition is like the condition. -/
theorem any (c : Option RowCondition) : Alike c (some (.any [c.getD .always])) := by
  cases c with
  | none =>
    refine ⟨rfl, rfl, fun before after h => Depth.query_insert h, fun db table aliasId => ?_⟩
    exact List.filter_eq_self.2 fun _ _ => rfl
  | some c =>
    refine ⟨List.append_nil _, names_append_none _, fun _ _ _ => rfl, fun db table aliasId => ?_⟩
    exact List.filter_congr fun row _ => Bool.or_false _

end RowCondition.Alike

/-! ## Filters -/

/-- A predicate, alone and in a conjunction or disjunction of its own. -/
def Predicate.wrapped (p : Predicate) : List Predicate := [p, .all [p], .any [p]]

/-- The first predicate is rendered as what is made of the condition of the second one, and that is
like the condition. -/
structure Predicate.Wraps (q p : Predicate) (f : Option RowCondition → Option RowCondition) :
    Prop where
  filter : ∀ (r : Registry) (schema : Schema) (table : Nat),
    Rendering.filter r schema table q = f <$> Rendering.filter r schema table p
  alike : ∀ c, RowCondition.Alike c (f c)

namespace Rendering

variable (r : Registry) (schema : Schema) (table : Nat) {p : Predicate}

/-- The condition of a predicate, told from the one of the filter. -/
theorem condition_eq_filter (hany : p ≠ .any []) :
    condition r schema table p = (·.getD .always) <$> filter r schema table p := by
  unfold filter
  split
  · rename_i hempty
    cases p with
    | condition c => cases hempty
    | all children =>
      rw [List.isEmpty_iff.1 hempty]
      unfold condition
      rfl
    | any children => exact absurd (congrArg Predicate.any (List.isEmpty_iff.1 hempty)) hany
  · simp

theorem conditions_singleton (hany : p ≠ .any []) : conditions r schema table [p] =
    (fun c => [c.getD .always]) <$> filter r schema table p := by
  unfold conditions conditions
  rw [condition_eq_filter r schema table hany]
  simp

/-- The filter for a conjunction of one predicate. -/
theorem filter_all (hany : p ≠ .any []) : filter r schema table (.all [p]) =
    (fun c => some (.all [c.getD .always])) <$> filter r schema table p := by
  rw [filter, if_neg (by simp [Predicate.isEmpty])]
  unfold condition
  rw [conditions_singleton r schema table hany]
  simp

/-- The filter for a disjunction of one predicate. -/
theorem filter_any (hany : p ≠ .any []) : filter r schema table (.any [p]) =
    (fun c => some (.any [c.getD .always])) <$> filter r schema table p := by
  rw [filter, if_neg (by simp [Predicate.isEmpty])]
  unfold condition
  rw [conditions_singleton r schema table hany]
  simp

end Rendering

/-- **A filter in a conjunction or disjunction of its own is rendered alike.** -/
theorem Predicate.exists_wraps {p q : Predicate} (hany : p ≠ .any []) (hq : q ∈ p.wrapped) :
    ∃ f, q.Wraps p f := by
  simp only [wrapped, List.mem_cons, List.not_mem_nil, or_false] at hq
  rcases hq with rfl | rfl | rfl
  · exact ⟨id, fun r schema table => (id_map _).symm, RowCondition.Alike.refl⟩
  · exact ⟨_, fun r schema table => Rendering.filter_all r schema table hany, .all⟩
  · exact ⟨_, fun r schema table => Rendering.filter_any r schema table hany, .any⟩

/-! ## Statements -/

namespace Rendering

variable {r : Registry} {schema : Schema} {p q : Predicate}
  {f : Option RowCondition → Option RowCondition}

theorem start_map {α β : Type} (g : α → β) (x : Rendering α) :
    start (g <$> x) = (start x).map g := by
  show Prod.fst <$> (g <$> x).run 0 = Except.map g (Prod.fst <$> x.run 0)
  rw [StateT.run_map]
  cases x.run 0 <;> rfl

/-- The query for the keys of the rows that a wrapped filter selects. -/
theorem keys_of_wraps (h : q.Wraps p f) : start (keys r schema q) =
    (start (keys r schema p)).map fun k => { k with condition := f k.condition } := by
  rw [← start_map]
  unfold keys
  simp only [h.filter, map_bind, bind_map_left, map_pure]

end Rendering

/-- The query of a plan with a wrapped filter. -/
theorem Statement.ofPlan_of_wraps {r : Registry} {schema : Schema} {p q : Predicate}
    {f : Option RowCondition → Option RowCondition} (h : q.Wraps p f) (plan : Plan) :
    ofPlan r schema { plan with filter := q } = (ofPlan r schema { plan with filter := p }).map
      fun out => ({ out.1 with condition := f out.1.condition }, out.2) := by
  unfold ofPlan
  rw [← Rendering.start_map]
  simp only [h.filter, map_bind, bind_map_left, map_pure]

/-! ## Queries with like conditions -/

/-- Queries that answer the same keys of the same column are for the same rows. -/
theorem Database.hasKeyOf_of_keys {db : Database} {query : KeyQuery} {c : Option RowCondition}
    (h : db.keys { query with condition := c } = db.keys query) :
    db.hasKeyOf { query with condition := c } = db.hasKeyOf query := by
  funext row
  rw [hasKeyOf, h]
  rfl

section

variable {query : KeyQuery} {c : Option RowCondition}
  (h : RowCondition.Alike query.condition c)
include h

theorem KeyQuery.names_of_alike : ({ query with condition := c } : KeyQuery).names = query.names :=
  congrArg (_ ++ ·) h.names

theorem KeyQuery.depth_of_alike :
    ({ query with condition := c } : KeyQuery).depth = query.depth := by
  simpa [KeyQuery.depth] using h.depth [.qualified] [] List.mem_cons_self

theorem Database.keys_of_alike (db : Database) :
    db.keys { query with condition := c } = db.keys query :=
  congrArg (List.map _) (h.filtered db _ _)

theorem Database.hasKeyOf_of_alike (db : Database) :
    db.hasKeyOf { query with condition := c } = db.hasKeyOf query :=
  hasKeyOf_of_keys (db.keys_of_alike h)

end

section

variable {query : SelectQuery} {c : Option RowCondition}
  (h : RowCondition.Alike query.condition c)
include h

theorem SelectQuery.names_of_alike :
    ({ query with condition := c } : SelectQuery).names = query.names :=
  congrArg (_ ++ · ++ _) h.names

theorem SelectQuery.depth_of_alike (hcolumns : query.columns ≠ []) :
    ({ query with condition := c } : SelectQuery).depth = query.depth := by
  obtain ⟨column, hcolumn⟩ := List.exists_mem_of_ne_nil _ hcolumns
  refine h.depth _ _ (List.mem_append_left _ (List.mem_map.2 ⟨column, hcolumn, rfl⟩))

/-- The same rows come in the same order. -/
theorem Database.sorted_of_alike (db : Database) :
    db.sorted { query with condition := c } = db.sorted query := by
  unfold sorted
  rw [h.filtered]

end

/-! ## Checks -/

theorem Statement.checkSize_eq_ok_iff {statement : Statement} {sql : String} :
    statement.checkSize sql = .ok () ↔ statement.params.length ≤ maxValues ∧
      statement.checkLists sql = .ok () ∧ statement.depth ≤ Depth.maximum := by
  unfold checkSize
  by_cases hvalues : maxValues < statement.params.length
  · rw [if_pos hvalues]
    constructor
    · intro h
      cases h
    · intro h
      omega
  rw [if_neg hvalues]
  refine bind_eq_ok.trans ?_
  by_cases hdepth : Depth.maximum < statement.depth
  · rw [if_pos hdepth]
    constructor
    · rintro ⟨_, -, h⟩
      cases h
    · intro h
      omega
  · rw [if_neg hdepth]
    constructor
    · rintro ⟨_, h, -⟩
      exact ⟨Nat.not_lt.1 hvalues, h, Nat.not_lt.1 hdepth⟩
    · rintro ⟨-, h, -⟩
      exact ⟨(), h, rfl⟩

theorem Database.checkNames_eq_ok_iff {db : Database} {names : Names} {sql : String} :
    db.checkNames names sql = .ok () ↔ ∀ c ∈ names.columns, db.resolves names c = true := by
  unfold checkNames
  cases hfind : names.columns.find? (!db.resolves names ·) with
  | none => simpa using List.find?_eq_none.1 hfind
  | some c =>
    have hm := List.mem_of_find?_eq_some hfind
    have hunresolved : db.resolves names c = false := by simpa using List.find?_some hfind
    constructor
    · intro h
      cases h
    · intro h
      rw [h c hm] at hunresolved
      cases hunresolved

end ResourceApi
