import ResourceApi.Proofs.Sql.Meaning
import ResourceApi.Proofs.Sql.Order
import ResourceApi.Proofs.Sql.Rendering
import ResourceApi.Sql.Reading

/-!
# What the query of a plan answers

**Theorems (`SelectQuery.Renders.filtered_eq`, `SelectQuery.Renders.precedes_iff`).** The query of a
plan selects the rows that satisfy the plan's filter and sorts them by the plan's sort keys, and the
query that counts selects the same rows (`Rendering.length_keys`).

A database reads the text of the query, where keys of related rows may be taken for something else.
That concerns nothing but the related rows (`SelectQuery.read_eq_ok`).
-/

namespace ResourceApi

variable {r : Registry} {db : Database} {schema : Schema} {plan : Plan}

/-! ## Queries of plans -/

mutual

/-- The objects hold columns, and all of them can be built. -/
def RelatedQuery.OfColumns : RelatedQuery → Prop
  | .mk _ fields nested fault _ _ _ =>
    (∀ member ∈ fields, ∃ c, member.2 = .column c) ∧ fault = none ∧ RelatedQuery.AllOfColumns nested

/-- The objects under several keys hold columns, and all of them can be built. -/
def RelatedQuery.AllOfColumns : List (String × RelatedQuery) → Prop
  | [] => True
  | (_, query) :: rest => RelatedQuery.OfColumns query ∧ RelatedQuery.AllOfColumns rest

end

/-- The query is the one that is rendered for a plan. -/
structure SelectQuery.Renders (r : Registry) (schema : Schema) (plan : Plan) (q : SelectQuery) :
    Prop where
  table : q.table = schema.tableName
  columns : q.columns = (plan.attributes.names schema).map fun field =>
    ⟨q.aliasId, columnName field⟩
  condition : ∃ n m, q.aliasId < n ∧
    (Rendering.filter r schema q.aliasId plan.filter).run n = .ok (q.condition, m)
  order : List.Forall₂ (fun key term => term.2 = key.direction ∧ ∃ n m, q.aliasId < n ∧
    (Rendering.sortValue r key.path.field schema q.aliasId key.path.relationships).run n =
      .ok (term.1, m)) plan.sort q.order
  related : List.Forall₂ (fun node query => ∃ n m, q.aliasId < n ∧
    (Rendering.related r schema q.aliasId node).run n = .ok (query, m)) plan.includes q.related
  limit : q.limit = plan.limit
  offset : q.offset = plan.offset

namespace Rendering

mutual

theorem ofColumns_related {schema : Schema} {table : Nat} : ∀ node : IncludeNode,
    Yields (related r schema table node) RelatedQuery.OfColumns
  | .mk relationship target selection nested => by
    unfold related
    refine (yields_trivial _).bind fun a _ => ?_
    refine (yields_trivial aliasId).bind fun inner _ => ?_
    refine (yields_mapM (P := fun member => ∃ c, member.2 = .column c) fun field _ => ?_).bind
      fun fields hfields => ?_
    · refine (yields_trivial _).bind fun c _ => ?_
      exact yields_pure ⟨_, rfl⟩
    refine (ofColumns_relatedMembers nested).bind fun members hmembers => ?_
    exact (yields_trivial _).bind fun joined _ => yields_pure ⟨hfields, rfl, hmembers⟩

theorem ofColumns_relatedMembers {schema : Schema} {table : Nat} : ∀ nodes : List IncludeNode,
    Yields (relatedMembers r schema table nodes) RelatedQuery.AllOfColumns
  | [] => by
    unfold relatedMembers
    exact yields_pure trivial
  | node :: rest => by
    unfold relatedMembers
    exact (ofColumns_related node).bind fun query hquery =>
      (ofColumns_relatedMembers rest).bind fun others hothers => yields_pure ⟨hquery, hothers⟩

end

end Rendering

/-- The query that is rendered for a plan, part by part. -/
theorem Statement.renders_ofPlan {q : SelectQuery} {outputs : List Output}
    (h : Statement.ofPlan r schema plan = .ok (q, outputs)) :
    q.Renders r schema plan ∧ (∀ query ∈ q.related, query.OfColumns) ∧
      outputs = plan.outputs r schema := by
  refine Rendering.Yields.start
    (P := fun out => SelectQuery.Renders r schema plan out.1 ∧
      (∀ query ∈ out.1.related, query.OfColumns) ∧ out.2 = plan.outputs r schema) ?_ h
  intro n out m h
  obtain ⟨table, k, htable, h⟩ := Rendering.run_bind_eq_ok.1 h
  obtain ⟨rfl, rfl⟩ := Rendering.run_aliasId_eq_ok.1 htable
  obtain ⟨columns, k₁, hcolumns, h⟩ := Rendering.run_bind_eq_ok.1 h
  obtain ⟨related, k₂, hrelated, h⟩ := Rendering.run_bind_eq_ok.1 h
  obtain ⟨condition, k₃, hcondition, h⟩ := Rendering.run_bind_eq_ok.1 h
  obtain ⟨order, k₄, horder, h⟩ := Rendering.run_bind_eq_ok.1 h
  obtain ⟨rfl, -⟩ := Rendering.run_pure_eq_ok.1 h
  have growsRelated (node : IncludeNode) : Rendering.Grows (do
      let a ← Rendering.association r schema node.relationship
      let query ← Rendering.related r schema table node
      return (query, Output.related node a.cardinality)) :=
    (Rendering.grows_lift _).bind fun _ => (Rendering.grows_related _ _ _).bind fun _ =>
      Rendering.grows_pure _
  have growsOrder (key : SortKey) : Rendering.Grows (do
      let value ← Rendering.sortValue r key.path.field schema table key.path.relationships
      return (value, key.direction)) :=
    (Rendering.grows_sortValue _ _ _ _).bind fun _ => Rendering.grows_pure _
  -- the aliases of the later parts are past the one of the table
  have h₁ := Rendering.grows_mapM (fun _ => Rendering.grows_lift _) _ hcolumns
  have h₂ := Rendering.grows_mapM growsRelated _ hrelated
  have h₃ := Rendering.grows_filter _ _ hcondition
  have hlt : table < k₂ := by omega
  refine ⟨⟨rfl, ?_, ⟨k₂, k₃, hlt, hcondition⟩, ?_, ?_, rfl, rfl⟩, ?_, ?_⟩
  · have hall := Rendering.mapM_run_eq_ok (fun _ => Rendering.grows_lift _) hcolumns
    refine map_eq_map_of_forall₂ (hall.imp ?_)
    rintro field c ⟨k, l, -, hc⟩
    rw [Rendering.column_eq_ok (Rendering.run_lift_eq_ok.1 hc).1]
  · refine (Rendering.mapM_run_eq_ok growsOrder horder).imp ?_
    rintro key term ⟨k, l, hle, ht⟩
    obtain ⟨value, l', hv, ht⟩ := Rendering.run_bind_eq_ok.1 ht
    obtain ⟨rfl, -⟩ := Rendering.run_pure_eq_ok.1 ht
    have hk : table < k := by omega
    exact ⟨rfl, k, l', hk, hv⟩
  · rw [List.forall₂_map_right_iff]
    refine (Rendering.mapM_run_eq_ok growsRelated hrelated).imp ?_
    rintro node out ⟨k, l, hle, hout⟩
    obtain ⟨a, k', ha, hout⟩ := Rendering.run_bind_eq_ok.1 hout
    obtain ⟨-, rfl⟩ := Rendering.run_lift_eq_ok.1 ha
    obtain ⟨query, l', hq, hout⟩ := Rendering.run_bind_eq_ok.1 hout
    obtain ⟨rfl, -⟩ := Rendering.run_pure_eq_ok.1 hout
    have hk : table < k := by omega
    exact ⟨k, l', hk, hq⟩
  · have hyields : ∀ out ∈ related, out.1.OfColumns :=
      Rendering.yields_mapM (P := fun out => out.1.OfColumns) (fun node _ =>
        (Rendering.yields_trivial _).bind fun _ _ =>
          (Rendering.ofColumns_related node).bind fun _ hq => Rendering.yields_pure hq) hrelated
    intro query hq
    obtain ⟨out, hout, rfl⟩ := List.mem_map.1 hq
    exact hyields out hout
  · have hfields : columns.map (fun c => Output.field c.field c.type) =
        (plan.attributes.names schema).map fun field =>
          .field field ((r.column? schema field).elim .text (·.type)) := by
      have hall := Rendering.mapM_run_eq_ok (fun _ => Rendering.grows_lift _) hcolumns
      refine map_eq_map_of_forall₂ (hall.imp ?_)
      rintro field c ⟨k, l, -, hc⟩
      obtain ⟨hc, hfield⟩ := Rendering.of_column_eq_ok (Rendering.run_lift_eq_ok.1 hc).1
      rw [hc, hfield]
      rfl
    have hnodes : related.map (·.2) = plan.includes.map fun node => Output.related node
        ((r.association? schema node.relationship).elim .one (·.cardinality)) := by
      refine map_eq_map_of_forall₂ ((Rendering.mapM_run_eq_ok growsRelated hrelated).imp ?_)
      rintro node out ⟨k, l, -, hout⟩
      obtain ⟨a, k', ha, hout⟩ := Rendering.run_bind_eq_ok.1 hout
      obtain ⟨ha, -⟩ := Rendering.run_lift_eq_ok.1 ha
      obtain ⟨query, l', -, hout⟩ := Rendering.run_bind_eq_ok.1 hout
      obtain ⟨rfl, -⟩ := Rendering.run_pure_eq_ok.1 hout
      rw [Rendering.association_eq_ok.1 ha]
      rfl
    exact congrArg₂ (· ++ ·) hfields hnodes

/-! ## Rows -/

/-- A filter without null selects the rows that satisfy it. -/
theorem Plan.selected_eq (hp : plan.filter.Valued) :
    plan.filter.selected r db schema = plan.satisfying r db schema := by
  refine List.filter_congr ?_
  intro row _
  rw [Bool.eq_iff_iff, decide_eq_true_iff, Predicate.selects_eq_test hp, Predicate.test_iff]

namespace SelectQuery.Renders

variable {q : SelectQuery}

/-- **The query of a plan selects the rows that satisfy the plan's filter.** -/
theorem filtered_eq (h : q.Renders r schema plan) (hp : plan.filter.Valued)
    (hany : plan.filter ≠ .any []) :
    db.filtered q.table q.aliasId q.condition = plan.satisfying r db schema := by
  obtain ⟨n, m, hn, hc⟩ := h.condition
  rw [h.table, Rendering.filtered_eq_selected hany hc hn, Plan.selected_eq hp]

/-- **The query of a plan selects the fields that the plan selects.** -/
theorem values_eq (h : q.Renders r schema plan) (row : Tuple) :
    q.columns.map (Frame.value [⟨q.aliasId, q.table, row⟩]) =
      (plan.attributes.names schema).map fun field => row.get (columnName field) := by
  have hbinds := Frame.binds_push [] q.aliasId q.table row
  rw [h.columns, List.map_map]
  exact List.map_congr_left fun field _ => hbinds.value _

theorem orderValues_eq (h : q.Renders r schema plan)
    (hone : ∀ key ∈ plan.sort, r.ToOne schema key.path.relationships) (row : Tuple) :
    db.orderValues q row = plan.sortValues r db schema row := by
  refine map_eq_map_of_forall₂ ?_
  have hbinds := Frame.binds_push [] q.aliasId schema.tableName row
  have key (keys : List SortKey) (terms : List (SortValue × Direction))
      (hall : List.Forall₂ (fun key term => term.2 = key.direction ∧ ∃ n m, q.aliasId < n ∧
        (Rendering.sortValue r key.path.field schema q.aliasId key.path.relationships).run n =
          .ok (term.1, m)) keys terms)
      (hone : ∀ key ∈ keys, r.ToOne schema key.path.relationships) :
      List.Forall₂ (fun key term => db.sortValue [⟨q.aliasId, q.table, row⟩] term.1 =
        r.valueAlong db key.path.field schema key.path.relationships row) keys terms := by
    induction hall with
    | nil => exact .nil
    | cons hterm _ ih =>
      obtain ⟨-, n, m, hn, hv⟩ := hterm
      refine .cons ?_ (ih fun key hk => hone key (by simp [hk]))
      rw [h.table]
      exact Rendering.sortValue_sortValue (hone _ (by simp)) hv hn hbinds
  exact key plan.sort q.order h.order hone

/-- **The query of a plan sorts rows by the plan's sort keys.** -/
theorem precedes_iff (h : q.Renders r schema plan)
    (hone : ∀ key ∈ plan.sort, r.ToOne schema key.path.relationships) {row next : Tuple} :
    db.precedes q row next = true ↔ plan.Before r db schema row next := by
  have hdirections : q.order.map (·.2) = plan.sort.map (·.direction) :=
    map_eq_map_of_forall₂ (h.order.imp fun _ _ hterm => hterm.1)
  rw [Database.precedes, Plan.Before, hdirections, h.orderValues_eq hone, h.orderValues_eq hone]

end SelectQuery.Renders

/-- The query for keys asks for the primary keys of the rows that the filter selects. -/
theorem Rendering.selected_of_keys (db : Database) {q : KeyQuery} {p : Predicate} (hany : p ≠ .any [])
    (h : Rendering.start (Rendering.keys r schema p) = .ok q) :
    (q.table = schema.tableName ∧ q.column = schema.idColumn) ∧
      db.filtered q.table q.aliasId q.condition = p.selected r db schema := by
  have hyields : Yields (keys r schema p) fun q =>
      (q.table = schema.tableName ∧ q.column = schema.idColumn) ∧
        db.filtered q.table q.aliasId q.condition = p.selected r db schema := by
    intro n q m h
    obtain ⟨table, k, htable, h⟩ := run_bind_eq_ok.1 h
    obtain ⟨rfl, rfl⟩ := run_aliasId_eq_ok.1 htable
    obtain ⟨condition, k, hc, h⟩ := run_bind_eq_ok.1 h
    obtain ⟨rfl, -⟩ := run_pure_eq_ok.1 h
    exact ⟨⟨rfl, rfl⟩, filtered_eq_selected hany hc (Nat.lt_succ_self table)⟩
  exact hyields.start h

/-- **The query that counts answers a key for every row that satisfies the filter.** -/
theorem Rendering.length_keys {q : KeyQuery} (hp : plan.filter.Valued)
    (hany : plan.filter ≠ .any [])
    (h : Rendering.start (Rendering.keys r schema plan.filter) = .ok q) :
    (db.keys q).length = (plan.satisfying r db schema).length := by
  rw [Database.keys, List.length_map, (selected_of_keys db hany h).2, Plan.selected_eq hp]

/-- Where a query is answered, it is answered with what it selects. -/
theorem Database.answer_eq_ok {q : SelectQuery} {answers : List (List SqlValue × List Json)}
    (h : db.answer q = .ok answers) : answers = db.select q := by
  unfold answer at h
  split at h
  · exact (Except.ok.inj h).symm
  · cases h
  · cases h

/-! ## Reading -/

/-- A database reads a query as it was written, but for the related rows. -/
theorem SelectQuery.read_eq_ok {q q' : SelectQuery} {columnsOf : String → List String}
    (h : q.read columnsOf = .ok q') : ∃ related, q' = { q with related } := by
  unfold read at h
  split at h
  · cases h
  split at h
  · cases h
    exact ⟨q.related, rfl⟩
  dsimp only at h
  split at h
  · rename_i query cursor hread
    have hquery : ∃ related, query = { q with related } := by
      unfold reader at hread
      rw [StateT.run_bind] at hread
      obtain ⟨⟨⟨⟩, c₁⟩, -, hread⟩ := bind_eq_ok.1 hread
      rw [StateT.run_bind] at hread
      obtain ⟨⟨related, c₂⟩, -, hread⟩ := bind_eq_ok.1 hread
      rw [StateT.run_bind] at hread
      obtain ⟨⟨⟨⟩, c₃⟩, -, hread⟩ := bind_eq_ok.1 hread
      rw [StateT.run_pure] at hread
      cases pure_eq_ok.1 hread
      exact ⟨related, rfl⟩
    split at h
    · cases h
      exact hquery
    · cases h
  · cases h

end ResourceApi
